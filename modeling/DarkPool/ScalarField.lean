import Mathlib.Tactic.NormNum.Prime
import DarkPool.Lib.LucasTest
import DarkPool.Encoding

namespace DarkPool

open LucasTest

-- The powers are computed by a recursion over the bits.
set_option maxRecDepth 4000

theorem prime_639533339 : Nat.Prime 639533339 :=
  prime_of_passes 30 2 [2, 229, 853, 1637] (by norm_num) (by decide)

theorem prime_65865678001877903 : Nat.Prime 65865678001877903 :=
  prime_of_passes 56 5 [2, 83, 379, 1637, 639533339] (by simp only [List.forall_mem_cons, prime_639533339]; norm_num) (by decide)

theorem prime_13818364434197438864469338081 : Nat.Prime 13818364434197438864469338081 :=
  prime_of_passes 94 3 [2, 2, 2, 2, 2, 5, 823, 1593227, 65865678001877903]
    (by simp only [List.forall_mem_cons, prime_65865678001877903]; norm_num) (by decide)

theorem prime_12048837557 : Nat.Prime 12048837557 :=
  prime_of_passes 34 2 [2, 2, 7, 7, 661, 93001] (by norm_num) (by decide)

theorem prime_5156902474397 : Nat.Prime 5156902474397 :=
  prime_of_passes 43 2 [2, 2, 107, 12048837557] (by simp only [List.forall_mem_cons, prime_12048837557]; norm_num) (by decide)

theorem prime_1670836401704629 : Nat.Prime 1670836401704629 :=
  prime_of_passes 51 2 [2, 2, 3, 3, 3, 3, 5156902474397] (by simp only [List.forall_mem_cons, prime_5156902474397]; norm_num) (by decide)

theorem prime_405928799 : Nat.Prime 405928799 :=
  prime_of_passes 29 22 [2, 11, 3691, 4999] (by norm_num) (by decide)

/-- The order of the scalar field of BN254. -/
theorem prime_scalarModulus : Nat.Prime scalarModulus :=
  prime_of_passes 254 5 (List.replicate 28 2 ++ [3, 3, 13, 29, 983, 11003, 237073, 405928799, 1670836401704629,
    13818364434197438864469338081])
    (by
      simp only [List.forall_mem_append, List.mem_replicate, List.forall_mem_cons, prime_405928799,
        prime_1670836401704629, prime_13818364434197438864469338081]
      norm_num)
    (by decide)

theorem fact_prime_scalarModulus : Fact scalarModulus.Prime := ⟨prime_scalarModulus⟩

end DarkPool
