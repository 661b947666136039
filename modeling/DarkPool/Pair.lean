import Mathlib.Data.String.Basic
import DarkPool.Error

namespace DarkPool

/-- Rust's `char::is_whitespace`. -/
def isWhitespace (c : Char) : Bool :=
  let n := c.toNat
  (9 ≤ n && n ≤ 13) || n == 0x20 || n == 0x85 || n == 0xA0 || n == 0x1680 || (0x2000 ≤ n && n ≤ 0x200A) ||
    n == 0x2028 || n == 0x2029 || n == 0x202F || n == 0x205F || n == 0x3000

def trim (cs : List Char) : List Char := ((cs.dropWhile isWhitespace).reverse.dropWhile isWhitespace).reverse

def isSeparator (c : Char) : Bool := c == '/' || c == '-' || c == '_'

def isPairChar (c : Char) : Bool := c.isAlphanum || isSeparator c

namespace Pair

/-- The canonical form of a pair name, which the source wraps as `Pair`. -/
def parse (input : String) : Except DarkPoolError String :=
  let trimmed := trim input.toList
  if trimmed.isEmpty then .error .pairRequired
  else
    let upper := trimmed.map Char.toUpper
    match upper.dropWhile (fun c => !isSeparator c) with
    | [] => .error (.invalidPair input)
    | _ :: quote =>
      let base := upper.takeWhile (fun c => !isSeparator c)
      if base.isEmpty || quote.isEmpty then .error (.invalidPair input)
      else if upper.all isPairChar then .ok (String.ofList upper)
      else .error (.invalidPair input)

theorem isWhitespace_of_isPairChar {c : Char} (h : isPairChar c = true) : isWhitespace c = false := by
  have hnat : (48 ≤ c.toNat ∧ c.toNat ≤ 57) ∨ (65 ≤ c.toNat ∧ c.toNat ≤ 90) ∨
      (97 ≤ c.toNat ∧ c.toNat ≤ 122) ∨ c.toNat = 47 ∨ c.toNat = 45 ∨ c.toNat = 95 := by
    have halpha : c.isAlpha = (decide (c.val ≥ 'A'.val ∧ c.val ≤ 'Z'.val) ||
        decide (c.val ≥ 'a'.val) && decide (c.val ≤ 'z'.val)) := rfl
    simp only [isPairChar, Char.isAlphanum, halpha, Char.isDigit, isSeparator, Bool.or_eq_true,
      Bool.and_eq_true, decide_eq_true_eq, beq_iff_eq, ← Char.toNat_inj, UInt32.le_iff_toNat_le, Char.toNat_val] at h
    simp at h
    omega
  simp only [isWhitespace, Bool.or_eq_false_iff, Bool.and_eq_false_iff, decide_eq_false_iff_not,
    beq_eq_false_iff_ne]
  omega

theorem trim_eq_self {cs : List Char} (h : ∀ c ∈ cs, isWhitespace c = false) : trim cs = cs := by
  have hkeep : ∀ ds : List Char, (∀ c ∈ ds, isWhitespace c = false) → ds.dropWhile isWhitespace = ds := by
    intro ds hds
    cases ds with
    | nil => rfl
    | cons c ds => exact List.dropWhile_cons_of_neg (by simp [hds c List.mem_cons_self])
  unfold trim
  rw [hkeep cs h, hkeep cs.reverse (fun c hc => h c (List.mem_reverse.mp hc)), List.reverse_reverse]

theorem toUpper_toUpper (c : Char) : c.toUpper.toUpper = c.toUpper := by
  have hnot : ¬ (c.toUpper.val ≥ 'a'.val ∧ c.toUpper.val ≤ 'z'.val) := by
    unfold Char.toUpper
    split <;> grind [UInt32.toNat_add, Char.toNat_val]
  conv_lhs => unfold Char.toUpper
  exact dif_neg hnot

/-- A canonical pair name parses to itself. -/
theorem parse_idem {input key : String} (h : parse input = .ok key) : parse key = .ok key := by
  unfold parse at h
  simp only at h
  split at h
  next => simp at h
  next hne =>
    split at h
    next => simp at h
    next quote hdrop =>
      split at h
      next => simp at h
      next hparts =>
        split at h
        next hall =>
          cases Except.ok.inj h
          have hupper : ((trim input.toList).map Char.toUpper).map Char.toUpper =
              (trim input.toList).map Char.toUpper := by
            simp [List.map_map, Function.comp_def, toUpper_toUpper]
          have htrim : trim ((trim input.toList).map Char.toUpper) = (trim input.toList).map Char.toUpper :=
            trim_eq_self (fun c hc => isWhitespace_of_isPairChar (List.all_eq_true.mp hall c hc))
          have hne' : ((trim input.toList).map Char.toUpper).isEmpty = false := by simpa using hne
          unfold parse
          simp only [String.toList_ofList, htrim, hne', hupper, hdrop, hparts, hall, Bool.false_eq_true, if_false,
            if_true]
        next => simp at h

end Pair

end DarkPool
