import Mathlib.Algebra.Group.Nat.Defs
import Mathlib.Data.List.Basic
import Mathlib.Tactic.Positivity

namespace MerkleTree

variable {A : Type}

/-- Neighbours in a level, from the left; an odd last node is dropped. -/
def pairs : List A → List (A × A)
  | a :: b :: rest => (a, b) :: pairs rest
  | _ => []

section Levels

variable (h : A → A → A)

/-- The level above. -/
def up (nodes : List A) : List A := (pairs nodes).map (fun u => h u.1 u.2)

def level : Nat → List A → List A
  | 0, nodes => nodes
  | d + 1, nodes => level d (up h nodes)

/-- All that is hashed for `d` levels. -/
def hashed : Nat → List A → List (A × A)
  | 0, _ => []
  | d + 1, nodes => pairs nodes ++ hashed d (up h nodes)

/-- What is hashed with a sibling on the left or on the right. -/
def join (cur : A) (node : A × Bool) : A × A := if node.2 then (node.1, cur) else (cur, node.1)

def step (cur : A) (node : A × Bool) : A := h (join cur node).1 (join cur node).2

/-- The root a path climbs to. -/
def climb (leaf : A) (path : List (A × Bool)) : A := path.foldl (step h) leaf

def climbed : A → List (A × Bool) → List (A × A)
  | _, [] => []
  | cur, node :: path => join cur node :: climbed (step h cur node) path

/-- The neighbour of a node in its pair. -/
def sibling (i : Nat) : Nat := if i % 2 = 1 then i - 1 else i + 1

/-- The path of the `i`-th node: at each level its sibling, and whether that is on the left. -/
def path (default : A) : Nat → List A → Nat → List (A × Bool)
  | 0, _, _ => []
  | d + 1, nodes, i => (nodes.getD (sibling i) default, decide (i % 2 = 1)) :: path default d (up h nodes) (i / 2)

/-- No two of the pairs have one hash. -/
def CollisionFree (S : List (A × A)) : Prop := ∀ u ∈ S, ∀ v ∈ S, h u.1 u.2 = h v.1 v.2 → u = v

end Levels

variable {h : A → A → A}

theorem CollisionFree.mono {S T : List (A × A)} (hT : CollisionFree h T) (hsub : ∀ u ∈ S, u ∈ T) : CollisionFree h S :=
  fun u hu v hv => hT u (hsub u hu) v (hsub v hv)

theorem length_pairs (nodes : List A) : (pairs nodes).length = nodes.length / 2 := by
  fun_induction pairs nodes with
  | case1 a b rest ih =>
    simp only [List.length_cons, ih]
    omega
  | case2 nodes hne =>
    match nodes with
    | [] => simp
    | [a] => simp
    | a :: b :: rest => exact absurd rfl (hne a b rest)

theorem length_up (nodes : List A) : (up h nodes).length = nodes.length / 2 := by
  rw [up, List.length_map, length_pairs]

theorem length_up_pow {d : Nat} {nodes : List A} (hlen : nodes.length = 2 ^ (d + 1)) :
    (up h nodes).length = 2 ^ d := by
  rw [length_up, hlen, pow_succ, Nat.mul_div_cancel _ (by omega)]

theorem length_level {d : Nat} {nodes : List A} (hlen : nodes.length = 2 ^ d) : (level h d nodes).length = 1 := by
  induction d generalizing nodes with
  | zero => simpa [level] using hlen
  | succ d ih => exact ih (length_up_pow hlen)

theorem mem_of_mem_pairs {nodes : List A} {u : A × A} (hu : u ∈ pairs nodes) : u.1 ∈ nodes ∧ u.2 ∈ nodes := by
  fun_induction pairs nodes with
  | case1 a b rest ih =>
    rcases List.mem_cons.mp hu with rfl | hu
    · simp
    · obtain ⟨h1, h2⟩ := ih hu
      simp [h1, h2]
  | case2 nodes hne => simp at hu

section Complete

/-- A node and its sibling are hashed into the node above them. -/
theorem getElem?_up {nodes : List A} {i : Nat} {x y : A} (hx : nodes[i]? = some x) (hy : nodes[sibling i]? = some y) :
    (up h nodes)[i / 2]? = some (step h x (y, decide (i % 2 = 1))) := by
  unfold up
  fun_induction pairs nodes generalizing i with
  | case1 a b rest ih =>
    rcases i with _ | _ | i
    · have h1 : a = x := by simpa using hx
      have h2 : b = y := by simpa [sibling] using hy
      simp [step, join, h1, h2]
    · have h1 : b = x := by simpa using hx
      have h2 : a = y := by simpa [sibling] using hy
      simp [step, join, h1, h2]
    · have hsib : sibling (i + 2) = sibling i + 2 := by
        unfold sibling
        split <;> split <;> omega
      have hhalf : (i + 2) / 2 = i / 2 + 1 := by omega
      have hmod : (i + 2) % 2 = i % 2 := by omega
      rw [hsib] at hy
      rw [hhalf, hmod]
      exact ih (by simpa using hx) (by simpa using hy)
  | case2 nodes hne =>
    match nodes with
    | [] => simp at hx
    | [a] =>
      have hi : i = 0 := by
        by_contra hi
        rw [List.getElem?_eq_none (by simp; omega)] at hx
        cases hx
      rw [hi] at hy
      simp [sibling] at hy
    | a :: b :: rest => exact absurd rfl (hne a b rest)

theorem sibling_lt {i n : Nat} (hi : i < 2 * n) : sibling i < 2 * n := by
  unfold sibling
  split <;> omega

/-- The path of a node climbs to the root. -/
theorem climb_path (default : A) {d i : Nat} {nodes : List A} {x : A} (hlen : nodes.length = 2 ^ d)
    (hx : nodes[i]? = some x) : level h d nodes = [climb h x (path h default d nodes i)] := by
  induction d generalizing nodes i x with
  | zero =>
    match nodes, hlen with
    | [a], _ =>
      have hi : i = 0 := by
        have := (List.getElem?_eq_some_iff.mp hx).1
        simpa using this
      subst hi
      simpa [level, climb, path] using hx
  | succ d ih =>
    have hi : i < 2 ^ (d + 1) := hlen ▸ (List.getElem?_eq_some_iff.mp hx).1
    have hsib : sibling i < nodes.length := by
      rw [hlen, pow_succ']
      exact sibling_lt (by rwa [pow_succ'] at hi)
    obtain ⟨y, hy⟩ : ∃ y, nodes[sibling i]? = some y := ⟨_, List.getElem?_eq_getElem hsib⟩
    have hstep := ih (length_up_pow hlen) (getElem?_up (h := h) hx hy)
    rw [level, hstep, path, climb, climb, List.foldl_cons, List.getD_eq_getElem?_getD, hy]
    rfl

end Complete

section Binding

/-- A path that climbs to the root starts at a node of the level below. -/
theorem mem_of_climb_eq {d : Nat} {nodes : List A} {leaf : A} {steps : List (A × Bool)} (hlen : steps.length = d)
    (hfree : CollisionFree h (hashed h d nodes ++ climbed h leaf steps)) (hroot : climb h leaf steps ∈ level h d nodes) :
    leaf ∈ nodes := by
  induction d generalizing nodes leaf steps with
  | zero =>
    rw [List.length_eq_zero_iff.mp hlen] at hroot
    exact hroot
  | succ d ih =>
    match steps, hlen with
    | node :: steps, hlen =>
      -- The first step leads into the level above, where it is the hash of a pair of nodes.
      have hup : step h leaf node ∈ up h nodes := by
        refine ih (by simpa using hlen) (hfree.mono ?_) hroot
        intro u hu
        rcases List.mem_append.mp hu with hu | hu
        · exact List.mem_append_left _ (List.mem_append_right _ hu)
        · exact List.mem_append_right _ (List.mem_cons_of_mem _ hu)
      obtain ⟨u, hu, heq⟩ := List.mem_map.mp hup
      have hjoin : u = join leaf node := by
        refine hfree u ?_ _ ?_ heq
        · exact List.mem_append_left _ (List.mem_append_left _ hu)
        · exact List.mem_append_right _ List.mem_cons_self
      obtain ⟨h1, h2⟩ := mem_of_mem_pairs hu
      rw [hjoin, join] at h1 h2
      split at h1
      next hright =>
        rw [if_pos hright] at h2
        exact h2
      next => exact h1

theorem map_eq_of_collisionFree {S T : List (A × A)} (hfree : CollisionFree h (S ++ T))
    (heq : S.map (fun u => h u.1 u.2) = T.map (fun u => h u.1 u.2)) : S = T := by
  induction S generalizing T with
  | nil => exact (List.map_eq_nil_iff.mp heq.symm).symm
  | cons u S ih =>
    match T with
    | [] => simp at heq
    | v :: T =>
      obtain ⟨hhead, htail⟩ := List.cons.inj heq
      have huv : u = v := hfree u (by simp) v (by simp) hhead
      have hrest : S = T := by
        refine ih (hfree.mono fun w hw => ?_) htail
        rcases List.mem_append.mp hw with hw | hw
        · simp [hw]
        · simp [hw]
      rw [huv, hrest]

theorem eq_of_pairs_eq {n : Nat} {xs ys : List A} (hxs : xs.length = 2 * n) (hys : ys.length = 2 * n)
    (heq : pairs xs = pairs ys) : xs = ys := by
  induction n generalizing xs ys with
  | zero => rw [List.length_eq_zero_iff.mp hxs, List.length_eq_zero_iff.mp hys]
  | succ n ih =>
    match xs, ys, hxs, hys with
    | a :: b :: xs, c :: e :: ys, hxs, hys =>
      simp only [pairs, List.cons.injEq, Prod.mk.injEq] at heq
      simp only [List.length_cons] at hxs hys
      rw [heq.1.1, heq.1.2, ih (by omega) (by omega) heq.2]

/-- Two trees of one depth with one root have the same leaves. -/
theorem eq_of_level_eq {d : Nat} {xs ys : List A} (hxs : xs.length = 2 ^ d) (hys : ys.length = 2 ^ d)
    (hfree : CollisionFree h (hashed h d xs ++ hashed h d ys)) (heq : level h d xs = level h d ys) : xs = ys := by
  induction d generalizing xs ys with
  | zero => exact heq
  | succ d ih =>
    have hup : up h xs = up h ys := by
      refine ih (length_up_pow hxs) (length_up_pow hys) (hfree.mono ?_) heq
      intro u hu
      rcases List.mem_append.mp hu with hu | hu
      · exact List.mem_append_left _ (List.mem_append_right _ hu)
      · exact List.mem_append_right _ (List.mem_append_right _ hu)
    have hpairs : pairs xs = pairs ys := by
      refine map_eq_of_collisionFree (hfree.mono ?_) hup
      intro u hu
      rcases List.mem_append.mp hu with hu | hu
      · exact List.mem_append_left _ (List.mem_append_left _ hu)
      · exact List.mem_append_right _ (List.mem_append_left _ hu)
    exact eq_of_pairs_eq (by rw [hxs, pow_succ']) (by rw [hys, pow_succ']) hpairs

end Binding

section Single

/-- The pairs on the way up from the first leaf of an otherwise empty tree, each with its empty neighbour. -/
def spine (h : A → A → A) : Nat → A → A → List (A × A)
  | 0, _, _ => []
  | d + 1, x, z => (x, z) :: (z, z) :: spine h d (h x z) (h z z)

theorem pairs_replicate (n : Nat) (z : A) : pairs (List.replicate (2 * n) z) = List.replicate n (z, z) := by
  induction n with
  | zero => rfl
  | succ n ih => rw [show 2 * (n + 1) = 2 * n + 1 + 1 by omega, List.replicate_succ, List.replicate_succ, pairs, ih,
      List.replicate_succ]

/-- A tree with one leaf hashes nothing else. -/
theorem mem_spine_of_mem_hashed {d : Nat} {x z : A} {u : A × A}
    (hu : u ∈ hashed h d (x :: List.replicate (2 ^ d - 1) z)) : u ∈ spine h d x z := by
  induction d generalizing x z with
  | zero => simp [hashed] at hu
  | succ d ih =>
    have hpos : 0 < 2 ^ d := by positivity
    have hwidth : 2 ^ (d + 1) - 1 = 2 * (2 ^ d - 1) + 1 := by
      rw [pow_succ]
      omega
    have hpairs : pairs (x :: List.replicate (2 ^ (d + 1) - 1) z) = (x, z) :: List.replicate (2 ^ d - 1) (z, z) := by
      rw [hwidth, List.replicate_succ, pairs, pairs_replicate]
    rw [hashed, up, hpairs, List.map_cons, List.map_replicate] at hu
    rcases List.mem_append.mp hu with hu | hu
    · rcases List.mem_cons.mp hu with rfl | hu
      · exact List.mem_cons_self
      · rw [(List.mem_replicate.mp hu).2]
        exact List.mem_cons_of_mem _ List.mem_cons_self
    · exact List.mem_cons_of_mem _ (List.mem_cons_of_mem _ (ih hu))

end Single

end MerkleTree
