import Mathlib.Data.List.Basic

/-- How the values of a type are written one after another, and how one is taken off the front. -/
structure Codec (ε α : Type) where
  put : α → List UInt8
  get : List UInt8 → Except ε (α × List UInt8)

namespace Codec

variable {ε α β : Type}

/-- Once written, `a` is read back as `b`, whatever follows. -/
def Reads (c : Codec ε α) (a b : α) : Prop := ∀ rest, c.get (c.put a ++ rest) = .ok (b, rest)

/-- Every value is read back as it was. -/
def Exact (c : Codec ε α) : Prop := ∀ a, c.Reads a a

/-- Once written, `a` cannot be read, whatever follows. -/
def Refuses (c : Codec ε α) (a : α) : Prop := ∀ rest, ∃ e, c.get (c.put a ++ rest) = .error e

/-- A field that is left out and filled in by the reader. -/
def skip (d : α) : Codec ε α := ⟨fun _ => [], fun bytes => .ok (d, bytes)⟩

/-- A field that is written in a form its reader does not take. -/
def unreadable (put : α → List UInt8) (e : ε) : Codec ε α := ⟨put, fun _ => .error e⟩

def pair (c : Codec ε α) (d : Codec ε β) : Codec ε (α × β) where
  put x := c.put x.1 ++ d.put x.2
  get bytes := do
    let (a, bytes) ← c.get bytes
    let (b, bytes) ← d.get bytes
    return ((a, b), bytes)

/-- Values that are written as others, and not all of those stand for one. -/
def emap (c : Codec ε α) (f : α → Except ε β) (g : β → α) : Codec ε β where
  put b := c.put (g b)
  get bytes := do
    let (a, bytes) ← c.get bytes
    let b ← f a
    return (b, bytes)

def imap (c : Codec ε α) (f : α → β) (g : β → α) : Codec ε β := c.emap (fun a => .ok (f a)) g

def getMany (c : Codec ε α) : Nat → List UInt8 → Except ε (List α × List UInt8)
  | 0, bytes => .ok ([], bytes)
  | n + 1, bytes => do
    let (a, bytes) ← c.get bytes
    let (l, bytes) ← c.getMany n bytes
    return (a :: l, bytes)

/-- A list, after its length. -/
def list (length : Codec ε Nat) (c : Codec ε α) : Codec ε (List α) where
  put l := length.put l.length ++ l.flatMap c.put
  get bytes := do
    let (n, bytes) ← length.get bytes
    c.getMany n bytes

/-- An option, after a byte that says whether there is a value. -/
def option (eof : ε) (badTag : UInt8 → ε) (c : Codec ε α) : Codec ε (Option α) where
  put
    | none => [0]
    | some a => 1 :: c.put a
  get
    | [] => .error eof
    | 0 :: bytes => .ok (none, bytes)
    | 1 :: bytes => do
      let (a, bytes) ← c.get bytes
      return (some a, bytes)
    | tag :: _ => .error (badTag tag)

/-- As many values as the reader expects. -/
def array (eof : ε) (n : Nat) (c : Codec ε α) : Codec ε (Vector α n) where
  put v := v.toList.flatMap c.put
  get bytes := do
    let (l, bytes) ← c.getMany n bytes
    if h : l.length = n then return (⟨l.toArray, h⟩, bytes) else throw eof

/-- An option that is written only where there is a value, and read as if it always were. -/
def skipNone (c : Codec ε (Option α)) : Codec ε (Option α) where
  put
    | none => []
    | some a => c.put (some a)
  get := c.get

section Rules

variable {c : Codec ε α} {d : Codec ε β} {a a' : α} {b b' : β}

theorem unreadable_refuses (put : α → List UInt8) (e : ε) (a : α) : (unreadable put e).Refuses a :=
  fun _ => ⟨e, rfl⟩

theorem Reads.pair (ha : c.Reads a a') (hb : d.Reads b b') : (c.pair d).Reads (a, b) (a', b') := by
  intro rest
  simp only [Codec.pair, List.append_assoc, ha _, hb _, bind, Except.bind]
  rfl

theorem Refuses.pair (h : c.Refuses a) (b : β) : (c.pair d).Refuses (a, b) := by
  intro rest
  obtain ⟨e, he⟩ := h (d.put b ++ rest)
  refine ⟨e, ?_⟩
  simp only [Codec.pair, List.append_assoc, he, bind, Except.bind]

theorem Reads.pair_refuses (ha : c.Reads a a') (h : d.Refuses b) : (c.pair d).Refuses (a, b) := by
  intro rest
  obtain ⟨e, he⟩ := h rest
  refine ⟨e, ?_⟩
  simp only [Codec.pair, List.append_assoc, ha _, he, bind, Except.bind]

theorem Exact.pair (hc : c.Exact) (hd : d.Exact) : (c.pair d).Exact := fun x => (hc x.1).pair (hd x.2)

section Map

variable {f : α → Except ε β} {g : β → α}

theorem Reads.emap (h : c.Reads (g b) a') (hf : f a' = .ok b') : (c.emap f g).Reads b b' := by
  intro rest
  simp only [Codec.emap, h _, hf, bind, Except.bind]
  rfl

theorem Refuses.emap (h : c.Refuses (g b)) : (c.emap f g).Refuses b := by
  intro rest
  obtain ⟨e, he⟩ := h rest
  refine ⟨e, ?_⟩
  simp only [Codec.emap, he, bind, Except.bind]

theorem Reads.imap_self {f : α → β} (h : c.Reads (g b) (g b)) (hf : f (g b) = b) : (c.imap f g).Reads b b :=
  h.emap (congrArg Except.ok hf)

theorem Refuses.imap {f : α → β} (h : c.Refuses (g b)) : (c.imap f g).Refuses b := h.emap

theorem Exact.emap (h : c.Exact) (hf : ∀ b, f (g b) = .ok b) : (c.emap f g).Exact := fun b => (h (g b)).emap (hf b)

theorem Exact.imap {f : α → β} (h : c.Exact) (hf : ∀ b, f (g b) = b) : (c.imap f g).Exact :=
  h.emap (fun b => congrArg Except.ok (hf b))

end Map

theorem getMany_flatMap (h : c.Exact) (l : List α) (rest : List UInt8) :
    c.getMany l.length (l.flatMap c.put ++ rest) = .ok (l, rest) := by
  induction l with
  | nil => rfl
  | cons a l ih =>
    simp only [List.length_cons, getMany, List.flatMap_cons, List.append_assoc, h a _, ih, bind, Except.bind]
    rfl

variable {length : Codec ε Nat} (hlength : length.Exact)
include hlength

theorem Exact.list (h : c.Exact) : (list length c).Exact := by
  intro l rest
  simp only [Codec.list, List.append_assoc, hlength _ _, bind, Except.bind]
  exact getMany_flatMap h l rest

/-- A list is given up at its first item. -/
theorem Refuses.list (h : c.Refuses a) (l : List α) : (list length c).Refuses (a :: l) := by
  intro rest
  obtain ⟨e, he⟩ := h (l.flatMap c.put ++ rest)
  refine ⟨e, ?_⟩
  simp only [Codec.list, List.append_assoc, hlength _ _, List.length_cons, getMany, List.flatMap_cons, he, bind,
    Except.bind]

theorem nil_reads (c : Codec ε α) : (Codec.list length c).Reads [] [] := by
  intro rest
  simp only [Codec.list, List.append_assoc, hlength _ _, bind, Except.bind]
  rfl

end Rules

end Codec
