import Mathlib.Data.Countable.Basic
import Mathlib.Data.List.Basic
import DarkPool.Lib.Radix

/-- A binary format for records. No record is empty, and a record that is cut short is not read as another. -/
structure RecordCodec (α : Type*) where
  serialize : α → List UInt8
  deserialize : List UInt8 → Option α
  serialize_ne_nil : ∀ a, serialize a ≠ []
  deserialize_serialize : ∀ a, deserialize (serialize a) = some a
  deserialize_take : ∀ a n, n < (serialize a).length → deserialize ((serialize a).take n) = none

namespace RecordCodec

variable {α : Type*} (codec : RecordCodec α) (limit : Nat)

/-- The length of a record, as it is written before it: four bytes, into which larger lengths are cut. -/
def lengthBytes (n : Nat) : List UInt8 := Radix.toBytes 4 (n % 2 ^ 32)

def frame (a : α) : List UInt8 := lengthBytes (codec.serialize a).length ++ codec.serialize a

def frames (as : List α) : List UInt8 := as.flatMap codec.frame

/-- What is found at the start of some bytes. -/
inductive Scan (α : Type*)
  | stop
  | corrupt
  | record (a : α) (size : Nat)

/-- A length that is out of bounds ends the log, as missing bytes do. -/
def readRecord (bytes : List UInt8) : Scan α :=
  if bytes.length < 4 then .stop
  else
    let length := Radix.ofBytes (bytes.take 4)
    if length = 0 ∨ limit < length then .stop
    else if (bytes.drop 4).length < length then .stop
    else
      match codec.deserialize ((bytes.drop 4).take length) with
      | none => .corrupt
      | some a => .record a (4 + length)

theorem size_readRecord {bytes : List UInt8} {a : α} {size : Nat} (h : codec.readRecord limit bytes = .record a size) :
    0 < size ∧ size ≤ bytes.length := by
  unfold readRecord at h
  split at h
  next => cases h
  next hlen =>
    dsimp only at h
    split at h
    next => cases h
    next =>
      split at h
      next => cases h
      next hrest =>
        rw [List.length_drop] at hrest
        split at h
        next => cases h
        next =>
          cases h
          omega

/-- Reads records up to the end of the log: the records, and the offset behind the last of them. A record
that does not decode is reported with its offset. -/
def load (bytes : List UInt8) (offset : Nat) : Except Nat (List α × Nat) :=
  match _hread : codec.readRecord limit bytes with
  | .stop => .ok ([], offset)
  | .corrupt => .error offset
  | .record a size => (load (bytes.drop size) (offset + size)).map (fun r => (a :: r.1, r.2))
termination_by bytes.length
decreasing_by
  have hsize := codec.size_readRecord limit _hread
  rw [List.length_drop]
  omega

/-- The loader reads the record back. -/
def Fits (a : α) : Prop := (codec.serialize a).length ≤ limit

instance (a : α) : Decidable (codec.Fits limit a) := inferInstanceAs (Decidable (_ ≤ _))

/-- The loader ends the log at the record, of whose frame and what follows `n` bytes are left. -/
def Ends (a : α) (n : Nat) : Prop :=
  (codec.serialize a).length % 2 ^ 32 = 0 ∨ limit < (codec.serialize a).length % 2 ^ 32 ∨
    n < 4 + (codec.serialize a).length % 2 ^ 32

instance (a : α) (n : Nat) : Decidable (codec.Ends limit a n) := inferInstanceAs (Decidable (_ ∨ _))

variable {limit}

@[simp]
theorem length_lengthBytes (n : Nat) : (lengthBytes n).length = 4 := Radix.length_toBytes ..

theorem ofBytes_lengthBytes (n : Nat) : Radix.ofBytes (lengthBytes n) = n % 2 ^ 32 :=
  Radix.ofBytes_toBytes 4 _ (Nat.mod_lt _ (by decide))

@[simp]
theorem length_frame (a : α) : (codec.frame a).length = 4 + (codec.serialize a).length := by
  rw [frame, List.length_append, length_lengthBytes]

@[simp]
theorem frames_nil : codec.frames [] = [] := rfl

@[simp]
theorem frames_cons (a : α) (as : List α) : codec.frames (a :: as) = codec.frame a ++ codec.frames as := rfl

@[simp]
theorem frames_append (as bs : List α) : codec.frames (as ++ bs) = codec.frames as ++ codec.frames bs :=
  List.flatMap_append

theorem length_serialize_pos (a : α) : 0 < (codec.serialize a).length :=
  List.length_pos_iff.mpr (codec.serialize_ne_nil a)

variable {codec}

/-- A record that fits ends the log only if it is cut. -/
theorem Fits.ends_iff (hlimit : limit < 2 ^ 32) {a : α} (h : codec.Fits limit a) (n : Nat) :
    codec.Ends limit a n ↔ n < (codec.frame a).length := by
  have hpos := codec.length_serialize_pos a
  have hle : (codec.serialize a).length ≤ limit := h
  have hmod : (codec.serialize a).length % 2 ^ 32 = (codec.serialize a).length := Nat.mod_eq_of_lt (by omega)
  rw [Ends, hmod, length_frame]
  omega

variable (codec)

/-- What the loader finds at a record of which `n` bytes are left. -/
theorem readRecord_take (hlimit : limit < 2 ^ 32) (a : α) (rest : List UInt8) (n : Nat) :
    codec.readRecord limit ((codec.frame a ++ rest).take n) =
      if codec.Ends limit a n then .stop
      else if codec.Fits limit a then .record a (codec.frame a).length else .corrupt := by
  have hbytes : (codec.frame a ++ rest).take n =
      (lengthBytes (codec.serialize a).length ++ (codec.serialize a ++ rest)).take n := by
    rw [frame, List.append_assoc]
  have hpos := codec.length_serialize_pos a
  generalize hl : (codec.serialize a).length % 2 ^ 32 = l
  have hle : l ≤ (codec.serialize a).length := hl ▸ Nat.mod_le _ _
  by_cases hshort : n < 4
  · have hends : codec.Ends limit a n := Or.inr (Or.inr (by omega))
    rw [if_pos hends, readRecord, if_pos]
    rw [List.length_take]
    omega
  · have hlen : ¬ ((codec.frame a ++ rest).take n).length < 4 := by
      rw [List.length_take, List.length_append, length_frame]
      omega
    have hhead : ((codec.frame a ++ rest).take n).take 4 = lengthBytes (codec.serialize a).length := by
      rw [hbytes, List.take_take, Nat.min_eq_left (by omega)]
      exact List.take_left' (length_lengthBytes _)
    have htail : ((codec.frame a ++ rest).take n).drop 4 = (codec.serialize a ++ rest).take (n - 4) := by
      rw [hbytes, List.drop_take, List.drop_left' (length_lengthBytes _)]
    rw [readRecord, if_neg hlen]
    simp only [hhead, htail, ofBytes_lengthBytes, hl]
    by_cases hbad : l = 0 ∨ limit < l
    · have hends : codec.Ends limit a n := by
        rw [Ends, hl]
        omega
      rw [if_pos hbad, if_pos hends]
    · rw [if_neg hbad]
      have htotal : ((codec.serialize a ++ rest).take (n - 4)).length < l ↔ n < 4 + l := by
        rw [List.length_take, List.length_append]
        omega
      by_cases hcut : n < 4 + l
      · have hends : codec.Ends limit a n := by
          rw [Ends, hl]
          omega
        rw [if_pos (htotal.mpr hcut), if_pos hends]
      · have hends : ¬ codec.Ends limit a n := by
          rw [Ends, hl]
          omega
        have hpayload : ((codec.serialize a ++ rest).take (n - 4)).take l = (codec.serialize a).take l := by
          rw [List.take_take, Nat.min_eq_left (by omega), List.take_append_of_le_length hle]
        rw [if_neg (fun h => hcut (htotal.mp h)), if_neg hends, hpayload]
        by_cases hfits : codec.Fits limit a
        · have hfull : (codec.serialize a).length = l := by
            have hlim : (codec.serialize a).length ≤ limit := hfits
            rw [← hl]
            exact (Nat.mod_eq_of_lt (by omega)).symm
          rw [if_pos hfits, ← hfull, List.take_length, codec.deserialize_serialize, length_frame]
        · -- The length did not fit into its four bytes, so what is read is cut short.
          have hlt : l < (codec.serialize a).length := by
            have hlim : ¬ (codec.serialize a).length ≤ limit := hfits
            omega
          rw [if_neg hfits, codec.deserialize_take a l hlt]

/-- The loader at a record of which `n` bytes are left. -/
theorem load_take (hlimit : limit < 2 ^ 32) (a : α) (rest : List UInt8) (n offset : Nat) :
    codec.load limit ((codec.frame a ++ rest).take n) offset =
      if codec.Ends limit a n then .ok ([], offset)
      else if codec.Fits limit a then
        (codec.load limit (rest.take (n - (codec.frame a).length)) (offset + (codec.frame a).length)).map
          (fun r => (a :: r.1, r.2))
      else .error offset := by
  have hread := codec.readRecord_take hlimit a rest n
  rw [load]
  split
  next hscan =>
    rw [hscan] at hread
    by_cases hends : codec.Ends limit a n
    · rw [if_pos hends]
    · rw [if_neg hends] at hread
      split at hread <;> cases hread
  next hscan =>
    rw [hscan] at hread
    by_cases hends : codec.Ends limit a n
    · rw [if_pos hends] at hread
      cases hread
    · rw [if_neg hends] at hread ⊢
      by_cases hfits : codec.Fits limit a
      · rw [if_pos hfits] at hread
        cases hread
      · rw [if_neg hfits]
  next b size hscan =>
    rw [hscan] at hread
    by_cases hends : codec.Ends limit a n
    · rw [if_pos hends] at hread
      cases hread
    · rw [if_neg hends] at hread ⊢
      by_cases hfits : codec.Fits limit a
      · rw [if_pos hfits] at hread ⊢
        cases hread
        rw [List.drop_take, List.drop_left]
      · rw [if_neg hfits] at hread
        cases hread

theorem load_of_stop {bytes : List UInt8} (h : codec.readRecord limit bytes = .stop) (offset : Nat) :
    codec.load limit bytes offset = .ok ([], offset) := by
  rw [load]
  split
  next => rfl
  next hscan =>
    rw [h] at hscan
    cases hscan
  next hscan =>
    rw [h] at hscan
    cases hscan

theorem load_nil (offset : Nat) : codec.load limit [] offset = .ok ([], offset) := codec.load_of_stop rfl offset

/-- Records that fit are read back, and the loader goes on behind them. -/
theorem load_frames (hlimit : limit < 2 ^ 32) {as : List α} (h : ∀ a ∈ as, codec.Fits limit a) (rest : List UInt8)
    (offset : Nat) :
    codec.load limit (codec.frames as ++ rest) offset =
      (codec.load limit rest (offset + (codec.frames as).length)).map (fun r => (as ++ r.1, r.2)) := by
  induction as generalizing offset with
  | nil =>
    rw [frames_nil, List.nil_append, List.length_nil, Nat.add_zero]
    cases codec.load limit rest offset <;> rfl
  | cons a as ih =>
    have hfits := h a List.mem_cons_self
    have htake := codec.load_take hlimit a (codec.frames as ++ rest)
      (codec.frame a ++ (codec.frames as ++ rest)).length offset
    have hwhole : ¬ codec.Ends limit a (codec.frame a ++ (codec.frames as ++ rest)).length := by
      rw [hfits.ends_iff hlimit, List.length_append]
      omega
    rw [List.take_length, if_neg hwhole, if_pos hfits, List.length_append, Nat.add_sub_cancel_left, List.take_length,
      ih (fun b hb => h b (List.mem_cons_of_mem a hb))] at htake
    rw [frames_cons, List.append_assoc, htake, List.length_append, Nat.add_assoc]
    cases codec.load limit rest (offset + ((codec.frame a).length + (codec.frames as).length)) <;> rfl

/-- Only records that fit are read back. -/
theorem fits_of_load (hlimit : limit < 2 ^ 32) {as : List α} {rest : List UInt8} {offset : Nat} {r : List α × Nat}
    (h : codec.load limit (codec.frames as ++ rest) offset = .ok r) (hread : as.length ≤ r.1.length) :
    ∀ a ∈ as, codec.Fits limit a := by
  induction as generalizing offset r with
  | nil => simp
  | cons a as ih =>
    have htake := codec.load_take hlimit a (codec.frames as ++ rest)
      (codec.frame a ++ (codec.frames as ++ rest)).length offset
    rw [frames_cons, List.append_assoc] at h
    rw [List.take_length, h] at htake
    by_cases hends : codec.Ends limit a (codec.frame a ++ (codec.frames as ++ rest)).length
    · rw [if_pos hends] at htake
      cases Except.ok.inj htake
      simp at hread
    · rw [if_neg hends] at htake
      by_cases hfits : codec.Fits limit a
      · rw [if_pos hfits, List.length_append, Nat.add_sub_cancel_left, List.take_length] at htake
        cases hload : codec.load limit (codec.frames as ++ rest) (offset + (codec.frame a).length) with
        | error e =>
          rw [hload] at htake
          cases htake
        | ok r' =>
          rw [hload] at htake
          cases Except.ok.inj htake
          intro b hb
          rcases List.mem_cons.mp hb with rfl | hb
          · exact hfits
          · exact ih hload (Nat.le_of_succ_le_succ hread) b hb
      · rw [if_neg hfits] at htake
        cases htake

/-- A log is read back whole if its records fit and none is cut. -/
theorem load_take_eq_all (hlimit : limit < 2 ^ 32) (as : List α) (n offset : Nat) :
    (codec.load limit ((codec.frames as).take n) offset).map Prod.fst = .ok as ↔
      (∀ a ∈ as, codec.Fits limit a) ∧ (codec.frames as).length ≤ n := by
  induction as generalizing n offset with
  | nil =>
    rw [frames_nil, List.take_nil, load_nil]
    simp [Except.map]
  | cons a as ih =>
    rw [frames_cons, load_take codec hlimit]
    by_cases hends : codec.Ends limit a n
    · rw [if_pos hends]
      constructor
      · intro h
        cases Except.ok.inj h
      · intro h
        have hcut := (h.1 a List.mem_cons_self).ends_iff hlimit n |>.mp hends
        rw [List.length_append] at h
        omega
    · rw [if_neg hends]
      by_cases hfits : codec.Fits limit a
      · have hlen : (codec.frame a).length ≤ n := by
          rw [hfits.ends_iff hlimit] at hends
          omega
        have hrest := ih (n - (codec.frame a).length) (offset + (codec.frame a).length)
        rw [if_pos hfits, List.forall_mem_cons, List.length_append]
        have hcons : ∀ x : Except Nat (List α × Nat),
            (x.map (fun r => (a :: r.1, r.2))).map Prod.fst = .ok (a :: as) ↔ x.map Prod.fst = .ok as := by
          intro x
          cases x <;> simp [Except.map]
        rw [hcons, hrest]
        constructor
        · rintro ⟨hall, hle⟩
          exact ⟨⟨hfits, hall⟩, by omega⟩
        · rintro ⟨⟨-, hall⟩, hle⟩
          exact ⟨hall, by omega⟩
      · rw [if_neg hfits]
        constructor
        · intro h
          cases h
        · intro h
          exact absurd (h.1 a List.mem_cons_self) hfits

/-- Nothing is read if the log ends at its first record. -/
theorem load_take_eq_none (hlimit : limit < 2 ^ 32) (as : List α) (n offset : Nat) :
    (codec.load limit ((codec.frames as).take n) offset).map Prod.fst = .ok [] ↔
      ∀ a ∈ as.head?, codec.Ends limit a n := by
  cases as with
  | nil =>
    rw [frames_nil, List.take_nil, load_nil]
    simp [Except.map]
  | cons a as =>
    rw [frames_cons, load_take codec hlimit]
    by_cases hends : codec.Ends limit a n
    · simp [hends, Except.map]
    · rw [if_neg hends]
      have hnot : ¬ ∀ b ∈ (a :: as).head?, codec.Ends limit b n := fun h => hends (h a rfl)
      refine iff_of_false ?_ hnot
      by_cases hfits : codec.Fits limit a
      · rw [if_pos hfits]
        intro h
        cases hload : codec.load limit ((codec.frames as).take (n - (codec.frame a).length))
            (offset + (codec.frame a).length) with
        | error e =>
          rw [hload] at h
          cases h
        | ok r =>
          rw [hload] at h
          cases Except.ok.inj h
      · rw [if_neg hfits]
        intro h
        cases h

section Exists

open Classical in
/-- Any format of which no record begins another can be read back. -/
noncomputable def ofPrefixFree (serialize : α → List UInt8) (hne : ∀ a, serialize a ≠ [])
    (hfree : ∀ a b, serialize a <+: serialize b → a = b) : RecordCodec α where
  serialize := serialize
  deserialize bytes := if h : ∃ a, serialize a = bytes then some h.choose else none
  serialize_ne_nil := hne
  deserialize_serialize a := by
    have h : ∃ b, serialize b = serialize a := ⟨a, rfl⟩
    have heq : h.choose = a := hfree _ _ ⟨[], by rw [List.append_nil, h.choose_spec]⟩
    rw [dif_pos h, heq]
  deserialize_take a n hn := by
    refine dif_neg ?_
    rintro ⟨b, hb⟩
    have heq : b = a := hfree b a (hb ▸ List.take_prefix n _)
    have hlen := congrArg List.length hb
    rw [heq, List.length_take] at hlen
    omega

/-- The record's number in unary, a separator and some padding. -/
def unary (number pad : α → Nat) (a : α) : List UInt8 :=
  List.replicate (number a) 1 ++ 0 :: List.replicate (pad a) 2

theorem eq_of_unary_begins {number pad : α → Nat} (hnumber : Function.Injective number) {a b : α}
    (h : unary number pad a <+: unary number pad b) : a = b := by
  have hindex : ∀ c, (unary number pad c).idxOf 0 = number c := by
    intro c
    rw [unary, List.idxOf_append_of_notMem (by simp), List.length_replicate, List.idxOf_cons_self, Nat.add_zero]
  obtain ⟨rest, hrest⟩ := h
  have hsame : (unary number pad b).idxOf 0 = (unary number pad a).idxOf 0 := by
    rw [← hrest]
    exact List.idxOf_append_of_mem (by simp [unary])
  rw [hindex, hindex] at hsame
  exact hnumber hsame.symm

open Classical in
/-- There is a format for the records of a countable type in which the given ones are as short as their padding. -/
theorem exists_codec [Countable α] (as : List α) (pad : α → Nat) :
    ∃ codec : RecordCodec α, (∀ a ∈ as, (codec.serialize a).length ≤ as.length + pad a) ∧
      ∀ a, pad a < (codec.serialize a).length := by
  obtain ⟨g, hg⟩ := Countable.exists_injective_nat α
  have hnumber : Function.Injective (fun a => if a ∈ as then as.idxOf a else as.length + g a) := by
    intro a b hab
    dsimp only at hab
    by_cases ha : a ∈ as
    · have hlt := List.idxOf_lt_length_of_mem ha
      by_cases hb : b ∈ as
      · rw [if_pos ha, if_pos hb] at hab
        exact (List.idxOf_inj ha).mp hab
      · rw [if_pos ha, if_neg hb] at hab
        omega
    · by_cases hb : b ∈ as
      · have hlt := List.idxOf_lt_length_of_mem hb
        rw [if_neg ha, if_pos hb] at hab
        omega
      · rw [if_neg ha, if_neg hb] at hab
        exact hg (by omega)
  have hlength : ∀ (number : α → Nat) a, (unary number pad a).length = number a + 1 + pad a := by
    intro number a
    simp only [unary, List.length_append, List.length_cons, List.length_replicate]
    omega
  refine ⟨ofPrefixFree (unary _ pad) (by simp [unary]) (fun a b => eq_of_unary_begins hnumber), ?_, ?_⟩
  · intro a ha
    have hlt := List.idxOf_lt_length_of_mem ha
    have hlen := hlength (fun a => if a ∈ as then as.idxOf a else as.length + g a) a
    rw [if_pos ha] at hlen
    exact hlen.trans_le (by omega)
  · intro a
    have hlen := hlength (fun a => if a ∈ as then as.idxOf a else as.length + g a) a
    exact lt_of_lt_of_eq (by omega) hlen.symm

end Exists

end RecordCodec
