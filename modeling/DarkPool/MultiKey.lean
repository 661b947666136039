import Mathlib.Data.List.Sort
import DarkPool.Admission

namespace DarkPool

inductive CryptoError
  | decryptionFailed (reason : String)
  | encryptionFailed (reason : String)
  | invalidKeyFile (reason : String)
  | deserializationFailed (reason : String)
  | io (reason : String)
  | hexDecode (reason : String)
  | keySource (reason : String)
  deriving DecidableEq

inductive KeyStatus
  | active
  | rotating
  | sunset
  deriving DecidableEq

/-- The place of a status in the order in which keys are tried. -/
def KeyStatus.priority : KeyStatus → Nat
  | .active => 0
  | .rotating => 1
  | .sunset => 2

structure KeyEntry where
  id : String
  status : KeyStatus
  decrypter : Bytes → Except CryptoError DecryptedOrder

/-- The ciphertext was encrypted to this key. -/
def KeyEntry.opens (e : KeyEntry) (ciphertext : Bytes) : Bool := (e.decrypter ciphertext).isOk

structure MultiKeyDecrypter where
  entries : List KeyEntry

namespace MultiKeyDecrypter

/-- Changes the first entry with the id, if there is one. -/
def updateFirst (id : String) (f : KeyEntry → KeyEntry) : List KeyEntry → Option (List KeyEntry)
  | [] => none
  | e :: es => if e.id = id then some (f e :: es) else (updateFirst id f es).map (e :: ·)

def insert (m : MultiKeyDecrypter) (entry : KeyEntry) : MultiKeyDecrypter :=
  ⟨(updateFirst entry.id (fun _ => entry) m.entries).getD (m.entries ++ [entry])⟩

def remove (m : MultiKeyDecrypter) (id : String) : MultiKeyDecrypter × Bool :=
  let entries := m.entries.filter (fun e => e.id ≠ id)
  (⟨entries⟩, entries.length ≠ m.entries.length)

def setStatus (m : MultiKeyDecrypter) (id : String) (status : KeyStatus) : MultiKeyDecrypter × Bool :=
  match updateFirst id (fun e => { e with status := status }) m.entries with
  | some entries => (⟨entries⟩, true)
  | none => (m, false)

/-- The entries by priority; entries of one status keep their order. -/
def sortedSnapshot (m : MultiKeyDecrypter) : List KeyEntry :=
  m.entries.insertionSort (fun e e' => e.status.priority ≤ e'.status.priority)

/-- Tries the keys in turn; the error reported is the first one. -/
def tryKeys (ciphertext : Bytes) : List KeyEntry → Option CryptoError → Except CryptoError DecryptedOrder
  | [], lastErr => .error (lastErr.getD (.decryptionFailed "all keys failed"))
  | e :: es, lastErr =>
    match e.decrypter ciphertext with
    | .ok order => .ok order
    | .error err => tryKeys ciphertext es (some (lastErr.getD err))

def decrypt (m : MultiKeyDecrypter) (ciphertext : Bytes) : Except CryptoError DecryptedOrder :=
  let snapshot := m.sortedSnapshot
  if snapshot.isEmpty then .error (.decryptionFailed "no decryption keys registered")
  else tryKeys ciphertext snapshot none

variable {m : MultiKeyDecrypter} {ciphertext : Bytes} {d : DecryptedOrder}

theorem tryKeys_ok {es : List KeyEntry} {lastErr : Option CryptoError} (h : tryKeys ciphertext es lastErr = .ok d) :
    ∃ e ∈ es, e.decrypter ciphertext = .ok d := by
  induction es generalizing lastErr with
  | nil => simp [tryKeys] at h
  | cons e es ih =>
    unfold tryKeys at h
    split at h
    next order horder => exact ⟨e, List.mem_cons_self, horder.trans h⟩
    next err herr =>
      obtain ⟨e', he', hd⟩ := ih h
      exact ⟨e', List.mem_cons_of_mem e he', hd⟩

theorem tryKeys_of_opens {es : List KeyEntry} {e : KeyEntry} (he : e ∈ es) (hopens : e.opens ciphertext = true)
    (lastErr : Option CryptoError) : ∃ d, tryKeys ciphertext es lastErr = .ok d := by
  induction es generalizing lastErr with
  | nil => simp at he
  | cons e' es ih =>
    unfold tryKeys
    split
    next order horder => exact ⟨order, rfl⟩
    next err herr =>
      rcases List.mem_cons.mp he with rfl | hmem
      · simp [KeyEntry.opens, herr, Except.isOk, Except.toBool] at hopens
      · exact ih hmem _

theorem mem_sortedSnapshot {e : KeyEntry} : e ∈ m.sortedSnapshot ↔ e ∈ m.entries :=
  (List.perm_insertionSort _ _).mem_iff

theorem decrypt_ok (h : m.decrypt ciphertext = .ok d) : ∃ e ∈ m.entries, e.decrypter ciphertext = .ok d := by
  unfold decrypt at h
  simp only at h
  split at h
  next => simp at h
  next =>
    obtain ⟨e, he, hd⟩ := tryKeys_ok h
    exact ⟨e, mem_sortedSnapshot.mp he, hd⟩

theorem decrypt_of_opens {e : KeyEntry} (he : e ∈ m.entries) (hopens : e.opens ciphertext = true) :
    ∃ d, m.decrypt ciphertext = .ok d := by
  have hmem := mem_sortedSnapshot.mpr he
  unfold decrypt
  simp only
  rw [if_neg (by simpa using List.ne_nil_of_mem hmem)]
  exact tryKeys_of_opens hmem hopens none

theorem mem_updateFirst {id : String} {f : KeyEntry → KeyEntry} {es es' : List KeyEntry} {e : KeyEntry}
    (h : updateFirst id f es = some es') (he : e ∈ es') : e ∈ es ∨ ∃ e' ∈ es, e = f e' := by
  induction es generalizing es' with
  | nil => simp [updateFirst] at h
  | cons e' es ih =>
    unfold updateFirst at h
    split at h
    next =>
      cases Option.some.inj h
      rcases List.mem_cons.mp he with rfl | hmem
      · exact .inr ⟨e', List.mem_cons_self, rfl⟩
      · exact .inl (List.mem_cons_of_mem e' hmem)
    next =>
      obtain ⟨rest, hrest, rfl⟩ := Option.map_eq_some_iff.mp h
      rcases List.mem_cons.mp he with rfl | hmem
      · exact .inl List.mem_cons_self
      · rcases ih hrest hmem with hold | ⟨e1, he1, hf⟩
        · exact .inl (List.mem_cons_of_mem e' hold)
        · exact .inr ⟨e1, List.mem_cons_of_mem e' he1, hf⟩

/-- Every key of `m` is a key of `all`, under whatever id and status. -/
def Within (m all : MultiKeyDecrypter) : Prop := ∀ e ∈ m.entries, ∃ e' ∈ all.entries, e'.decrypter = e.decrypter

/-- Two keys that open the same ciphertext find the same order in it. -/
def Consistent (m : MultiKeyDecrypter) : Prop :=
  ∀ e ∈ m.entries, ∀ e' ∈ m.entries, ∀ ciphertext d d', e.decrypter ciphertext = .ok d →
    e'.decrypter ciphertext = .ok d' → d = d'

section Within

variable {all : MultiKeyDecrypter}

theorem Within.insert (h : m.Within all) {entry : KeyEntry} (hentry : ∃ e ∈ all.entries, e.decrypter = entry.decrypter) :
    (m.insert entry).Within all := by
  intro e he
  unfold MultiKeyDecrypter.insert at he
  cases hupdate : updateFirst entry.id (fun _ => entry) m.entries with
  | none =>
    rw [hupdate] at he
    rcases List.mem_append.mp he with hold | hnew
    · exact h e hold
    · rw [List.mem_singleton.mp hnew]
      exact hentry
  | some es =>
    rw [hupdate] at he
    rcases mem_updateFirst hupdate he with hold | ⟨-, -, rfl⟩
    · exact h e hold
    · exact hentry

theorem Within.remove (h : m.Within all) (id : String) : (m.remove id).1.Within all :=
  fun e he => h e (List.mem_filter.mp he).1

theorem Within.setStatus (h : m.Within all) (id : String) (status : KeyStatus) : (m.setStatus id status).1.Within all := by
  unfold MultiKeyDecrypter.setStatus
  split
  next es hupdate =>
    intro e he
    rcases mem_updateFirst hupdate he with hold | ⟨e', he', rfl⟩
    · exact h e hold
    · exact h e' he'
  next => exact h

/-- What some of the keys decrypt, all of them decrypt to the same order. -/
theorem Within.decrypt (h : m.Within all) (hall : all.Consistent) (hd : m.decrypt ciphertext = .ok d) :
    all.decrypt ciphertext = .ok d := by
  obtain ⟨e, he, hopen⟩ := decrypt_ok hd
  obtain ⟨e', he', heq⟩ := h e he
  have hopen' : e'.decrypter ciphertext = .ok d := by rw [heq, hopen]
  have hopens : e'.opens ciphertext = true := by simp [KeyEntry.opens, hopen', Except.isOk, Except.toBool]
  obtain ⟨d', hd'⟩ := decrypt_of_opens he' hopens
  obtain ⟨e1, he1, hopen1⟩ := decrypt_ok hd'
  rw [hd', hall e1 he1 e' he' ciphertext d' d hopen1 hopen']

end Within

end MultiKeyDecrypter

/-- The engine wired with these keys. -/
def Env.withKeys (env : Env) (keys : MultiKeyDecrypter) : Env :=
  { env with decrypt := fun ciphertext => (keys.decrypt ciphertext).toOption }

end DarkPool
