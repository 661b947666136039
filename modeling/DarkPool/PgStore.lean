import Mathlib.Logic.Function.Basic
import DarkPool.Event
import DarkPool.Lib.Transition

namespace DarkPool

/-- Where the caller of an append is: it inserts its rows, waits for the reply to its `COMMIT`, has the reply
and not yet written `last_seq`, or has returned. -/
inductive PgCaller
  | inserting
  | committing
  | acked
  | returnedOk
  | returnedErr
  deriving DecidableEq

/-- A returned append is not in flight. -/
def PgCaller.returned : PgCaller → Bool
  | .returnedOk | .returnedErr => true
  | _ => false

/-- A transaction as the server has it; `asked` when its `COMMIT` is on the way. -/
inductive PgTx
  | active
  | asked
  | committed
  | rolledBack
  deriving DecidableEq

/-- One call of `append`: the rows inserted so far, under the numbers the database returned, and the events
still to insert. -/
structure PgAppend where
  rows : List Event
  todo : List Event
  caller : PgCaller
  tx : PgTx

/-- The store and its database. `sequence` is the last number the `BIGSERIAL` column gave out, which no
rollback takes back; `table` the committed rows, in commit order; `lastSeq` the cached counter. -/
structure PgStore where
  sequence : Nat
  table : List Event
  lastSeq : Nat
  appends : Nat → Option PgAppend

inductive PgStep
  | begin (i : Nat) (clock : DateTime) (events : List Event)
  | insert (i : Nat)
  | commit (i : Nat)
  | serverCommit (i : Nat)
  | reply (i : Nat)
  | writeLastSeq (i : Nat)
  | timeout (i : Nat)

/-- `SELECT COALESCE(MAX(seq), 0) FROM events`. -/
def maxSeq (rows : List Event) : Nat := rows.foldr (fun e m => max e.seq m) 0

namespace PgStore

def fromPool (rows : List Event) (sequence : Nat) : PgStore := ⟨sequence, rows, maxSeq rows, fun _ => none⟩

def put (s : PgStore) (i : Nat) (a : PgAppend) : PgStore :=
  { s with appends := Function.update s.appends i (some a) }

def stamp (clock : DateTime) (e : Event) : Event :=
  { e with timestamp := if e.timestamp = 0 then clock else e.timestamp }

/-- One await or one local step of one caller, or the commit on the server. A timeout drops the future: an open
transaction rolls back, a `COMMIT` already sent is not taken back. -/
def step (s : PgStore) : PgStep → Option PgStore
  | .begin i clock events =>
    match s.appends i, events with
    | some _, _ => none
    | none, [] => some s
    | none, e :: es => some (s.put i ⟨[], (e :: es).map (stamp clock), .inserting, .active⟩)
  | .insert i => do
    let a ← s.appends i
    match a.caller, a.todo with
    | .inserting, e :: todo =>
      let row := { e with seq := s.sequence + 1 }
      some ({ s with sequence := s.sequence + 1 }.put i { a with rows := a.rows ++ [row], todo := todo })
    | _, _ => none
  | .commit i => do
    let a ← s.appends i
    match a.caller, a.todo with
    | .inserting, [] => some (s.put i { a with caller := .committing, tx := .asked })
    | _, _ => none
  | .serverCommit i => do
    let a ← s.appends i
    match a.tx with
    | .asked => some ({ s with table := s.table ++ a.rows }.put i { a with tx := .committed })
    | _ => none
  | .reply i => do
    let a ← s.appends i
    match a.caller, a.tx with
    | .committing, .committed => some (s.put i { a with caller := .acked })
    | _, _ => none
  | .writeLastSeq i => do
    let a ← s.appends i
    match a.caller, a.rows.getLast? with
    | .acked, some last => some ({ s with lastSeq := last.seq }.put i { a with caller := .returnedOk })
    | _, _ => none
  | .timeout i => do
    let a ← s.appends i
    match a.caller with
    | .inserting => some (s.put i { a with caller := .returnedErr, tx := .rolledBack })
    | .committing => some (s.put i { a with caller := .returnedErr })
    | _ => none

/-- No append is in flight. -/
def Idle (s : PgStore) : Prop := ∀ i a, s.appends i = some a → a.caller.returned = true

/-- An append that returned `Err` committed none of its events. -/
def ErrUncommitted (s : PgStore) : Prop :=
  ∀ i a, s.appends i = some a → a.caller = .returnedErr → ∀ e ∈ a.rows, e ∉ s.table

/-- Appends return in the order of their numbers, and none times out once it has sent its `COMMIT`. -/
def Orderly (s : PgStore) : PgStep → Prop
  | .writeLastSeq i => ∀ a ∈ s.appends i, ∀ last ∈ a.rows.getLast?, s.lastSeq ≤ last.seq
  | .timeout i => ∀ a ∈ s.appends i, a.caller ≠ .committing
  | _ => True

instance (s : PgStore) (p : PgStep) : Decidable (s.Orderly p) := by
  unfold Orderly
  split <;> infer_instance

/-- What a step does: `begin` starts a call, every other step moves the call it names. -/
inductive Effect (s : PgStore) : PgStep → PgStore → Prop
  | nothing (i clock) : Effect s (.begin i clock []) s
  | begin (i clock e es) (free : s.appends i = none) :
      Effect s (.begin i clock (e :: es)) (s.put i ⟨[], (e :: es).map (stamp clock), .inserting, .active⟩)
  | insert (i a e todo) (here : s.appends i = some a) (caller : a.caller = .inserting) (next : a.todo = e :: todo) :
      Effect s (.insert i) ({ s with sequence := s.sequence + 1 }.put i
        { a with rows := a.rows ++ [{ e with seq := s.sequence + 1 }], todo := todo })
  | commit (i a) (here : s.appends i = some a) (caller : a.caller = .inserting) (done : a.todo = []) :
      Effect s (.commit i) (s.put i { a with caller := .committing, tx := .asked })
  | serverCommit (i a) (here : s.appends i = some a) (tx : a.tx = .asked) :
      Effect s (.serverCommit i) ({ s with table := s.table ++ a.rows }.put i { a with tx := .committed })
  | reply (i a) (here : s.appends i = some a) (caller : a.caller = .committing) (tx : a.tx = .committed) :
      Effect s (.reply i) (s.put i { a with caller := .acked })
  | writeLastSeq (i a last) (here : s.appends i = some a) (caller : a.caller = .acked)
      (rows : a.rows.getLast? = some last) :
      Effect s (.writeLastSeq i) ({ s with lastSeq := last.seq }.put i { a with caller := .returnedOk })
  | rollback (i a) (here : s.appends i = some a) (caller : a.caller = .inserting) :
      Effect s (.timeout i) (s.put i { a with caller := .returnedErr, tx := .rolledBack })
  | giveUp (i a) (here : s.appends i = some a) (caller : a.caller = .committing) :
      Effect s (.timeout i) (s.put i { a with caller := .returnedErr })

theorem step_effect {s t : PgStore} {p : PgStep} (h : s.step p = some t) : Effect s p t := by
  cases p with
  | begin i clock events =>
    simp only [step] at h
    split at h
    next => simp at h
    next => cases Option.some.inj h; exact .nothing i clock
    next e es hfree => cases Option.some.inj h; exact .begin i clock e es hfree
  | insert i =>
    obtain ⟨a, ha, h⟩ := Option.bind_eq_some_iff.mp h
    split at h
    next e todo hcaller htodo => cases Option.some.inj h; exact .insert i a e todo ha hcaller htodo
    next => simp at h
  | commit i =>
    obtain ⟨a, ha, h⟩ := Option.bind_eq_some_iff.mp h
    split at h
    next hcaller htodo => cases Option.some.inj h; exact .commit i a ha hcaller htodo
    next => simp at h
  | serverCommit i =>
    obtain ⟨a, ha, h⟩ := Option.bind_eq_some_iff.mp h
    split at h
    next htx => cases Option.some.inj h; exact .serverCommit i a ha htx
    next => simp at h
  | reply i =>
    obtain ⟨a, ha, h⟩ := Option.bind_eq_some_iff.mp h
    split at h
    next hcaller htx => cases Option.some.inj h; exact .reply i a ha hcaller htx
    next => simp at h
  | writeLastSeq i =>
    obtain ⟨a, ha, h⟩ := Option.bind_eq_some_iff.mp h
    split at h
    next last hcaller hlast => cases Option.some.inj h; exact .writeLastSeq i a last ha hcaller hlast
    next => simp at h
  | timeout i =>
    obtain ⟨a, ha, h⟩ := Option.bind_eq_some_iff.mp h
    split at h
    next hcaller => cases Option.some.inj h; exact .rollback i a ha hcaller
    next hcaller => cases Option.some.inj h; exact .giveUp i a ha hcaller
    next => simp at h

/-- The calls after one call was put. -/
theorem put_cases {s : PgStore} {i j : Nat} {a b : PgAppend} (h : (s.put i a).appends j = some b) :
    (j = i ∧ b = a) ∨ (j ≠ i ∧ s.appends j = some b) := by
  by_cases hji : j = i
  · subst hji
    simp only [put, Function.update_self, Option.some.injEq] at h
    exact .inl ⟨rfl, h.symm⟩
  · simp only [put, Function.update_of_ne hji] at h
    exact .inr ⟨hji, h⟩

theorem put_forall {s : PgStore} {i : Nat} {a : PgAppend} {P : PgAppend → Prop}
    (h : ∀ j b, s.appends j = some b → P b) (ha : P a) (j : Nat) (b : PgAppend)
    (hb : (s.put i a).appends j = some b) : P b := by
  rcases put_cases hb with ⟨_, rfl⟩ | ⟨_, hold⟩
  · exact ha
  · exact h j b hold

/-- Two lists of rows have no number in common. -/
def Apart (rows rows' : List Event) : Prop := ∀ e ∈ rows, ∀ e' ∈ rows', e.seq ≠ e'.seq

theorem Apart.symm {rows rows' : List Event} (h : Apart rows rows') : Apart rows' rows :=
  fun e he e' he' heq => h e' he' e he heq.symm

/-- A caller that has returned knows what the server did with its transaction. -/
def Agrees (a : PgAppend) : Prop :=
  match a.caller with
  | .inserting => a.tx = .active
  | .committing => a.tx = .asked ∨ a.tx = .committed
  | .acked | .returnedOk => a.tx = .committed
  | .returnedErr => a.tx = .rolledBack

/-- A call in a store that has given out the numbers up to `sequence` and committed the rows of `table`. -/
structure CallSound (sequence : Nat) (table : List Event) (a : PgAppend) : Prop where
  bound : ∀ e ∈ a.rows, e.seq ≤ sequence
  sorted : a.rows.Pairwise (fun e e' => e.seq < e'.seq)
  uncommitted : a.tx ≠ .committed → Apart a.rows table
  committed : a.tx = .committed → ∀ e ∈ a.rows, e ∈ table
  agrees : Agrees a

/-- What an orderly run keeps: every committed number is cached or about to be. -/
structure Sound (s : PgStore) : Prop where
  bound : ∀ e ∈ s.table, e.seq ≤ s.sequence
  calls : ∀ i a, s.appends i = some a → CallSound s.sequence s.table a
  apart : ∀ i j a b, i ≠ j → s.appends i = some a → s.appends j = some b → Apart a.rows b.rows
  covered : ∀ e ∈ s.table, e.seq ≤ s.lastSeq ∨
    ∃ i a, s.appends i = some a ∧ a.tx = .committed ∧ a.caller.returned = false ∧ e ∈ a.rows
  cached : s.lastSeq ≤ maxSeq s.table

theorem seq_le_maxSeq {rows : List Event} {e : Event} (h : e ∈ rows) : e.seq ≤ maxSeq rows := by
  induction rows with
  | nil => simp at h
  | cons e' rows ih =>
    have hmax : maxSeq (e' :: rows) = max e'.seq (maxSeq rows) := rfl
    rcases List.mem_cons.mp h with rfl | hmem
    · omega
    · have hle := ih hmem
      omega

theorem maxSeq_le {rows : List Event} {n : Nat} (h : ∀ e ∈ rows, e.seq ≤ n) : maxSeq rows ≤ n := by
  induction rows with
  | nil => exact Nat.zero_le n
  | cons e rows ih =>
    have hmax : maxSeq (e :: rows) = max e.seq (maxSeq rows) := rfl
    have hhead := h e List.mem_cons_self
    have htail := ih (fun e' he' => h e' (List.mem_cons_of_mem e he'))
    omega

theorem seq_le_getLast {rows : List Event} {e last : Event} (h : rows.Pairwise (fun e e' => e.seq < e'.seq))
    (hlast : rows.getLast? = some last) (he : e ∈ rows) : e.seq ≤ last.seq := by
  obtain ⟨front, rfl⟩ := List.getLast?_eq_some_iff.mp hlast
  rcases List.mem_append.mp he with hfront | hmem
  · have hlt := (List.pairwise_append.mp h).2.2 e hfront last (by simp)
    omega
  · rw [List.mem_singleton.mp hmem]

theorem fromPool_sound {rows : List Event} {sequence : Nat} (h : ∀ e ∈ rows, e.seq ≤ sequence) :
    Sound (fromPool rows sequence) where
  bound := h
  calls := fun _ _ ha => by simp [fromPool] at ha
  apart := fun _ _ _ _ _ ha => by simp [fromPool] at ha
  covered := fun _ he => .inl (seq_le_maxSeq he)
  cached := le_rfl

section Put

variable {s : PgStore} {i : Nat} {a a' : PgAppend}

theorem apart_put (h : ∀ i j a b, i ≠ j → s.appends i = some a → s.appends j = some b → Apart a.rows b.rows)
    (hnew : ∀ j b, j ≠ i → s.appends j = some b → Apart a'.rows b.rows) (j k : Nat) (b c : PgAppend) (hjk : j ≠ k)
    (hb : (s.put i a').appends j = some b) (hc : (s.put i a').appends k = some c) : Apart b.rows c.rows := by
  rcases put_cases hb with ⟨rfl, rfl⟩ | ⟨hji, hb'⟩
  · rcases put_cases hc with ⟨rfl, rfl⟩ | ⟨hki, hc'⟩
    · exact absurd rfl hjk
    · exact hnew k c hki hc'
  · rcases put_cases hc with ⟨rfl, rfl⟩ | ⟨hki, hc'⟩
    · exact (hnew j b hji hb').symm
    · exact h j k b c hjk hb' hc'

theorem covered_put {e : Event} (here : s.appends i = some a)
    (hkeep : e ∈ a.rows → a.tx = .committed → a.caller.returned = false →
      e.seq ≤ s.lastSeq ∨ (a'.tx = .committed ∧ a'.caller.returned = false ∧ e ∈ a'.rows))
    (h : e.seq ≤ s.lastSeq ∨ ∃ i a, s.appends i = some a ∧ a.tx = .committed ∧ a.caller.returned = false ∧ e ∈ a.rows) :
    e.seq ≤ s.lastSeq ∨ ∃ j b, (s.put i a').appends j = some b ∧ b.tx = .committed ∧ b.caller.returned = false ∧
      e ∈ b.rows := by
  rcases h with hle | ⟨j, b, hb, htx, hcaller, hmem⟩
  · exact .inl hle
  · by_cases hji : j = i
    · subst hji
      cases Option.some.inj (hb.symm.trans here)
      rcases hkeep hmem htx hcaller with hle | hnew
      · exact .inl hle
      · exact .inr ⟨j, a', by simp [put], hnew⟩
    · exact .inr ⟨j, b, by simp [put, Function.update_of_ne hji, hb], htx, hcaller, hmem⟩

/-- A call that keeps its rows moves on. -/
theorem Sound.put (h : Sound s) (here : s.appends i = some a) (hrows : a'.rows = a.rows)
    (hcall : CallSound s.sequence s.table a')
    (hkeep : a.tx = .committed → a.caller.returned = false → a'.tx = .committed ∧ a'.caller.returned = false) :
    Sound (s.put i a') where
  bound := h.bound
  calls := put_forall h.calls hcall
  apart := apart_put h.apart (fun j b hji hb => hrows ▸ h.apart i j a b (Ne.symm hji) here hb)
  covered := fun e he => by
    refine covered_put here (fun hmem htx hcaller => ?_) (h.covered e he)
    obtain ⟨htx', hcaller'⟩ := hkeep htx hcaller
    exact .inr ⟨htx', hcaller', hrows ▸ hmem⟩
  cached := h.cached

end Put

section Steps

variable {s : PgStore} {i : Nat} {a : PgAppend}

theorem CallSound.active {n : Nat} {table : List Event} (h : CallSound n table a) (hcaller : a.caller = .inserting) :
    a.tx = .active := by
  have hagrees := h.agrees
  simpa [Agrees, hcaller] using hagrees

theorem CallSound.mono {n : Nat} {table : List Event} (h : CallSound n table a) : CallSound (n + 1) table a :=
  { h with bound := fun e he => (h.bound e he).trans (Nat.le_succ n) }

theorem Sound.begin (h : Sound s) (free : s.appends i = none) (todo : List Event) :
    Sound (s.put i ⟨[], todo, .inserting, .active⟩) where
  bound := h.bound
  calls := put_forall h.calls
    { bound := fun _ he => by simp at he
      sorted := List.Pairwise.nil
      uncommitted := fun _ _ he => by simp at he
      committed := fun htx => by simp at htx
      agrees := rfl }
  apart := apart_put h.apart (fun _ _ _ _ _ he => by simp at he)
  covered := fun e he => by
    rcases h.covered e he with hle | ⟨j, b, hb, hrest⟩
    · exact .inl hle
    · have hji : j ≠ i := fun hji => by simp [hji, free] at hb
      exact .inr ⟨j, b, by simp [PgStore.put, Function.update_of_ne hji, hb], hrest⟩
  cached := h.cached

/-- The new number is greater than every number given out before. -/
theorem Sound.insert (h : Sound s) {e : Event} {todo : List Event} (here : s.appends i = some a)
    (hcaller : a.caller = .inserting) :
    Sound ({ s with sequence := s.sequence + 1 }.put i
      { a with rows := a.rows ++ [{ e with seq := s.sequence + 1 }], todo := todo }) := by
  have hcall := h.calls i a here
  have htx := hcall.active hcaller
  have hnew : ∀ rows : List Event, (∀ e ∈ rows, e.seq ≤ s.sequence) → Apart a.rows rows →
      Apart (a.rows ++ [{ e with seq := s.sequence + 1 }]) rows := by
    intro rows hbound hold e1 he1 e2 he2 heq
    have hle := hbound e2 he2
    rcases List.mem_append.mp he1 with hmem | hmem
    · exact hold e1 hmem e2 he2 heq
    · rw [List.mem_singleton.mp hmem] at heq
      dsimp only at heq
      omega
  constructor
  case bound => exact fun e he => (h.bound e he).trans (Nat.le_succ _)
  case calls =>
    refine put_forall (fun j b hb => (h.calls j b hb).mono) ?_
    constructor
    case bound =>
      intro e1 he1
      rcases List.mem_append.mp he1 with hmem | hmem
      · exact (hcall.bound e1 hmem).trans (Nat.le_succ _)
      · rw [List.mem_singleton.mp hmem]
        exact le_rfl
    case sorted =>
      refine List.pairwise_append.mpr ⟨hcall.sorted, List.pairwise_singleton _ _, fun e1 he1 e2 he2 => ?_⟩
      have hle := hcall.bound e1 he1
      rw [List.mem_singleton.mp he2]
      exact Nat.lt_succ_of_le hle
    case uncommitted => exact fun _ => hnew s.table h.bound (hcall.uncommitted (by simp [htx]))
    case committed => exact fun hcommitted => by simp [htx] at hcommitted
    case agrees => exact hcall.agrees
  case apart =>
    exact apart_put h.apart (fun j b hji hb => hnew b.rows (h.calls j b hb).bound (h.apart i j a b (Ne.symm hji) here hb))
  case covered => exact fun e he => covered_put here (fun _ hcommitted => by simp [htx] at hcommitted) (h.covered e he)
  case cached => exact h.cached

/-- The committed rows wait for the caller to cache their number. -/
theorem Sound.serverCommit (h : Sound s) (here : s.appends i = some a) (htx : a.tx = .asked) :
    Sound ({ s with table := s.table ++ a.rows }.put i { a with tx := .committed }) := by
  have hcall := h.calls i a here
  have hcaller : a.caller = .committing := by
    have hagrees := hcall.agrees
    unfold Agrees at hagrees
    split at hagrees <;> simp_all
  have hothers : ∀ j b, j ≠ i → s.appends j = some b → CallSound s.sequence (s.table ++ a.rows) b := by
    intro j b hji hb
    have hsound := h.calls j b hb
    refine { hsound with uncommitted := fun hb' e he e' he' => ?_, committed := fun hb' e he => ?_ }
    · rcases List.mem_append.mp he' with hmem | hmem
      · exact hsound.uncommitted hb' e he e' hmem
      · exact h.apart j i b a hji hb here e he e' hmem
    · exact List.mem_append_left _ (hsound.committed hb' e he)
  constructor
  case bound =>
    intro e he
    rcases List.mem_append.mp he with hmem | hmem
    · exact h.bound e hmem
    · exact hcall.bound e hmem
  case calls =>
    intro j b hb
    rcases put_cases hb with ⟨_, rfl⟩ | ⟨hji, hb'⟩
    · exact { bound := hcall.bound, sorted := hcall.sorted, uncommitted := fun hne => absurd rfl hne
              committed := fun _ e he => List.mem_append_right _ he, agrees := by simp [Agrees, hcaller] }
    · exact hothers j b hji hb'
  case apart => exact apart_put h.apart (fun j b hji hb => h.apart i j a b (Ne.symm hji) here hb)
  case covered =>
    intro e he
    rcases List.mem_append.mp he with hmem | hmem
    · exact covered_put here (fun _ hcommitted => by simp [htx] at hcommitted) (h.covered e hmem)
    · exact .inr ⟨i, { a with tx := .committed }, Function.update_self .., rfl, by simp [hcaller, PgCaller.returned], hmem⟩
  case cached =>
    refine h.cached.trans (maxSeq_le (fun e he => ?_))
    exact seq_le_maxSeq (List.mem_append_left _ he)

theorem Sound.writeLastSeq (h : Sound s) {last : Event} (here : s.appends i = some a) (hcaller : a.caller = .acked)
    (hlast : a.rows.getLast? = some last) (hle : s.lastSeq ≤ last.seq) :
    Sound ({ s with lastSeq := last.seq }.put i { a with caller := .returnedOk }) := by
  have hcall := h.calls i a here
  have htx : a.tx = .committed := by
    have hagrees := hcall.agrees
    simpa [Agrees, hcaller] using hagrees
  constructor
  case bound => exact h.bound
  case calls => exact put_forall h.calls { hcall with agrees := htx }
  case apart => exact apart_put h.apart (fun j b hji hb => h.apart i j a b (Ne.symm hji) here hb)
  case covered =>
    intro e he
    refine covered_put (s := { s with lastSeq := last.seq }) here
      (fun hmem _ _ => .inl (seq_le_getLast hcall.sorted hlast hmem)) ?_
    exact (h.covered e he).imp (fun hold => hold.trans hle) id
  case cached => exact seq_le_maxSeq (hcall.committed htx last (List.mem_of_getLast? hlast))

end Steps

/-- An orderly step keeps the invariant and does not turn the cached counter back. -/
theorem Sound.step {s t : PgStore} {p : PgStep} (h : Sound s) (hp : Orderly s p) (hst : s.step p = some t) :
    Sound t ∧ s.lastSeq ≤ t.lastSeq := by
  cases step_effect hst with
  | nothing i clock => exact ⟨h, le_rfl⟩
  | begin i clock e es free => exact ⟨h.begin free _, le_rfl⟩
  | insert i a e todo here caller next => exact ⟨h.insert here caller, le_rfl⟩
  | commit i a here caller done =>
    have hcall := h.calls i a here
    have htx := hcall.active caller
    refine ⟨h.put here rfl ?_ (fun hcommitted => by simp [htx] at hcommitted), le_rfl⟩
    exact { bound := hcall.bound, sorted := hcall.sorted, uncommitted := fun _ => hcall.uncommitted (by simp [htx])
            committed := fun hcommitted => by simp at hcommitted, agrees := .inl rfl }
  | serverCommit i a here tx => exact ⟨h.serverCommit here tx, le_rfl⟩
  | reply i a here caller tx =>
    exact ⟨h.put here rfl { h.calls i a here with agrees := tx } (fun _ _ => ⟨tx, rfl⟩), le_rfl⟩
  | writeLastSeq i a last here caller rows =>
    have hle := hp a here last rows
    exact ⟨h.writeLastSeq here caller rows hle, hle⟩
  | rollback i a here caller =>
    have hcall := h.calls i a here
    have htx := hcall.active caller
    refine ⟨h.put here rfl ?_ (fun hcommitted => by simp [htx] at hcommitted), le_rfl⟩
    exact { bound := hcall.bound, sorted := hcall.sorted, uncommitted := fun _ => hcall.uncommitted (by simp [htx])
            committed := fun hcommitted => by simp at hcommitted, agrees := rfl }
  | giveUp i a here caller => exact absurd caller (hp a here)

theorem Sound.lastSeq_eq {s : PgStore} (h : Sound s) (hidle : s.Idle) : s.lastSeq = maxSeq s.table := by
  refine le_antisymm h.cached (maxSeq_le (fun e he => ?_))
  rcases h.covered e he with hle | ⟨i, a, ha, _, hcaller, _⟩
  · exact hle
  · have hreturned := hidle i a ha
    simp [hcaller] at hreturned

theorem Sound.errUncommitted {s : PgStore} (h : Sound s) : s.ErrUncommitted := by
  intro i a ha hcaller e he hmem
  have hcall := h.calls i a ha
  have htx : a.tx = .rolledBack := by
    have hagrees := hcall.agrees
    simpa [Agrees, hcaller] using hagrees
  exact hcall.uncommitted (by simp [htx]) e he e hmem rfl

end PgStore

/-- In an orderly run of concurrent appends `last_seq` never goes back, is the greatest committed number whenever no
append is in flight, and an append that returned `Err` has committed nothing. -/
theorem pg_append_orderly (rows : List Event) (sequence : Nat) (hrows : ∀ e ∈ rows, e.seq ≤ sequence)
    (steps more : List PgStep) (s t : PgStore)
    (horderly : Transition.Meets PgStore.step PgStore.Orderly (.fromPool rows sequence) (steps ++ more))
    (hsteps : Transition.run PgStore.step (.fromPool rows sequence) steps = some s)
    (hmore : Transition.run PgStore.step s more = some t) :
    s.lastSeq ≤ t.lastSeq ∧ (t.Idle → t.lastSeq = maxSeq t.table) ∧ t.ErrUncommitted := by
  obtain ⟨hfirst, hrest⟩ := Transition.meets_append.mp horderly
  have hs : s.Sound := Transition.run_invariant (fun s p t h hp hst => (h.step hp hst).1)
    (PgStore.fromPool_sound hrows) hfirst hsteps
  have ht : t.Sound ∧ s.lastSeq ≤ t.lastSeq := by
    refine Transition.run_invariant (I := fun u => u.Sound ∧ s.lastSeq ≤ u.lastSeq) (fun u p v h hp huv => ?_)
      ⟨hs, le_rfl⟩ (hrest s hsteps) hmore
    obtain ⟨hv, hle⟩ := h.1.step hp huv
    exact ⟨hv, h.2.trans hle⟩
  exact ⟨ht.2, ht.1.lastSeq_eq, ht.1.errUncommitted⟩

namespace Scenario

def pgEvent (n : Nat) : Event := ⟨n, 5, .pairSuspended "ETH-USDC"⟩

/-- The first append inserts its row before the second one and returns after it. -/
def overtaken : List PgStep :=
  [.begin 1 5 [pgEvent 0], .begin 2 5 [pgEvent 0], .insert 1, .insert 2, .commit 1, .commit 2, .serverCommit 1,
    .serverCommit 2, .reply 1, .reply 2, .writeLastSeq 2]

/-- The append times out while its `COMMIT` is on the way. -/
def lateCommit : List PgStep := [.begin 1 5 [pgEvent 0], .insert 1, .commit 1, .timeout 1, .serverCommit 1]

def inOrder : List PgStep :=
  [.begin 1 5 [pgEvent 0], .begin 2 5 [pgEvent 0], .insert 1, .insert 2, .commit 2, .serverCommit 2, .commit 1,
    .serverCommit 1, .reply 1, .writeLastSeq 1]

end Scenario

/-- The second of two concurrent appends returns first and the first one turns `last_seq` back; the row of an append
that timed out in its `COMMIT` is committed. -/
theorem pg_append_disorder :
    (∃ s t, Transition.run PgStore.step (.fromPool [] 0) Scenario.overtaken = some s ∧
      s.step (.writeLastSeq 1) = some t ∧ s.lastSeq = 2 ∧ t.lastSeq = 1 ∧ t.Idle ∧ maxSeq t.table = 2) ∧
    ∃ t, Transition.run PgStore.step (.fromPool [] 0) Scenario.lateCommit = some t ∧ ¬t.ErrUncommitted := by
  constructor
  · refine ⟨_, _, rfl, rfl, rfl, rfl, fun i a ha => ?_, rfl⟩
    by_cases h1 : i = 1
    · subst h1
      cases Option.some.inj ha
      rfl
    · by_cases h2 : i = 2
      · subst h2
        cases Option.some.inj ha
        rfl
      · simp [PgStore.put, PgStore.fromPool, Function.update_of_ne h1, Function.update_of_ne h2] at ha
  · refine ⟨_, rfl, fun h => ?_⟩
    exact h 1 _ rfl rfl (Scenario.pgEvent 1) (by decide) (by decide)

theorem pg_append_orderly_concurrent : ∃ s t,
    Transition.run PgStore.step (.fromPool [] 0) Scenario.inOrder = some s ∧
    Transition.run PgStore.step s [.reply 2, .writeLastSeq 2] = some t ∧
    s.lastSeq ≤ t.lastSeq ∧ (t.Idle → t.lastSeq = maxSeq t.table) ∧ t.ErrUncommitted :=
  ⟨_, _, rfl, rfl, pg_append_orderly [] 0 (by simp) Scenario.inOrder [.reply 2, .writeLastSeq 2] _ _ (by decide) rfl rfl⟩

end DarkPool
