import DarkPool.Retention
import DarkPool.SnapshotCodec
import Mathlib.Data.Rat.Denumerable

namespace DarkPool

/-- The envelope of a captured state, written and decoded again. -/
def Restorable (b : BincodeLeaves) (message : BincodeError → String) (cipher : SnapshotCipher)
    (e : Nat × SerializableState) : Prop :=
  e.1 < 2 ^ 64 ∧ ∃ nonce bytes r, encodeEnvelope (b.codec message) cipher nonce e.2 e.1 = .ok bytes ∧
    decodeEnvelope (b.codec message) cipher bytes = .ok r

section Codec

variable {b : BincodeLeaves} {message : BincodeError → String} {cipher : SnapshotCipher}

namespace Scenario

def unaryGet : Bytes → Except BincodeError (Nat × Bytes)
  | [] => .error .unexpectedEof
  | x :: bytes =>
    if x = 0 then .ok (0, bytes)
    else do
      let (n, bytes) ← unaryGet bytes
      return (n + 1, bytes)

def unary : Bincode Nat := ⟨fun n => List.replicate n 1 ++ [0], unaryGet⟩

theorem exact_unary : unary.Exact := by
  intro n rest
  induction n with
  | zero => rfl
  | succ n ih =>
    have hone : (1 : UInt8) ≠ 0 := by decide
    have ih : unaryGet (List.replicate n 1 ++ [0] ++ rest) = .ok (n, rest) := ih
    simp only [unary, List.replicate_succ, List.cons_append, unaryGet, if_neg hone, ih, bind, Except.bind]
    rfl

/-- Any countable type, by a number for each value. -/
noncomputable def counted (α : Type) [Countable α] [Nonempty α] : Bincode α :=
  unary.imap (Function.invFun (exists_injective_nat α).choose) (exists_injective_nat α).choose

theorem exact_counted (α : Type) [Countable α] [Nonempty α] : (counted α).Exact :=
  exact_unary.imap (Function.leftInverse_invFun (exists_injective_nat α).choose_spec)

theorem countable_uint8 : Countable UInt8 := Function.Injective.countable fun _ _ => UInt8.toNat_inj.mp

theorem countable_bitVec (n : Nat) : Countable (BitVec n) :=
  Function.Injective.countable fun _ _ => BitVec.eq_of_toNat_eq

theorem countable_char : Countable Char := Function.Injective.countable fun _ _ => Char.toNat_inj.mp

theorem countable_string : Countable String :=
  have := countable_char
  Function.Injective.countable fun _ _ => String.toList_inj.mp

noncomputable def leaves : BincodeLeaves :=
  have := countable_uint8
  have := countable_string
  have := countable_bitVec
  { u8 := counted UInt8, u32 := unary, u64 := unary, string := counted String, uuid := counted Uuid,
    address := counted Address, dateTime := counted Int, duration := unary, u256 := counted (BitVec 256),
    bytes32 := counted Bytes32, decimal := counted ℚ, text := fun _ => [], exact_u8 := exact_counted _,
    exact_u32 := exact_unary, exact_u64 := exact_unary, exact_string := exact_counted _, exact_uuid := exact_counted _,
    exact_address := exact_counted _, exact_dateTime := exact_counted _, exact_duration := exact_unary,
    exact_u256 := exact_counted _, exact_bytes32 := exact_counted _, exact_decimal := exact_counted _ }

end Scenario

theorem Restorable.pairTokens (htidy : cipher.Tidy) {e : Nat × SerializableState} (h : Restorable b message cipher e) :
    e.2.pairTokens = ∅ := by
  obtain ⟨hseq, nonce, bytes, ⟨seq', s'⟩, hencode, hdecode⟩ := h
  obtain ⟨blob, hblob, hround⟩ := decode_encoded htidy hseq hencode
  cases Except.ok.inj hblob
  obtain ⟨-, hread⟩ := (hround seq' s').mp hdecode
  by_contra hne
  obtain ⟨err, herr⟩ := BincodeLeaves.refuses_of_pair (b := b) hne []
  rw [List.append_nil] at herr
  simp [BincodeLeaves.codec, herr] at hread

end Codec

/-- The event that brings a pair into the registry. -/
def EventData.RegistersPair (data : EventData) : Prop :=
  ∃ pair baseToken quoteToken minOrderSize tickSize auctionIntervalMs baseDecimals quoteDecimals,
    data = .pairRegistered pair baseToken quoteToken minOrderSize tickSize auctionIntervalMs baseDecimals quoteDecimals

section Registry

variable {env : Env} {p : Projection} {ev : Event}

theorem Projection.registered_apply {key : String} (h : (p.pairTokens.lookup key).isSome) :
    ((p.apply env ev).pairTokens.lookup key).isSome := by
  have hmodify : ∀ pair status, ((p.setStatus pair status).pairTokens.lookup key).isSome := by
    intro pair status
    rw [setStatus, Table.lookup_modify_eq]
    split
    next => rwa [Option.isSome_map]
    next => exact h
  have hinsert : ∀ (t : Table String PairConfig) pair config, (t.lookup key).isSome →
      ((t.insert pair config).lookup key).isSome := by
    intro t pair config ht
    rw [Table.lookup_insert_eq]
    split
    next => rfl
    next => exact ht
  unfold Projection.apply
  cases ev.data with
  | orderPlaced orderId commitment proof ciphertext =>
    dsimp only
    cases replayOrder env ev orderId commitment ciphertext with
    | error e => exact h
    | ok o =>
      simp only [place, orDefault]
      split
      next => exact h
      next => exact hinsert _ _ _ h
  | pairRegistered => exact hinsert _ _ _ h
  | pairSuspended pair => exact hmodify pair .suspended
  | pairDelisted pair => exact hmodify pair .delisted
  | _ => exact h

theorem Projection.registered_applyAll {key : String} (h : (p.pairTokens.lookup key).isSome) (events : List Event) :
    ((p.applyAll env events).pairTokens.lookup key).isSome := by
  induction events generalizing p with
  | nil => exact h
  | cons ev events ih => exact ih (registered_apply h)

/-- Once registered, a pair stays in the registry. -/
theorem registered_projectLog {events : List Event} (h : ∃ ev ∈ events, ev.data.RegistersPair) :
    ∃ key, ((projectLog env events).pairTokens.lookup key).isSome := by
  obtain ⟨ev, hev, pair, baseToken, quoteToken, minOrderSize, tickSize, interval, baseDecimals, quoteDecimals,
    hdata⟩ := h
  obtain ⟨before, after, rfl⟩ := List.append_of_mem hev
  refine ⟨canonicaliseReplayedPair pair, ?_⟩
  rw [projectLog, Projection.applyAll_append]
  refine Projection.registered_applyAll ?_ after
  unfold Projection.apply
  rw [hdata]
  simp only [AList.lookup_insert, Option.isSome_some]

end Registry

namespace System

variable {env : Env} {σ : System env}

theorem registryRel_any : RegistryRel (fun _ _ => True) := ⟨fun _ => trivial, fun _ _ => trivial⟩

theorem follows_run {moves : List Move} (hrun : Transition.run System.step (initial env) moves = some σ) :
    Follows (fun _ _ => True) σ :=
  Transition.run_invariant (fun _ _ _ hs _ hstep => hs.step registryRel_any (fun _ _ => trivial) hstep)
    (follows_initial registryRel_any env) (Transition.meets_of_mem fun _ _ => trivial) hrun

/-- An envelope from after a registration holds a pair. -/
theorem Follows.pairTokens_ne (h : Follows (fun _ _ => True) σ) {e : Nat × SerializableState} (he : e ∈ σ.snapshots)
    (hdropped : ∃ ev ∈ σ.dropped, ev.data.RegistersPair) (hreach : σ.dropped.length ≤ e.1) : e.2.pairTokens ≠ ∅ := by
  have htake : σ.log.take e.1 = σ.dropped ++ σ.world.store.events.take (e.1 - σ.dropped.length) := by
    rw [log, World.log, List.take_append, List.take_of_length_le hreach]
  have hregistered : ∃ ev ∈ σ.log.take e.1, ev.data.RegistersPair := by
    obtain ⟨ev, hev, hdata⟩ := hdropped
    exact ⟨ev, htake ▸ List.mem_append_left _ hev, hdata⟩
  obtain ⟨key, hkey⟩ := @registered_projectLog env _ hregistered
  have hsame := (h.taken e (List.mem_append_right _ he)).registry.isSome key
  intro hempty
  have hgone : e.2.projection.pairTokens = ∅ := hempty
  rw [hgone, hkey] at hsame
  cases hsame

end System

/-- Recovery has nowhere to start: no envelope decodes that the log continues, and the log has lost its beginning. -/
theorem recoverStart_nowhere {store : Store} {r : Replay} {snapshots : Snapshots} {decodes : Nat → Bool}
    (hne : snapshots ≠ []) (hcovers : eventLogCoversSeqOne store = false)
    (hgap : ∀ e ∈ snapshots, decodes e.1 = true → eventLogContinuousAfter store e.1 = false) :
    recoverStart store r (some snapshots) decodes = .error .snapshotsCorruptAndLogTruncated := by
  obtain ⟨s, ss, rfl⟩ := List.exists_cons_of_ne_nil hne
  unfold recoverStart
  simp only
  split
  next seq snap hfind =>
    have hmem : (seq, snap) ∈ s :: ss := List.mem_reverse.mp (List.mem_of_find?_eq_some hfind)
    have hdecodes := List.find?_some hfind
    rw [hgap (seq, snap) hmem hdecodes]
    rfl
  next =>
    rw [hcovers]
    rfl

/-- Once compaction has removed the registration of a pair from the log, no recovery succeeds: every envelope that the
log still continues holds a pair, and such an envelope does not decode. -/
theorem compacted_never_recovers {env : Env} {σ : System env} {moves : List Move} {b : BincodeLeaves}
    {message : BincodeError → String} {cipher : SnapshotCipher} (htidy : cipher.Tidy)
    (hrun : Transition.run System.step (System.initial env) moves = some σ)
    (hdropped : ∃ ev ∈ σ.dropped, ev.data.RegistersPair) {decodes : Nat → Bool}
    (hdecodes : ∀ e ∈ σ.snapshots, decodes e.1 = true → Restorable b message cipher e)
    {engine : EngineState} (hnew : engine.recovered = false) (ivcRound : Table String Nat)
    (choice : Uuid → OrphanChoice) :
    recover env engine ivcRound σ.world.store (some σ.snapshots) decodes choice =
      .error .snapshotsCorruptAndLogTruncated := by
  have h := System.follows_run hrun
  have hne : σ.dropped ≠ [] := by
    obtain ⟨ev, hev, -⟩ := hdropped
    exact List.ne_nil_of_mem hev
  have hcovers : eventLogCoversSeqOne σ.world.store = false := by
    rw [← Bool.not_eq_true]
    exact fun hcov => hne (eq_nil_of_coversSeqOne h.logged.holds hcov)
  have hgap : ∀ e ∈ σ.snapshots, decodes e.1 = true → eventLogContinuousAfter σ.world.store e.1 = false := by
    intro e he hd
    rw [← Bool.not_eq_true]
    intro hcont
    have hreach := le_of_continuousAfter h.logged.holds h.tail hcont
    exact h.pairTokens_ne he hdropped hreach ((hdecodes e he hd).pairTokens htidy)
  unfold recover
  rw [hnew, recoverStart_nowhere (h.covered hne) hcovers hgap]
  rfl

open Scenario in
theorem compacted_never_recovers_spreadOut :
    ∃ σ, Transition.run System.step (System.initial Scenario.env) spreadOut = some σ ∧
      (∃ ev ∈ σ.dropped, ev.data.RegistersPair) ∧
      recover Scenario.env EngineState.new ∅ σ.world.store (some σ.snapshots) (fun _ => false) choice =
        .error .snapshotsCorruptAndLogTruncated := by
  have hrun : (Transition.run System.step (System.initial Scenario.env) spreadOut).any (fun σ =>
      (σ.dropped.head?.map Event.data) = some (registeredData "ETH-USDC" (PairConfig.new 100 200))) = true := by decide
  obtain ⟨σ, hσ, hhead⟩ := (Option.any_eq_true _ _).mp hrun
  have hdropped : ∃ ev ∈ σ.dropped, ev.data.RegistersPair := by
    obtain ⟨ev, hev, hdata⟩ := Option.map_eq_some_iff.mp (of_decide_eq_true hhead)
    exact ⟨ev, List.mem_of_mem_head? hev, _, _, _, _, _, _, _, _, hdata⟩
  have hnone : ∀ e ∈ σ.snapshots, false = true → Restorable leaves (fun _ => "") bareCipher e :=
    fun _ _ h => absurd h Bool.false_ne_true
  exact ⟨σ, hσ, hdropped, compacted_never_recovers bareCipher_tidy hσ hdropped hnone rfl ∅ choice⟩

end DarkPool
