import DarkPool.Submitter

namespace DarkPool

/-- The batch is pending and no submission holds it. -/
def Waits (st : EngineState) (pb : PendingBatch) : Prop :=
  ∃ pb', st.pendingBatches.lookup pb.batchId = some pb' ∧ pb'.submitting = false ∧ pb'.batchId = pb.batchId ∧
    pb'.auctionId = pb.auctionId ∧ pb'.settlementMatches = pb.settlementMatches ∧ pb'.ivcPayload = pb.ivcPayload

/-- The batch was confirmed. -/
def Gone (st : EngineState) (pb : PendingBatch) : Prop := st.pendingBatches.lookup pb.batchId = none

def Settled (d : Deployment) (p : Pool) (pb : PendingBatch) : Prop :=
  p.settledAuction (d.domainId "auction" (uuidToBytes32 pb.auctionId)) = true

instance (d : Deployment) (p : Pool) (pb : PendingBatch) : Decidable (Settled d p pb) :=
  inferInstanceAs (Decidable (_ = _))

/-- An IVC batch with a valid proof whose rows can be settled: both transactions go through on `p`. -/
structure Settleable (d : Deployment) (sender : Address) (p : Pool) (pb : PendingBatch) (payload : ProofPayload)
    (ms : List SolMatch) (p1 p2 : Pool) : Prop where
  ivc : pb.ivcPayload = some payload
  rows : pb.settlementMatches.mapM settlementMatchToSol = .ok ms
  size : ms.length ≤ maxMatchesPerBatch
  session : submitSession d p sender (sessionOf pb.batchId payload) = .ok p1
  settle : settleAuction d p1 sender (uuidToBytes32 pb.batchId) (uuidToBytes32 pb.auctionId) ms = .ok p2

variable {d : Deployment} {sender : Address} {p p0 p1 p2 : Pool} {pb : PendingBatch} {payload : ProofPayload}
  {ms : List SolMatch} {st : EngineState}

theorem attemptBatch_gone (hg : Gone st pb) (p : Pool) (a : Attempt) :
    attemptBatch d sender pb.batchId (st, p) a = (st, p) := by
  have hskip : acquireSubmit st pb.batchId = (st, .skip) := by
    unfold acquireSubmit
    rw [show st.pendingBatches.lookup pb.batchId = none from hg]
  unfold attemptBatch
  rw [hskip]

/-- An attempt does to the chain what the submitter does; if that fails, the batch waits again. -/
theorem attemptBatch_eq (hw : Waits st pb) (hpayload : pb.ivcPayload = some payload)
    (hrows : pb.settlementMatches.mapM settlementMatchToSol = .ok ms) (hsize : ms.length ≤ maxMatchesPerBatch)
    (p : Pool) (a : Attempt) :
    (attemptBatch d sender pb.batchId (st, p) a).2 =
        (EthSubmitter.sendSession d sender p a.reach (sessionOf pb.batchId payload) (uuidToBytes32 pb.auctionId) ms).1 ∧
      ((∃ e, (EthSubmitter.sendSession d sender p a.reach (sessionOf pb.batchId payload)
          (uuidToBytes32 pb.auctionId) ms).2 = .error e) →
        Waits (attemptBatch d sender pb.batchId (st, p) a).1 pb) ∧
      (Waits (attemptBatch d sender pb.batchId (st, p) a).1 pb ∨
        Gone (attemptBatch d sender pb.batchId (st, p) a).1 pb) := by
  obtain ⟨pb', hlookup, hfree, hid, hauction, hsm, hivc⟩ := hw
  have hready : acquireSubmit st pb.batchId =
      (st.withPendingBatches (st.pendingBatches.modify pb.batchId PendingBatch.markSubmitting), .ready pb') := by
    unfold acquireSubmit
    simp only [hlookup, hfree, Bool.false_eq_true, if_false]
    rw [if_neg (by simp [PendingBatch.poisoned, hivc, hpayload])]
  have hcall : callSubmitter d sender p pb' a.reach =
      EthSubmitter.sendSession d sender p a.reach (sessionOf pb.batchId payload) (uuidToBytes32 pb.auctionId) ms := by
    unfold callSubmitter EthSubmitter.submitSession
    simp only [hivc, hpayload, hid, hauction, hsm, hrows, if_neg (not_lt.mpr hsize)]
  have hnote : Waits (noteSubmitFailure (st.withPendingBatches
      (st.pendingBatches.modify pb.batchId PendingBatch.markSubmitting)) pb.batchId a.now) pb := by
    refine ⟨(pb'.markSubmitting).noteFailure st.minBackoff st.maxBackoff a.now, ?_, rfl, hid, hauction, hsm, hivc⟩
    simp only [noteSubmitFailure, EngineState.withPendingBatches, Table.lookup_modify_eq, if_true, hlookup,
      Option.map_some]
  unfold attemptBatch
  rw [hready]
  simp only [hcall]
  generalize EthSubmitter.sendSession d sender p a.reach (sessionOf pb.batchId payload) (uuidToBytes32 pb.auctionId)
    ms = answer
  obtain ⟨q, res⟩ := answer
  cases res with
  | error e => exact ⟨rfl, fun _ => hnote, Or.inl hnote⟩
  | ok u =>
    cases a.confirmed with
    | none => exact ⟨rfl, fun _ => hnote, Or.inl hnote⟩
    | some event =>
      refine ⟨rfl, fun ⟨e, he⟩ => by simp at he, Or.inr ?_⟩
      simp [Gone, closeBatch, EngineState.withPendingBatches]

/-- Once the session is on the chain, no attempt gets past it. -/
theorem sendSession_again {s : Session} (h : p.sessionSubmitted (d.domainId "session" s.sessionId) = true)
    (reach : Reach) (auctionId : Bytes32) (ms : List SolMatch) :
    ∃ e, EthSubmitter.sendSession d sender p reach s auctionId ms = (p, .error e) := by
  unfold EthSubmitter.sendSession
  split
  next => exact ⟨_, rfl⟩
  next =>
    cases hs : submitSession d p sender s with
    | error e => exact ⟨_, rfl⟩
    | ok q =>
      rw [(submitSession_eq_ok hs).1] at h
      simp at h

namespace Settleable

variable (h : Settleable d sender p0 pb payload ms p1 p2)

include h

theorem guards : Settled d p2 pb ∧ ¬ Settled d p1 pb ∧ ¬ Settled d p0 pb ∧
    p1.sessionSubmitted (d.domainId "session" (uuidToBytes32 pb.batchId)) = true ∧
    p2.sessionSubmitted (d.domainId "session" (uuidToBytes32 pb.batchId)) = true := by
  obtain ⟨-, hmark⟩ := submitSession_eq_ok h.session
  obtain ⟨hopen, hdone, hsub⟩ := settleAuction_guards h.settle
  have h1 : p1.sessionSubmitted (d.domainId "session" (uuidToBytes32 pb.batchId)) = true := by
    rw [hmark]
    simp [Pool.markSession, sessionOf]
  refine ⟨hdone, by simp [Settled, hopen], ?_, h1, by rw [hsub]; exact h1⟩
  have hsame : p1.settledAuction = p0.settledAuction := by rw [hmark]; rfl
  simp [Settled, ← hsame, hopen]

/-- What the first attempts that get anywhere leave behind. -/
theorem sendSession_first (reach : Reach) :
    EthSubmitter.sendSession d sender p0 reach (sessionOf pb.batchId payload) (uuidToBytes32 pb.auctionId) ms =
      match reach with
      | .nothing => (p0, .error (.rpc ""))
      | .session => (p1, .error (.rpc ""))
      | .settle => (p2, .error (.rpc ""))
      | .answer => (p2, .ok ()) := by
  have hid : (sessionOf pb.batchId payload).sessionId = uuidToBytes32 pb.batchId := rfl
  unfold EthSubmitter.sendSession
  rw [h.session, hid]
  dsimp only
  rw [h.settle]
  cases reach <;> rfl

theorem stuck {q : Pool} (hq : q = p1 ∨ q = p2) (reach : Reach) :
    ∃ e, EthSubmitter.sendSession d sender q reach (sessionOf pb.batchId payload) (uuidToBytes32 pb.auctionId) ms =
      (q, .error e) := by
  obtain ⟨-, -, -, h1, h2⟩ := h.guards
  rcases hq with rfl | rfl
  · exact sendSession_again h1 reach _ _
  · exact sendSession_again h2 reach _ _

/-- What the attempts that reach the chain leave behind: a session without its settlement, or a settled
auction. -/
def Stuck (p1 p2 : Pool) (pb : PendingBatch) (s : EngineState × Pool) : Prop :=
  s.2 = p1 ∧ Waits s.1 pb ∨ s.2 = p2 ∧ (Waits s.1 pb ∨ Gone s.1 pb)

/-- No later attempt changes that. -/
theorem stuck_attemptBatch {s : EngineState × Pool} (hs : Stuck p1 p2 pb s) (a : Attempt) :
    Stuck p1 p2 pb (attemptBatch d sender pb.batchId s a) ∧ (attemptBatch d sender pb.batchId s a).2 = s.2 := by
  obtain ⟨st, q⟩ := s
  have hwaits : Waits st pb → (q = p1 ∨ q = p2) →
      (attemptBatch d sender pb.batchId (st, q) a).2 = q ∧ Waits (attemptBatch d sender pb.batchId (st, q) a).1 pb := by
    intro hw hq
    obtain ⟨hpool, hnext, -⟩ := @attemptBatch_eq d sender pb payload ms st hw h.ivc h.rows h.size q a
    obtain ⟨e, he⟩ := h.stuck hq a.reach
    rw [he] at hpool hnext
    exact ⟨hpool, hnext ⟨e, rfl⟩⟩
  rcases hs with ⟨hq, hw⟩ | ⟨hq, hw | hg⟩
  · obtain ⟨hpool, hnext⟩ := hwaits hw (Or.inl hq)
    exact ⟨Or.inl ⟨hpool.trans hq, hnext⟩, hpool⟩
  · obtain ⟨hpool, hnext⟩ := hwaits hw (Or.inr hq)
    exact ⟨Or.inr ⟨hpool.trans hq, Or.inl hnext⟩, hpool⟩
  · rw [attemptBatch_gone hg]
    exact ⟨Or.inr ⟨hq, Or.inr hg⟩, rfl⟩

theorem stuck_attempts (as : List Attempt) {s : EngineState × Pool} (hs : Stuck p1 p2 pb s) :
    Stuck p1 p2 pb (attempts d sender pb.batchId s as) := by
  induction as generalizing s with
  | nil => exact hs
  | cons a as ih => exact ih (h.stuck_attemptBatch hs a).1

/-- The first attempt that reaches the chain. -/
theorem attemptBatch_first (hw : Waits st pb) (a : Attempt) :
    if a.reach = .nothing then
      (attemptBatch d sender pb.batchId (st, p0) a).2 = p0 ∧ Waits (attemptBatch d sender pb.batchId (st, p0) a).1 pb
    else Stuck p1 p2 pb (attemptBatch d sender pb.batchId (st, p0) a) := by
  obtain ⟨hpool, hnext, hany⟩ := @attemptBatch_eq d sender pb payload ms st hw h.ivc h.rows h.size p0 a
  rw [h.sendSession_first] at hpool hnext
  cases hreach : a.reach with
  | nothing =>
    rw [hreach] at hpool hnext
    exact ⟨hpool, hnext ⟨_, rfl⟩⟩
  | session =>
    rw [hreach] at hpool hnext
    exact Or.inl ⟨hpool, hnext ⟨_, rfl⟩⟩
  | settle =>
    rw [hreach] at hpool
    exact Or.inr ⟨hpool, hany⟩
  | answer =>
    rw [hreach] at hpool
    exact Or.inr ⟨hpool, hany⟩

theorem attempts_cases (as : List Attempt) (hw : Waits st pb) :
    ((∀ a ∈ as, a.reach = .nothing) ∧ (attempts d sender pb.batchId (st, p0) as).2 = p0 ∧
        Waits (attempts d sender pb.batchId (st, p0) as).1 pb) ∨
      (¬ (∀ a ∈ as, a.reach = .nothing) ∧ Stuck p1 p2 pb (attempts d sender pb.batchId (st, p0) as)) := by
  induction as generalizing st with
  | nil => exact Or.inl ⟨by simp, rfl, hw⟩
  | cons a as ih =>
    have hfirst := h.attemptBatch_first hw a
    split at hfirst
    next hnone =>
      have hstep : attemptBatch d sender pb.batchId (st, p0) a =
          ((attemptBatch d sender pb.batchId (st, p0) a).1, p0) := Prod.ext rfl hfirst.1
      have hrest : attempts d sender pb.batchId (st, p0) (a :: as) =
          attempts d sender pb.batchId ((attemptBatch d sender pb.batchId (st, p0) a).1, p0) as := by
        rw [← hstep]
        rfl
      rw [hrest]
      simpa [hnone] using ih hfirst.2
    next hsome =>
      refine Or.inr ⟨fun hall => hsome (hall a List.mem_cons_self), ?_⟩
      exact h.stuck_attempts as hfirst

end Settleable

/-- After any attempts that left the auction open, an attempt without faults settles it if and only if
none of them got its `submitSession` mined. -/
theorem retry_settles_iff (h : Settleable d sender p0 pb payload ms p1 p2) (hw : Waits st pb) (as : List Attempt)
    (hopen : ¬ Settled d (attempts d sender pb.batchId (st, p0) as).2 pb) (now : Instant) (confirmed : Option Event) :
    Settled d (attemptBatch d sender pb.batchId (attempts d sender pb.batchId (st, p0) as)
        ⟨.answer, now, confirmed⟩).2 pb ↔ ∀ a ∈ as, a.reach = .nothing := by
  obtain ⟨hdone, -, -⟩ := h.guards
  rcases h.attempts_cases as hw with ⟨hall, hpool, hwaits⟩ | ⟨hsome, hstuck⟩
  · refine ⟨fun _ => hall, fun _ => ?_⟩
    obtain ⟨heq, -, -⟩ := @attemptBatch_eq d sender pb payload ms _ hwaits h.ivc h.rows h.size p0
      ⟨.answer, now, confirmed⟩
    have hs : attempts d sender pb.batchId (st, p0) as = ((attempts d sender pb.batchId (st, p0) as).1, p0) :=
      Prod.ext rfl hpool
    rw [hs, heq, h.sendSession_first]
    exact hdone
  · refine ⟨fun hset => absurd hset ?_, fun hall => absurd hall hsome⟩
    rw [(h.stuck_attemptBatch hstuck ⟨.answer, now, confirmed⟩).2]
    exact hopen

namespace Onchain

def row : SettlementMatch := ⟨11, 12, 6, 6, 3, 3, 1, 1⟩

/-- The proof's chain starts from the domain of the deployment and covers the row. -/
def ivcPayload : ProofPayload := ⟨[], #v[0, 0, 0, 7, 0], #v[0, 0, 0, 400000289, 0], 1, 0⟩

def ivcBatch : PendingBatch :=
  (newPendingBatch 31 21 [] [row] []).withPayload ivcPayload

def engine : EngineState := EngineState.new.withPendingBatches ((∅ : Table Uuid PendingBatch).insert 31 ivcBatch)

def pool : Pool := (Chain.run deployment start setup).pool

/-- Both transactions of the batch go through. -/
def bothMined : Bool :=
  (ivcBatch.settlementMatches.mapM settlementMatchToSol).toOption.any (fun ms =>
    decide (ms.length ≤ maxMatchesPerBatch) &&
    (submitSession deployment pool 4 (sessionOf 31 ivcPayload)).toOption.any (fun p1 =>
      (settleAuction deployment p1 4 (uuidToBytes32 31) (uuidToBytes32 21) ms).toOption.isSome))

theorem waits_ivcBatch : Waits engine ivcBatch := ⟨ivcBatch, by decide, rfl, rfl, rfl, rfl, rfl⟩

theorem settleable_ivcBatch : ∃ ms p1 p2, Settleable deployment 4 pool ivcBatch ivcPayload ms p1 p2 := by
  have hboth : bothMined = true := by decide +kernel
  obtain ⟨ms, hms, hboth⟩ := exists_ok_of_any hboth
  rw [Bool.and_eq_true, decide_eq_true_eq] at hboth
  obtain ⟨p1, h1, h2⟩ := exists_ok_of_any hboth.2
  obtain ⟨p2, h2⟩ := exists_ok_of_isSome h2
  exact ⟨ms, p1, p2, rfl, hms, hboth.1, h1, h2⟩

/-- The first attempt dies between its two transactions. -/
def halfway : Attempt := ⟨.session, 0, none⟩

def faultless : Attempt := ⟨.answer, 1, none⟩

end Onchain

open Onchain in
/-- An attempt that dies after its `submitSession` was mined leaves a batch that no later attempt settles,
though its proof is valid and its funds are reserved. -/
theorem retry_never_settles :
    Waits engine ivcBatch ∧ (∃ ms p1 p2, Settleable deployment 4 pool ivcBatch ivcPayload ms p1 p2) ∧
    ¬ Settled deployment (attempts deployment 4 31 (engine, pool) [halfway]).2 ivcBatch ∧
    ¬ Settled deployment (attemptBatch deployment 4 31 (attempts deployment 4 31 (engine, pool) [halfway])
      faultless).2 ivcBatch := by
  refine ⟨waits_ivcBatch, settleable_ivcBatch, ?_, ?_⟩
  · decide +kernel
  · decide +kernel

open Onchain in
theorem retry_settles_after_nothing :
    Settled deployment (attemptBatch deployment 4 31 (attempts deployment 4 31 (engine, pool) [⟨.nothing, 0, none⟩])
      faultless).2 ivcBatch := by
  obtain ⟨ms, p1, p2, h⟩ := settleable_ivcBatch
  have hopen : ¬ Settled deployment (attempts deployment 4 31 (engine, pool) [⟨.nothing, 0, none⟩]).2 ivcBatch := by
    decide +kernel
  exact (retry_settles_iff h waits_ivcBatch [⟨.nothing, 0, none⟩] hopen 1 none).mpr (by simp)

end DarkPool
