import DarkPool.BatchIds
import DarkPool.Legs

namespace DarkPool

variable {env : Env}

/-- The aggregation is folded, and its batch is not made yet. -/
def FoldStage.unsettled : FoldStage → Bool
  | .folded _ | .counted _ _ | .finalizing | .proved _ | .resolved _ _ => true
  | .start | .witnessed _ | .encoded _ | .submitted _ => false

def Task.folded : Task env → List PendingAggregation
  | .folding queue stage _ => if stage.unsettled then queue.take 1 else []
  | _ => []

/-- The batch settles the matches of the aggregation, in order. -/
structure Settles (p : PendingAggregation) (b : PendingBatch) : Prop where
  batchId : b.batchId = p.batchId
  auctionId : b.auctionId = p.auctionId
  matchList : b.matchList = p.matchList
  rows : List.Forall₂ (RowOf p.orders) p.matchList b.settlementMatches

namespace World

/-- The aggregations that a fold loop has folded and whose batch it has yet to make. -/
def folded (w : World env) : List PendingAggregation := w.tasks.flatMap Task.folded

/-- The aggregation the section folds. -/
def folds (w : World env) (a : Action) : List PendingAggregation :=
  match a, w.taskOf a with
  | .foldStep _ true, some (.folding (p :: _) (.encoded _) _) => [p]
  | _, _ => []

/-- The pending batch the section makes. -/
def creates (w : World env) (a : Action) : List PendingBatch :=
  match a, w.taskOf a with
  | .foldSubmit _ clock ok, some (.folding (p :: _) (.resolved proof rows) _) =>
    match finalizePendingBatch w.state w.store clock ok p proof.proofBytes rows with
    | .ok (state, _) => (state.pendingBatches.lookup p.batchId).toList
    | .error _ => []
  | _, _ => []

/-- The section does not let go of a fold: the fold is finalized in its own round, and neither that nor
the append of its batch fails. -/
def finalizes (w : World env) (a : Action) : Bool :=
  match a, w.taskOf a with
  | .foldLog _ _ _ _, some (.folding _ (.counted _ round) _) => round % w.finalizeEvery = 0
  | .foldFinalize _ proof, _ => proof.isSome
  | .foldSubmit _ _ ok, _ => ok
  | _, _ => true

/-- Everything folded in the run so far. -/
def foldedIn (env : Env) (as : List Action) : List PendingAggregation := Transition.collect step folds (initial env) as

/-- The pending batches made in the run so far. -/
def createdIn (env : Env) (as : List Action) : List PendingBatch := Transition.collect step creates (initial env) as

variable {w w' : World env} {a : Action} {as : List Action}

theorem finalizePendingBatch_total (p : PendingAggregation) (st : EngineState) (store : Store) (clock : DateTime) (proof : Bytes)
    (rows : List SettlementMatch) : ∃ out, finalizePendingBatch st store clock true p proof rows = .ok out := ⟨_, rfl⟩

theorem finalizePendingBatch_lookup {p : PendingAggregation} {st : EngineState} {store : Store} {clock : DateTime} {ok : Bool}
    {proof : Bytes} {rows : List SettlementMatch} {out : EngineState × Store}
    (h : finalizePendingBatch st store clock ok p proof rows = .ok out) :
    out.1.pendingBatches.lookup p.batchId = some (newPendingBatch p.batchId p.auctionId p.matchList rows proof) := by
  unfold finalizePendingBatch at h
  obtain ⟨⟨store', events⟩, -, h⟩ := bind_eq_ok.mp h
  cases Except.ok.inj h
  exact (Table.lookup_insert_eq ..).trans (if_pos rfl)

theorem folds_outside (h : ∀ t ∈ w.taskOf a, t.Outside) : w.folds a = [] := by
  unfold folds
  split
  next p queue ext toSubmit ht => exact (h _ ht).elim
  next => rfl

theorem creates_outside (h : ∀ t ∈ w.taskOf a, t.Outside) : w.creates a = [] := by
  unfold creates
  split
  next ht => exact (h _ ht).elim
  next => rfl

theorem folded_outside {ts : List (Task env)} (h : ∀ t ∈ ts, t.Outside) : ts.flatMap Task.folded = [] := by
  refine List.flatMap_eq_nil_iff.mpr (fun t ht => ?_)
  have hout := h t ht
  cases t with
  | folding queue stage toSubmit => exact hout.elim
  | _ => rfl

/-- What a section that meets the condition does to the folds without a batch: it adds one, makes the batch
of one, or leaves them. -/
theorem step_folded (hstep : w.step a = some w') (hfinal : w.finalizes a = true)
    (hresolves : ∀ p ∈ w.inflight, ∃ rows, buildSettlementMatches p w.state = .ok rows) :
    (w.creates a = [] ∧ w'.folded.Perm (w.folded ++ w.folds a)) ∨
      ∃ p proof rows, w.folds a = [] ∧ w.creates a = [newPendingBatch p.batchId p.auctionId p.matchList rows proof] ∧
        w.submits a = some p ∧ (p, rows) ∈ w.resolved ∧ w.folded.Perm (p :: w'.folded) := by
  obtain ⟨olds, news, hreplaces, hturn, hown⟩ := step_turns hstep
  obtain ⟨rest, hw, hw'⟩ := hreplaces.flatMap Task.folded
  have hkeep : news.flatMap Task.folded = olds.flatMap Task.folded ++ w.folds a → w'.folded.Perm (w.folded ++ w.folds a) := by
    intro hnews
    rw [hnews, List.append_assoc] at hw'
    refine hw'.trans (.trans ?_ (hw.symm.append_right _))
    rw [List.append_assoc]
    exact List.perm_append_comm.append_left _
  cases hturn with
  | outside own before after =>
    refine Or.inl ⟨creates_outside own, hkeep ?_⟩
    rw [folded_outside before, folded_outside after, folds_outside own]
    rfl
  | starts tick => exact Or.inl ⟨rfl, hkeep rfl⟩
  | advances advance =>
    have htask := hown _ List.mem_cons_self
    cases advance with
    | fold => exact Or.inl ⟨rfl, hkeep (by simp [folds, htask, Task.folded, FoldStage.unsettled])⟩
    | @submit i clock ok proof rows store done =>
      rename_i p queue toSubmit
      have hcreates : w.creates (.foldSubmit i clock ok) =
          [newPendingBatch p.batchId p.auctionId p.matchList rows proof.proofBytes] := by
        simp only [creates, htask, done, finalizePendingBatch_lookup done, Option.toList_some]
      have hi : w.tasks[i]? = some (.folding (p :: queue) (.resolved proof rows) toSubmit) := htask
      have hsubmits : w.submits (.foldSubmit i clock ok) = some p := by rw [submits, hi]
      exact Or.inr ⟨p, _, rows, rfl, hcreates, hsubmits, mem_flatMap_tasks hi (List.mem_singleton_self _),
        hw.trans (hw'.symm.cons p)⟩
    | _ => exact Or.inl ⟨rfl, hkeep rfl⟩
  | abandons abandon =>
    have htask := hown _ List.mem_cons_self
    cases abandon with
    | log early =>
      simp only [finalizes, htask, decide_eq_true_eq] at hfinal
      exact absurd hfinal early
    | finalize => simp [finalizes] at hfinal
    | rows failed =>
      rename_i p queue toSubmit i proof e
      have hi : w.tasks[i]? = some (.folding (p :: queue) (.proved proof) toSubmit) := htask
      obtain ⟨rows, hrows⟩ := hresolves p (mem_inflight hi List.mem_cons_self)
      simp [hrows] at failed
    | submit failed =>
      rename_i p queue toSubmit i clock ok proof rows e
      obtain ⟨out, hout⟩ := finalizePendingBatch_total p w.state w.store clock proof.proofBytes rows
      rw [show ok = true from hfinal, hout] at failed
      simp at failed
    | _ => exact Or.inl ⟨rfl, hkeep rfl⟩
  | stores state => exact Or.inl ⟨rfl, hkeep rfl⟩
  | ends => exact Or.inl ⟨rfl, hkeep rfl⟩

theorem folded_subperm (w : World env) : w.folded.Subperm w.inflight := by
  have htasks : (w.tasks.flatMap Task.folded).Sublist (w.tasks.flatMap Task.inflight) := by
    generalize w.tasks = ts
    induction ts with
    | nil => exact List.Sublist.slnil
    | cons t ts ih =>
      refine List.Sublist.append ?_ ih
      cases t with
      | folding queue stage toSubmit =>
        cases stage with
        | folded root => exact List.take_sublist 1 queue
        | counted root round => exact List.take_sublist 1 queue
        | finalizing => exact List.take_sublist 1 queue
        | proved proof => exact List.take_sublist 1 queue
        | resolved proof rows => exact List.take_sublist 1 queue
        | _ => exact List.nil_sublist _
      | _ => exact List.nil_sublist _
  exact htasks.subperm.trans (List.sublist_append_right _ _).subperm

/-- The books of the run so far: what was folded is in the batches made, or with a fold loop that has yet
to make its batch. -/
structure Accounted (as : List Action) (w : World env) : Prop where
  sourced : System.Sourced ((System.initial env).withWorld w)
  rows : RowsHeld w
  settled : ∃ settled, (foldedIn env as).Perm (settled ++ w.folded) ∧ List.Forall₂ Settles settled (createdIn env as) ∧
    Apart w (settled.map PendingAggregation.batchId)

theorem accounted_initial (env : Env) : Accounted [] (initial env) where
  sourced := System.sourced_initial env
  rows := by simp [RowsHeld, resolved, initial]
  settled := ⟨[], .nil, .nil, List.nodup_nil, by simp [inflight, collected, initial]⟩

theorem Accounted.step (h : Accounted as w) (hrun : Transition.run World.step (initial env) as = some w)
    (hfinal : w.finalizes a = true) (hstep : w.step a = some w') : Accounted (as ++ [a]) w' := by
  have hmove : ((System.initial env).withWorld w).step (.op a) = some ((System.initial env).withWorld w') :=
    congrArg (Option.map _) hstep
  have heffect := step_effect h.sourced.logged.ok hstep
  refine ⟨(System.step_effect h.sourced.toKept hmove).sourced h.sourced, h.rows.effect heffect, ?_⟩
  obtain ⟨settled, hperm, hsettles, hapart⟩ := h.settled
  have hresolves : ∀ p ∈ w.inflight, ∃ rows, buildSettlementMatches p w.state = .ok rows :=
    fun p hp => h.sourced.resolves (h.sourced.traced p hp)
  rw [foldedIn, createdIn, Transition.collect_concat hrun, Transition.collect_concat hrun]
  rcases step_folded hstep hfinal hresolves with ⟨hcreates, hfolded⟩ | ⟨p, proof, rows, hfolds, hcreates, hsubmits, hrows, hfolded⟩
  · refine ⟨settled, ?_, ?_, hapart.effect heffect⟩
    · exact (hperm.append_right _).trans (by rw [List.append_assoc]; exact hfolded.symm.append_left _)
    · rw [hcreates, List.append_nil]
      exact hsettles
  · refine ⟨settled ++ [p], ?_, ?_, ?_⟩
    · rw [hfolds, List.append_nil, List.append_assoc]
      exact hperm.trans (hfolded.append_left _)
    · rw [hcreates]
      exact List.rel_append hsettles (.cons ⟨rfl, rfl, rfl, h.rows _ hrows⟩ .nil)
    · have hmade := hapart.step heffect hstep
      rw [hsubmits] at hmade
      rw [List.map_append]
      exact hmade

/-- In every run in which no fold is let go of, what was folded is partitioned: each aggregation is settled,
match by match, by one of the batches made, or a fold loop has yet to make its batch. -/
theorem run_partitions_folds (hrun : Transition.run World.step (initial env) as = some w)
    (hfinal : Transition.Meets World.step (fun w a => w.finalizes a = true) (initial env) as) :
    ((foldedIn env as).map PendingAggregation.batchId).Nodup ∧ ∃ settled, (foldedIn env as).Perm (settled ++ w.folded) ∧
      List.Forall₂ Settles settled (createdIn env as) := by
  have h : Accounted as w := Transition.run_history (I := fun u bs => Accounted bs u)
    (fun u bs a v hu hs hc hstep => hs.step hu hc hstep) (accounted_initial env) hfinal hrun
  obtain ⟨settled, hperm, hsettles, hnodup, -⟩ := h.settled
  refine ⟨?_, settled, hperm, hsettles⟩
  rw [(hperm.map _).nodup_iff, List.map_append]
  exact nodup_of_subperm (subperm_batchIds (folded_subperm w) _) hnodup

end World

namespace Scenario

/-- The first order wants twice what the second offers, and a third order offers the rest. -/
def halves : Env :=
  { Scenario.env with
    decrypt := fun ciphertext =>
      match ciphertext with
      | [1] => some { plaintext 1 .buy 1 with size := 2 }
      | [3] => some (plaintext 3 .sell 3)
      | _ => Scenario.env.decrypt ciphertext }

def tick (finalizeEvery : Nat) (auctionId batchId : Uuid) : List Action :=
  [.setFinalizeEvery finalizeEvery, .tickStart now 0 true [], .tickPair auctionId [batchId] 0 true, .tickEnd]

/-- A tick that has nothing to submit ends. -/
def ending : List Action := [.foldEnd 0, .submitEnd 0 0 [], .submitEnd 0 0 []]

def placingRest : List Action := [.placeOrder [3] [] 3, .prepareOrder 0 13 now (some (50, 0)), .persistOrder 0 0 true]

/-- Two rounds of a session that is finalized every second round. -/
def everySecond : List Action :=
  placing ++ tick 2 21 31 ++ folding.take 5 ++ ending ++ placingRest ++ tick 2 22 32 ++ folding ++ [.foldSubmit 0 0 true]

/-- One round is folded, finalized and submitted. -/
def submittingOnce : List Action := placing ++ matching ++ folding ++ [.foldSubmit 0 0 true]

/-- The log of a first round. -/
def firstLog : List Event :=
  [⟨1, 5, .pairRegistered "ETH-USDC" (formatAddress 100) (formatAddress 200) 0 0 none 18 18⟩,
   ⟨2, 5, .orderPlaced 11 (967603609462 : Bytes32).toVec [] [1]⟩,
   ⟨3, 5, .orderPlaced 12 (964504562775 : Bytes32).toVec [] [2]⟩,
   ⟨4, 5, .auctionExecuted 21 "ETH-USDC" 10 1 1 5⟩,
   ⟨5, 5, .orderMatched 21 ⟨11, 1⟩ ⟨12, 1⟩ 10 1⟩,
   ⟨6, 5, .batchFolded 31 1 "ETH-USDC" (1 : Bytes32).toVec⟩]

/-- Half of the first order rests after a first round that logged the events. -/
def halfLeft (events : List Event) (bookSeq finalizeEvery : Nat) : World halves where
  store := ⟨events, events.length⟩
  state := { EngineState.new with
    book := ⟨AList.singleton "ETH-USDC"
      ⟨AList.singleton 11 ⟨11, 1, "ETH-USDC", .buy, 10, 2, 1, "key", [1], 5, 1000, 2⟩, ∅⟩, bookSeq⟩
    pairTokens := AList.singleton "ETH-USDC" (PairConfig.new 100 200)
    auctionLog := [⟨21, "ETH-USDC", 10, 1, 1, 5⟩]
    seenCiphertexts := {1, 2}
    spentNullifiers := {95946132794281354771905129112842905628882919752626102,
      95946132794281354771905129112842905628882823682178806}
    spentOrderNonces := {1, 2} }
  secrets := AList.singleton 11
    ⟨1, 219, 967603609462, 95946132794281354771905129112842905628882919752626102, 50, 0⟩
  ivcRound := AList.singleton "ETH-USDC" 1
  finalizeEvery := finalizeEvery
  tick := none
  tasks := []
  issued := [21, 31, 12, 11]

/-- The books of a section. -/
def bookkeeping (w : World env) (a : Action) : List PendingAggregation × List PendingBatch × Bool :=
  (w.folds a, w.creates a, w.finalizes a)

end Scenario

open Scenario in
/-- The first of two folded rounds is in no batch after the session was finalized in the second. -/
theorem fold_in_no_batch :
    ∃ w, Transition.run World.step (World.initial halves) everySecond = some w ∧ w.folded = [] ∧
      (World.foldedIn halves everySecond).map (fun p => (p.batchId, p.matchList.length)) = [(31, 1), (32, 1)] ∧
      (World.createdIn halves everySecond).map (fun b => (b.batchId, b.settlementMatches.length)) = [(32, 1)] := by
  -- The two rounds are evaluated one after the other, from what the first leaves.
  have hfirst : (Transition.trace World.step bookkeeping (World.initial halves)
      (placing ++ tick 2 21 31 ++ folding.take 5 ++ ending)).any (fun r => sameAtRest r.1 (halfLeft firstLog 5 2) &&
        decide ((r.2.flatMap Prod.fst).map (fun p => (p.batchId, p.matchList.length)) = [(31, 1)]) &&
        (r.2.flatMap (fun b => b.2.1)).isEmpty) = true := by
    decide +kernel
  have hsecond : (Transition.trace World.step bookkeeping (halfLeft firstLog 5 2)
      (placingRest ++ tick 2 22 32 ++ folding ++ [.foldSubmit 0 0 true])).any (fun r => r.1.folded.isEmpty &&
        decide ((r.2.flatMap Prod.fst).map (fun p => (p.batchId, p.matchList.length)) = [(32, 1)]) &&
        decide ((r.2.flatMap (fun b => b.2.1)).map (fun b => (b.batchId, b.settlementMatches.length)) = [(32, 1)])) =
          true := by
    decide +kernel
  obtain ⟨r1, hr1, hcheck1⟩ := (Option.any_eq_true _ _).mp hfirst
  obtain ⟨r2, hr2, hcheck2⟩ := (Option.any_eq_true _ _).mp hsecond
  simp only [Bool.and_eq_true, decide_eq_true_eq, List.isEmpty_iff] at hcheck1 hcheck2
  obtain ⟨⟨hmid, hfolds1⟩, hcreates1⟩ := hcheck1
  obtain ⟨⟨hfolded, hfolds2⟩, hcreates2⟩ := hcheck2
  rw [← eq_of_sameAtRest hmid] at hr2
  have hr := Transition.trace_append hr1 hr2
  have hactions : placing ++ tick 2 21 31 ++ folding.take 5 ++ ending ++
      (placingRest ++ tick 2 22 32 ++ folding ++ [.foldSubmit 0 0 true]) = everySecond := by
    simp only [everySecond, List.append_assoc]
  rw [hactions] at hr
  have hrun := Transition.trace_run hr
  refine ⟨r2.1, hrun, hfolded, ?_, ?_⟩
  · have hfolds : (World.foldedIn halves everySecond) = (r1.2 ++ r2.2).flatMap Prod.fst :=
      Transition.trace_collect hr Prod.fst
    rw [hfolds, List.flatMap_append, List.map_append, hfolds1, hfolds2]
    rfl
  · have hcreates : (World.createdIn halves everySecond) = (r1.2 ++ r2.2).flatMap (fun b => b.2.1) :=
      Transition.trace_collect hr (fun b => b.2.1)
    rw [hcreates, List.flatMap_append, hcreates1, List.nil_append, hcreates2]

open Scenario in
theorem run_partitions_folds_submitting :
    ∃ w, Transition.run World.step (World.initial Scenario.env) submittingOnce = some w ∧ w.folded = [] ∧
      (World.createdIn Scenario.env submittingOnce).map PendingBatch.batchId = [31] ∧
      ∃ settled, (World.foldedIn Scenario.env submittingOnce).Perm (settled ++ w.folded) ∧
        List.Forall₂ Settles settled (World.createdIn Scenario.env submittingOnce) := by
  have hrun : (Transition.trace World.step bookkeeping (World.initial Scenario.env) submittingOnce).any (fun r =>
      r.1.folded.isEmpty && decide ((r.2.flatMap (fun b => b.2.1)).map PendingBatch.batchId = [31]) &&
        r.2.all (fun b => b.2.2)) = true := by decide +kernel
  obtain ⟨r, hr, hcheck⟩ := (Option.any_eq_true _ _).mp hrun
  simp only [Bool.and_eq_true, decide_eq_true_eq, List.isEmpty_iff, List.all_eq_true] at hcheck
  obtain ⟨⟨hfolded, hcreates⟩, hall⟩ := hcheck
  have hw := Transition.trace_run hr
  refine ⟨r.1, hw, hfolded, ?_, (World.run_partitions_folds hw (Transition.trace_meets hr hall)).2⟩
  rw [← hcreates, ← Transition.trace_collect hr (fun b => b.2.1)]
  rfl

end DarkPool
