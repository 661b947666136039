import DarkPool.Accounting
import DarkPool.SettlementRows

namespace DarkPool

section Runs

variable {env : Env} {domain : Fr}

/-- The value is the chain over the tuples of the aggregation. -/
def ChainOf (env : Env) (domain : Fr) (p : PendingAggregation) (z : Fr) : Prop :=
  ∃ rows, List.Forall₂ (ScalarsOf p.orders) p.matchList rows ∧ z = settlementChainNative env domain rows

/-- What binds the stage of a fold to the aggregation it is about. -/
def FoldStage.Bound (env : Env) (domain : Fr) (agg : InlineFoldingAggregator) (p : PendingAggregation) : FoldStage → Prop
  | .encoded ext => Encodes p ext
  | .folded _ | .counted _ _ | .finalizing =>
    ∃ acc, agg.lookup p.pair = some acc ∧ 0 < acc.nSteps ∧ ChainOf env domain p (acc.z.get zSettlement)
  | .proved proof | .resolved proof _ | .submitted proof => ChainOf env domain p (proof.zN.get zSettlement)
  | .start | .witnessed _ => True

def Task.Bound (domain : Fr) (agg : InlineFoldingAggregator) : Task env → Prop
  | .folding queue stage _ => ∀ p ∈ queue.head?, stage.Bound env domain agg p
  | _ => True

/-- A batch that was just submitted is among those made, and settles the aggregation it is of. -/
def Task.Made (made : List Uuid) (st : EngineState) : Task env → Prop
  | .folding queue (.submitted _) _ => ∀ p ∈ queue.head?, p.batchId ∈ made ∧
      ∀ row, st.row p.batchId = some row → List.Forall₂ (RowOf p.orders) p.matchList row.settlementMatches
  | _ => True

theorem Task.Outside.bound {t : Task env} (h : t.Outside) (agg : InlineFoldingAggregator) : t.Bound domain agg := by
  cases t with
  | folding queue stage toSubmit => exact h.elim
  | _ => trivial

theorem Task.Outside.made {t : Task env} (h : t.Outside) (made : List Uuid) (st : EngineState) : t.Made made st := by
  cases t with
  | folding queue stage toSubmit => exact h.elim
  | _ => trivial

theorem FoldStage.Bound.keep {agg agg' : InlineFoldingAggregator} {p : PendingAggregation} {stage : FoldStage}
    (hkeep : ∀ pair acc, agg.lookup pair = some acc → 0 < acc.nSteps → agg'.lookup pair = some acc)
    (h : stage.Bound env domain agg p) : stage.Bound env domain agg' p := by
  have hfold : (∃ acc, agg.lookup p.pair = some acc ∧ 0 < acc.nSteps ∧ ChainOf env domain p (acc.z.get zSettlement)) →
      ∃ acc, agg'.lookup p.pair = some acc ∧ 0 < acc.nSteps ∧ ChainOf env domain p (acc.z.get zSettlement) := by
    rintro ⟨acc, hacc, hpos, hchain⟩
    exact ⟨acc, hkeep _ _ hacc hpos, hpos, hchain⟩
  cases stage with
  | folded root => exact hfold h
  | counted root round => exact hfold h
  | finalizing => exact hfold h
  | _ => exact h

namespace Proving

variable {s s' : Proving env} {m : ProvingAction}

/-- The fold is the first of its pair that goes through. -/
def firstFold (s : Proving env) : ProvingAction → Bool
  | .foldStep i .folded =>
    match s.world.tasks[i]? with
    | some (.folding (p :: _) _ _) => (s.aggregator.lookup p.pair).all (fun acc => acc.nSteps = 0)
    | _ => true
  | _ => true

/-- The payloads the action stores, each with the batch it is stored with. -/
def stores (s : Proving env) (m : ProvingAction) : List (PendingBatch × ProofPayload) :=
  match m with
  | .engine (.foldPayload i) =>
    match s.world.tasks[i]? with
    | some (.folding (p :: _) (.submitted proof) _) =>
      ((s.world.state.pendingBatches.lookup p.batchId).map (fun pb => (pb, proof.payload))).toList
    | _ => []
  | _ => []

/-- Everything stored in the run so far. -/
def storedIn (env : Env) (domain : Fr) (ms : List ProvingAction) : List (PendingBatch × ProofPayload) :=
  Transition.collect (step domain) stores (initial env) ms

theorem step_eq_some (h : s.step domain m = some s') :
    ∃ a, s.engineAction m = some a ∧ s.world.step a = some s'.world ∧ s'.aggregator = s.aggregate domain m := by
  unfold step at h
  split at h
  next => simp at h
  next a ha =>
    obtain ⟨w, hw, rfl⟩ := Option.map_eq_some_iff.mp h
    exact ⟨a, ha, hw, rfl⟩

theorem engineAction_engine {a a' : Action} (h : s.engineAction (.engine a) = some a') : a'.callsAggregator = false := by
  simp only [engineAction, Option.ite_none_left_eq_some, Option.some.injEq] at h
  obtain ⟨hcalls, rfl⟩ := h
  simpa using hcalls

/-- Under the condition no accumulator that holds a fold changes. -/
theorem aggregate_keeps (hfirst : s.firstFold m = true) {pair : String} {acc : IvcRoundState}
    (hacc : s.aggregator.lookup pair = some acc) (hpos : 0 < acc.nSteps) :
    (s.aggregate domain m).lookup pair = some acc := by
  cases m with
  | foldStep i outcome =>
    unfold aggregate
    dsimp only
    split
    next p queue ext toSubmit htask =>
      unfold InlineFoldingAggregator.foldStep
      cases outcome with
      | folded =>
        rw [Table.lookup_insert_eq, if_neg, hacc]
        rintro rfl
        rw [firstFold, htask] at hfirst
        simp only [hacc, Option.all_some, decide_eq_true_eq] at hfirst
        omega
      | seeded =>
        rw [Table.lookup_insert_eq]
        split
        next heq => rw [← heq, InlineFoldingAggregator.entry, hacc, Option.getD_some]
        next => exact hacc
      | refused => exact hacc
    next => exact hacc
  | _ => exact hacc

/-- An accumulator that holds no fold stands at the domain. -/
def Seeded (domain : Fr) (agg : InlineFoldingAggregator) : Prop :=
  ∀ pair acc, agg.lookup pair = some acc → acc.nSteps = 0 → acc.z.get zSettlement = domain

theorem entry_seeded {agg : InlineFoldingAggregator} (h : Seeded domain agg) (pair : String) (ext : AuctionExternalInputs)
    (hnone : (agg.entry pair env domain ext).nSteps = 0) : (agg.entry pair env domain ext).z.get zSettlement = domain := by
  unfold InlineFoldingAggregator.entry at hnone ⊢
  cases hacc : agg.lookup pair with
  | none => rfl
  | some acc =>
    rw [hacc, Option.getD_some] at hnone
    exact h pair acc hacc hnone

theorem Seeded.aggregate (h : Seeded domain s.aggregator) (m : ProvingAction) : Seeded domain (s.aggregate domain m) := by
  cases m with
  | foldStep i outcome =>
    unfold Proving.aggregate
    dsimp only
    split
    next p queue ext toSubmit htask =>
      intro pair acc hacc hnone
      unfold InlineFoldingAggregator.foldStep at hacc
      cases outcome with
      | folded =>
        rw [Table.lookup_insert_eq] at hacc
        split at hacc
        next =>
          rw [← Option.some.inj hacc] at hnone
          simp [IvcRoundState.fold] at hnone
        next => exact h pair acc hacc hnone
      | seeded =>
        rw [Table.lookup_insert_eq] at hacc
        split at hacc
        next =>
          rw [← Option.some.inj hacc] at hnone ⊢
          exact entry_seeded h p.pair ext hnone
        next => exact h pair acc hacc hnone
      | refused => exact h pair acc hacc hnone
    next => exact h
  | _ => exact h

/-- Every fold, proof and batch of the run is bound to the matches it is about. -/
structure Chained (domain : Fr) (s : Proving env) : Prop where
  ok : s.world.Ok
  rows : s.world.RowsHeld
  witnessed : ∀ x ∈ s.world.witnessed, ∃ secrets,
    buildBatchWitness secrets x.1.batchId x.1.auctionId x.1.matchList x.1.orders = .ok x.2
  seeded : Seeded domain s.aggregator
  tasks : ∀ t ∈ s.world.tasks, t.Bound domain s.aggregator
  made : ∃ made, s.world.Apart made ∧ ∀ t ∈ s.world.tasks, t.Made made s.world.state

theorem chained_initial (env : Env) (domain : Fr) : Chained domain (initial env) where
  ok := World.ok_initial env
  rows := by simp [World.RowsHeld, World.resolved, initial, World.initial]
  witnessed := by simp [World.witnessed, initial, World.initial]
  seeded := by simp [Seeded, initial]
  tasks := by simp [initial, World.initial]
  made := ⟨[], ⟨List.nodup_nil, by simp [World.inflight, World.collected, initial, World.initial]⟩,
    by simp [initial, World.initial]⟩

/-- A fold that goes through takes the chain over the tuples of its aggregation. -/
theorem Chained.folds (h : Chained domain s) {i : Nat} (hfirst : s.firstFold (.foldStep i .folded) = true)
    {p : PendingAggregation} {queue : List PendingAggregation} {ext : AuctionExternalInputs} {toSubmit : List Uuid}
    (htask : s.world.tasks[i]? = some (.folding (p :: queue) (.encoded ext) toSubmit)) (hext : Encodes p ext) (root : Bytes) :
    (FoldStage.folded root).Bound env domain (s.aggregate domain (.foldStep i .folded)) p := by
  have hnone : (s.aggregator.entry p.pair env domain ext).nSteps = 0 := by
    rw [firstFold, htask] at hfirst
    unfold InlineFoldingAggregator.entry
    cases hacc : s.aggregator.lookup p.pair with
    | none => rfl
    | some acc => simpa [hacc] using hfirst
  refine ⟨(s.aggregator.entry p.pair env domain ext).fold env ext, ?_, Nat.succ_pos _, ext.settlementRows, hext.scalars, ?_⟩
  · rw [aggregate, htask]
    exact (Table.lookup_insert_eq ..).trans (if_pos rfl)
  · have hz := entry_seeded h.seeded p.pair ext hnone
    change ext.rows.foldl (settlementAcc env) ((s.aggregator.entry p.pair env domain ext).z.get zSettlement) = _
    rw [hz, foldl_settlementAcc hext.active]
    rfl

/-- What the aggregator gives back is the chain its accumulator holds. -/
theorem finalize_bound {i : Nat} {proofBytes : Option Bytes} {p : PendingAggregation} {queue : List PendingAggregation}
    {toSubmit : List Uuid} {proof : FinalProof} (htask : s.world.tasks[i]? = some (.folding (p :: queue) .finalizing toSubmit))
    (ha : s.engineAction (.finalize i proofBytes) = some (.foldFinalize i (some proof)))
    (h : FoldStage.finalizing.Bound env domain s.aggregator p) : ChainOf env domain p (proof.zN.get zSettlement) := by
  obtain ⟨acc, hacc, -, hchain⟩ := h
  rw [engineAction, htask] at ha
  simp only [Option.some.injEq, Action.foldFinalize.injEq, true_and] at ha
  obtain ⟨bytes, -, hproof⟩ := Option.bind_eq_some_iff.mp ha
  rw [InlineFoldingAggregator.finalize, hacc, Option.map_some, Option.some.injEq] at hproof
  rw [← hproof]
  exact hchain

theorem Chained.bound (h : Chained domain s) (hfirst : s.firstFold m = true) {a : Action} {w' : World env}
    (ha : s.engineAction m = some a) (hstep : s.world.step a = some w') :
    ∀ t ∈ w'.tasks, t.Bound domain (s.aggregate domain m) := by
  have hkeep : ∀ pair acc, s.aggregator.lookup pair = some acc → 0 < acc.nSteps →
      (s.aggregate domain m).lookup pair = some acc := fun _ _ hacc hpos => aggregate_keeps hfirst hacc hpos
  have htasks : ∀ t : Task env, t.Bound domain s.aggregator → t.Bound domain (s.aggregate domain m) := by
    intro t ht
    cases t with
    | folding queue stage toSubmit => exact fun p hp => (ht p hp).keep hkeep
    | _ => trivial
  refine World.step_tasks hstep h.tasks htasks (fun t ht => ht.bound _) ?_
  intro olds news hturn hmem t ht
  cases hturn with
  | outside own before after => exact Or.inl (after t ht)
  | ends =>
    rw [List.mem_singleton.mp ht]
    exact Or.inl trivial
  | @advances a p queue stage stage' toSubmit advance =>
    rw [List.mem_singleton.mp ht]
    obtain ⟨hin, htask⟩ := hmem _ List.mem_cons_self
    have hold := htasks _ (h.tasks _ hin)
    refine Or.inr (fun q hq => ?_)
    cases Option.some.inj hq
    cases advance with
    | witness built => trivial
    | @inputs i witness ext built =>
      obtain ⟨secrets, hbuilt⟩ := h.witnessed (p, witness) (List.mem_flatMap.mpr ⟨_, hin, List.mem_singleton_self _⟩)
      exact encodes_of_inputs hbuilt built
    | @fold i ext =>
      cases m with
      | engine a => exact absurd (engineAction_engine ha) (by simp [Action.callsAggregator])
      | foldStep j outcome =>
        obtain ⟨rfl, hok⟩ := Action.foldStep.inj (Option.some.inj ha)
        cases outcome with
        | folded => exact h.folds hfirst htask (h.tasks _ hin p rfl) _
        | seeded => simp [FoldOutcome.ok] at hok
        | refused => simp [FoldOutcome.ok] at hok
      | finalize j bytes =>
        unfold engineAction at ha
        dsimp only at ha
        split at ha <;> simp at ha
    | count => exact hold p rfl
    | log due => exact hold p rfl
    | @finalize i proof =>
      cases m with
      | engine a => exact absurd (engineAction_engine ha) (by simp [Action.callsAggregator])
      | foldStep j outcome => simp [engineAction] at ha
      | finalize j bytes =>
        have hj : j = i := by
          unfold engineAction at ha
          dsimp only at ha
          split at ha
          next => exact (Action.foldFinalize.inj (Option.some.inj ha)).1
          next => simp at ha
        subst hj
        exact finalize_bound htask ha (h.tasks _ hin p rfl)
    | rows built => exact hold p rfl
    | submit done => exact hold p rfl
  | _ =>
    rw [List.mem_singleton.mp ht]
    exact Or.inr (fun p hp => trivial)

theorem Chained.makes (h : Chained domain s) {a : Action} {w' : World env} (hstep : s.world.step a = some w') :
    ∃ made, w'.Apart made ∧ ∀ t ∈ w'.tasks, t.Made made w'.state := by
  obtain ⟨made, hapart, hmade⟩ := h.made
  have heffect := World.step_effect h.ok hstep
  refine ⟨_, hapart.step heffect hstep, ?_⟩
  refine World.step_tasks hstep hmade ?_ (fun t ht => ht.made _ _) ?_
  · intro t ht
    cases t with
    | folding queue stage toSubmit =>
      cases stage with
      | submitted proof =>
        intro p hp
        obtain ⟨hid, hrows⟩ := ht p hp
        refine ⟨List.mem_append_left _ hid, fun row hrow => ?_⟩
        rcases heffect.row hrow with hrow | ⟨q, rows, hsubmits, hbatch, -, -⟩
        · exact hrows row hrow
        · -- A batch that is made now has an id that none of those made before has.
          have hq : q.batchId ∈ s.world.inflight.map PendingAggregation.batchId :=
            List.mem_map_of_mem ((World.inflight_submits hstep hsubmits).mem_iff.mpr List.mem_cons_self)
          exact absurd hq ((List.nodup_append'.mp hapart.1).2.2 (hbatch ▸ hid))
      | _ => trivial
    | _ => trivial
  · intro olds news hturn hmem t ht
    cases hturn with
    | outside own before after => exact Or.inl (after t ht)
    | @advances a p queue stage stage' toSubmit advance =>
      rw [List.mem_singleton.mp ht]
      obtain ⟨hin, htask⟩ := hmem _ List.mem_cons_self
      cases advance with
      | @submit i clock ok proof rows store done =>
        refine Or.inr (fun q hq => ?_)
        cases Option.some.inj hq
        have hsubmits : s.world.submits (.foldSubmit i clock ok) = some p := by
          rw [World.submits, show s.world.tasks[i]? = _ from htask]
        refine ⟨by simp [hsubmits], fun row hrow => ?_⟩
        have hlookup := World.finalizePendingBatch_lookup done
        rw [SerializableState.row, hlookup, Option.map_some, Option.some.injEq] at hrow
        rw [← hrow]
        exact h.rows (p, rows) (List.mem_flatMap.mpr ⟨_, hin, List.mem_singleton_self _⟩)
      | _ => exact Or.inr trivial
    | _ =>
      rw [List.mem_singleton.mp ht]
      exact Or.inr trivial

theorem Chained.step (h : Chained domain s) (hfirst : s.firstFold m = true) (hstep : s.step domain m = some s') :
    Chained domain s' := by
  obtain ⟨a, ha, hw, hagg⟩ := step_eq_some hstep
  have heffect := World.step_effect h.ok hw
  exact {
    ok := World.step_ok h.ok hw
    rows := h.rows.effect heffect
    witnessed := by
      intro x hx
      rcases heffect.frame.witnessed x hx with hx | ⟨-, hbuilt⟩
      · exact h.witnessed x hx
      · exact ⟨_, hbuilt⟩
    seeded := hagg ▸ h.seeded.aggregate m
    tasks := hagg ▸ h.bound hfirst ha hw
    made := h.makes hw }

/-- The proof carries the chain over exactly the settlement matches of the batch. -/
def Binds (env : Env) (domain : Fr) (pb : PendingBatch) (payload : ProofPayload) : Prop :=
  ∃ rows, pb.settlementMatches.mapM settlementRow = .ok rows ∧
    payload.zN.get zSettlement = frToBytes32 (settlementChainNative env domain rows)

theorem Chained.stores (h : Chained domain s) {x : PendingBatch × ProofPayload} (hx : x ∈ s.stores m) :
    Binds env domain x.1 x.2 := by
  unfold Proving.stores at hx
  split at hx
  next i =>
    split at hx
    next p queue proof toSubmit htask =>
      obtain ⟨pb, hpb, rfl⟩ := Option.map_eq_some_iff.mp (Option.mem_toList.mp hx)
      have hin := List.mem_of_getElem? htask
      obtain ⟨made, -, hmade⟩ := h.made
      obtain ⟨-, hrows⟩ := hmade _ hin p rfl
      obtain ⟨rows, hscalars, hchain⟩ := h.tasks _ hin p rfl
      have hrow := hrows pb.row (by rw [SerializableState.row, hpb, Option.map_some])
      refine ⟨rows, settlementRows_of_scalars hrow hscalars, ?_⟩
      rw [← hchain]
      simp [FinalProof.payload]
    next => simp at hx
  next => simp at hx

/-- In every run in which each pair is folded at most once, every proof that is stored with a batch carries
the chain over exactly its settlement matches, and a contract with the same hash and domain recomputes it. -/
theorem run_binds_settlement {ms : List ProvingAction} (hrun : Transition.run (Proving.step domain) (initial env) ms = some s)
    (hfirst : Transition.Meets (Proving.step domain) (fun s m => s.firstFold m = true) (initial env) ms) :
    ∀ x ∈ storedIn env domain ms, Binds env domain x.1 x.2 ∧ ∀ d : Deployment, d.Mirrors env domain →
      ∃ sols, x.1.settlementMatches.mapM settlementMatchToSol = .ok sols ∧
        settlementChain d d.settlementDomain sols = .ok ((sessionOf x.1.batchId x.2).zN.get zSettlement) := by
  have h : Chained domain s ∧ ∀ x ∈ storedIn env domain ms, Binds env domain x.1 x.2 := by
    refine Transition.run_history (I := fun u ms => Chained domain u ∧ ∀ x ∈ storedIn env domain ms, Binds env domain x.1 x.2)
      ?_ ⟨chained_initial env domain, by simp [storedIn, Transition.collect]⟩ hfirst hrun
    rintro u ms m v hu ⟨hchained, hall⟩ hm hstep
    refine ⟨hchained.step hm hstep, fun x hx => ?_⟩
    rw [storedIn, Transition.collect_concat hu] at hx
    exact (List.mem_append.mp hx).elim (hall x) hchained.stores
  intro x hx
  obtain ⟨rows, hrows, hz⟩ := h.2 x hx
  refine ⟨⟨rows, hrows, hz⟩, fun d hd => ?_⟩
  obtain ⟨sols, hsols, hchain⟩ := settlementChain_of_rows hd (mapM_forall₂ hrows) domain
  refine ⟨sols, hsols, ?_⟩
  rw [hd.domain, hchain]
  simp [sessionOf, hz, frToBytes32_toNat]

end Proving

end Runs

namespace Scenario

/-- The fold of the first chunk in flight, up to the payload of its batch. -/
def proving : List ProvingAction :=
  [.engine (.foldWitness 0), .engine (.foldInputs 0), .foldStep 0 .folded, .engine (.foldCount 0),
   .engine (.foldLog 0 now 0 true), .finalize 0 (some [9]), .engine (.foldRows 0), .engine (.foldSubmit 0 0 true),
   .engine (.foldPayload 0)]

/-- The batch is submitted and confirmed, and the tick ends. -/
def settlingFirst : List Action :=
  [.foldEnd 0, .submitStart 0, .submitCall 0 (some "0x"), .submitLog 0 now 0 true, .submitApply 0, .submitEnd 0 0 [],
   .submitEnd 0 0 []]

def provingOnce : List ProvingAction := (placing ++ matching).map .engine ++ proving

/-- Two rounds of a pair, each finalized. -/
def provingTwice : List ProvingAction :=
  provingOnce ++ (settlingFirst ++ placingRest ++ tick 1 22 32).map .engine ++ proving

/-- What the first round leaves. -/
def firstProved : Proving halves where
  world := halfLeft (firstLog ++ [⟨7, 5, .batchSubmitted 31 21 "" 1 [9]⟩, ⟨8, 5, .batchConfirmed 31 "0x"⟩]) 8 1
  aggregator := AList.singleton "ETH-USDC"
    ⟨#v[0, 0, 288230376151922266, 7, 0], #v[22521177394668437591099518718015888137, 1, 288230376151922266, 31307854722, 1], 1⟩

theorem eq_firstProved {s : Proving halves} (hworld : sameAtRest s.world firstProved.world = true)
    (hagg : s.aggregator.entries = firstProved.aggregator.entries) : s = firstProved := by
  cases s
  cases eq_of_sameAtRest hworld
  cases AList.ext hagg
  rfl

/-- What an action stores, and whether it meets the condition. -/
def storing {env : Env} (s : Proving env) (m : ProvingAction) : List (PendingBatch × ProofPayload) × Bool :=
  (s.stores m, s.firstFold m)

/-- The tuples of the batch, or none if one does not encode. -/
def tuples (pb : PendingBatch) : Option (List SettlementRow) := (pb.settlementMatches.mapM settlementRow).toOption

theorem mapM_of_tuples {pb : PendingBatch} {rows : List SettlementRow} (h : tuples pb = some rows) :
    pb.settlementMatches.mapM settlementRow = .ok rows := by
  unfold tuples at h
  cases hrows : pb.settlementMatches.mapM settlementRow with
  | error e => simp [hrows, Except.toOption] at h
  | ok rows' =>
    rw [hrows] at h
    cases Option.some.inj h
    rfl

end Scenario

open Scenario in
/-- The proof that is stored with the second batch of a pair does not carry the chain over its matches. -/
theorem second_batch_unbound :
    (∃ s, Transition.run (Proving.step 7) (Proving.initial halves) provingTwice = some s) ∧
      ∃ x ∈ Proving.storedIn halves 7 provingTwice, x.1.batchId = 32 ∧ ¬ Proving.Binds halves 7 x.1 x.2 := by
  -- The two rounds are evaluated one after the other, from what the first leaves.
  have hfirst : (Transition.run (Proving.step 7) (Proving.initial halves) (provingOnce ++ settlingFirst.map .engine)).any
      (fun s => sameAtRest s.world firstProved.world &&
        decide (s.aggregator.entries = firstProved.aggregator.entries)) = true := by decide +kernel
  have hsecond : (Transition.trace (Proving.step 7) storing firstProved
      ((placingRest ++ tick 1 22 32).map .engine ++ proving)).any (fun r =>
        (r.2.flatMap Prod.fst).any (fun x => decide (x.1.batchId = 32) && (tuples x.1).any (fun rows =>
          decide (x.2.zN.get zSettlement ≠ frToBytes32 (settlementChainNative halves 7 rows))))) = true := by decide +kernel
  obtain ⟨s, hs, hmid⟩ := (Option.any_eq_true _ _).mp hfirst
  obtain ⟨hworld, hagg⟩ := Bool.and_eq_true_iff.mp hmid
  cases eq_firstProved hworld (of_decide_eq_true hagg)
  obtain ⟨r, hr, hcheck⟩ := (Option.any_eq_true _ _).mp hsecond
  obtain ⟨x, hx, hcheck⟩ := List.any_eq_true.mp hcheck
  obtain ⟨hid, hne⟩ := Bool.and_eq_true_iff.mp hcheck
  obtain ⟨rows, hrows, hne⟩ := (Option.any_eq_true _ _).mp hne
  have hactions : provingOnce ++ settlingFirst.map .engine ++ ((placingRest ++ tick 1 22 32).map .engine ++ proving) =
      provingTwice := by
    simp only [provingTwice, List.map_append, List.append_assoc]
  have hstored : x ∈ Proving.storedIn halves 7 provingTwice := by
    rw [← Transition.trace_collect hr Prod.fst] at hx
    rw [Proving.storedIn, ← hactions, Transition.collect_append hs]
    exact List.mem_append_right _ hx
  have hrun := Transition.run_append.mpr ⟨firstProved, hs, Transition.trace_run hr⟩
  rw [hactions] at hrun
  refine ⟨⟨r.1, hrun⟩, x, hstored, of_decide_eq_true hid, ?_⟩
  rintro ⟨rows', hrows', hz⟩
  cases Except.ok.inj ((mapM_of_tuples hrows).symm.trans hrows')
  exact of_decide_eq_true hne hz

open Scenario in
theorem run_binds_settlement_once :
    (∃ s, Transition.run (Proving.step 7) (Proving.initial Scenario.env) provingOnce = some s) ∧
      ∃ x ∈ Proving.storedIn Scenario.env 7 provingOnce, x.1.batchId = 31 ∧ Proving.Binds Scenario.env 7 x.1 x.2 := by
  have hrun : (Transition.trace (Proving.step 7) storing (Proving.initial Scenario.env) provingOnce).any (fun r =>
      (r.2.flatMap Prod.fst).any (fun x => decide (x.1.batchId = 31)) && r.2.all Prod.snd) = true := by decide +kernel
  obtain ⟨r, hr, hcheck⟩ := (Option.any_eq_true _ _).mp hrun
  obtain ⟨hany, hall⟩ := Bool.and_eq_true_iff.mp hcheck
  obtain ⟨x, hx, hid⟩ := List.any_eq_true.mp hany
  have hstored : x ∈ Proving.storedIn Scenario.env 7 provingOnce := by
    rw [← Transition.trace_collect hr Prod.fst] at hx
    exact hx
  have hw := Transition.trace_run hr
  have hfirst := Transition.trace_meets hr (List.all_eq_true.mp hall)
  exact ⟨⟨r.1, hw⟩, x, hstored, of_decide_eq_true hid, (Proving.run_binds_settlement hw hfirst x hstored).1⟩

end DarkPool
