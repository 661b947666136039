import DarkPool.StepEffect

namespace DarkPool

variable {env : Env}

/-- A call that is not in the fold loop. -/
def Task.Outside : Task env → Prop
  | .folding _ _ _ => False
  | _ => True

namespace World

/-- The call in progress the section belongs to. -/
def taskOf (w : World env) (a : Action) : Option (Task env) := a.task.bind (fun i => w.tasks[i]?)

/-- How the fold loop takes the aggregation at the head of its queue from one stage to the next. -/
inductive Advances (w w' : World env) (p : PendingAggregation) : Action → FoldStage → FoldStage → Prop
  | witness {i : Nat} {witness : BatchWitness}
      (built : buildBatchWitness w.secrets p.batchId p.auctionId p.matchList p.orders = .ok witness) :
      Advances w w' p (.foldWitness i) .start (.witnessed witness)
  | inputs {i : Nat} {witness : BatchWitness} {ext : AuctionExternalInputs}
      (built : fromWitnessWithAdmitted env witness (p.matchList.map Match.price) (p.matchList.map Match.size)
        engineBatchSize (admittedCommitments w.secrets p.admittedOrderIds) = .ok ext) :
      Advances w w' p (.foldInputs i) (.witnessed witness) (.encoded ext)
  | fold {i : Nat} {ext : AuctionExternalInputs} : Advances w w' p (.foldStep i true) (.encoded ext) (.folded ext.inputRoot)
  | count {i : Nat} {root : Bytes} :
      Advances w w' p (.foldCount i) (.folded root) (.counted root ((w.ivcRound.lookup p.pair).getD 0 + 1))
  | log {i : Nat} {now : Now} {clock : DateTime} {ok : Bool} {root : Bytes} {round : Nat}
      (due : round % w.finalizeEvery = 0) : Advances w w' p (.foldLog i now clock ok) (.counted root round) .finalizing
  | finalize {i : Nat} {proof : FinalProof} : Advances w w' p (.foldFinalize i (some proof)) .finalizing (.proved proof)
  | rows {i : Nat} {proof : FinalProof} {rows : List SettlementMatch} (built : buildSettlementMatches p w.state = .ok rows) :
      Advances w w' p (.foldRows i) (.proved proof) (.resolved proof rows)
  | submit {i : Nat} {clock : DateTime} {ok : Bool} {proof : FinalProof} {rows : List SettlementMatch} {store : Store}
      (done : finalizePendingBatch w.state w.store clock ok p proof.proofBytes rows = .ok (w'.state, store)) :
      Advances w w' p (.foldSubmit i clock ok) (.resolved proof rows) (.submitted proof)

/-- Where the fold loop drops the aggregation at the head of its queue and goes on with the next. -/
inductive Abandons (w : World env) (p : PendingAggregation) : Action → FoldStage → Prop
  | witness {i : Nat} {e : EngineError}
      (failed : buildBatchWitness w.secrets p.batchId p.auctionId p.matchList p.orders = .error e) :
      Abandons w p (.foldWitness i) .start
  | inputs {i : Nat} {witness : BatchWitness} {e : ZkError}
      (failed : fromWitnessWithAdmitted env witness (p.matchList.map Match.price) (p.matchList.map Match.size)
        engineBatchSize (admittedCommitments w.secrets p.admittedOrderIds) = .error e) :
      Abandons w p (.foldInputs i) (.witnessed witness)
  | fold {i : Nat} {ext : AuctionExternalInputs} : Abandons w p (.foldStep i false) (.encoded ext)
  | log {i : Nat} {now : Now} {clock : DateTime} {ok : Bool} {root : Bytes} {round : Nat}
      (early : round % w.finalizeEvery ≠ 0) : Abandons w p (.foldLog i now clock ok) (.counted root round)
  | finalize {i : Nat} : Abandons w p (.foldFinalize i none) .finalizing
  | rows {i : Nat} {proof : FinalProof} {e : EngineError} (failed : buildSettlementMatches p w.state = .error e) :
      Abandons w p (.foldRows i) (.proved proof)
  | submit {i : Nat} {clock : DateTime} {ok : Bool} {proof : FinalProof} {rows : List SettlementMatch} {e : EngineError}
      (failed : finalizePendingBatch w.state w.store clock ok p proof.proofBytes rows = .error e) :
      Abandons w p (.foldSubmit i clock ok) (.resolved proof rows)

/-- What a section can do to the fold loops that are running: the tasks `olds` give way to `news`. -/
inductive Turn (w w' : World env) : Action → List (Task env) → List (Task env) → Prop
  | outside {a : Action} {olds news : List (Task env)} (own : ∀ t ∈ w.taskOf a, t.Outside)
      (before : ∀ t ∈ olds, t.Outside) (after : ∀ t ∈ news, t.Outside) : Turn w w' a olds news
  | starts {t : TickUnderLock} (tick : w.tick = some t) : Turn w w' .tickEnd [] [.folding t.pending .start []]
  | advances {a : Action} {p : PendingAggregation} {queue : List PendingAggregation} {stage stage' : FoldStage}
      {toSubmit : List Uuid} (advance : Advances w w' p a stage stage') :
      Turn w w' a [.folding (p :: queue) stage toSubmit] [.folding (p :: queue) stage' toSubmit]
  | abandons {a : Action} {p : PendingAggregation} {queue : List PendingAggregation} {stage : FoldStage}
      {toSubmit : List Uuid} (abandon : Abandons w p a stage) :
      Turn w w' a [.folding (p :: queue) stage toSubmit] [.folding queue .start toSubmit]
  | stores {i : Nat} {p : PendingAggregation} {queue : List PendingAggregation} {proof : FinalProof}
      {toSubmit : List Uuid} (state : w'.state = storePayload w.state p.batchId proof.payload) :
      Turn w w' (.foldPayload i) [.folding (p :: queue) (.submitted proof) toSubmit]
        [.folding queue .start (toSubmit ++ [p.batchId])]
  | ends {i : Nat} {toSubmit : List Uuid} :
      Turn w w' (.foldEnd i) [.folding [] .start toSubmit] [.submitting toSubmit .start (.resubmit toSubmit)]

/-- The section makes one of these turns, with the call it belongs to. -/
def Turns (w w' : World env) (a : Action) : Prop :=
  ∃ olds news, w.Replaces w' olds news ∧ Turn w w' a olds news ∧ ∀ t ∈ olds, w.taskOf a = some t

variable {w w' : World env} {i : Nat} {task t : Task env} {a : Action}

theorem turns_refl (ha : a.task = none) (h : w'.tasks = w.tasks) : Turns w w' a :=
  ⟨_, _, replaces_refl h, .outside (by simp [taskOf, ha]) (by simp) (by simp), by simp⟩

theorem turns_spawn (ha : a.task = none) (h : w'.tasks = w.tasks ++ [t]) (ht : t.Outside) : Turns w w' a :=
  ⟨_, _, replaces_spawn h, .outside (by simp [taskOf, ha]) (by simp) (by simpa using ht), by simp⟩

section Task

variable (ha : a.task = some i) (hi : w.tasks[i]? = some task)
include ha hi

theorem taskOf_eq : w.taskOf a = some task := by rw [taskOf, ha, Option.bind_some, hi]

theorem turns_set (h : w'.tasks = w.tasks.set i t) (hturn : Turn w w' a [task] [t]) : Turns w w' a :=
  ⟨_, _, replaces_setTask hi h, hturn, by simpa using taskOf_eq ha hi⟩

theorem turns_set_outside (h : w'.tasks = w.tasks.set i t) (htask : task.Outside) (ht : t.Outside) : Turns w w' a :=
  turns_set ha hi h (.outside (by simpa [taskOf_eq ha hi] using htask) (by simpa using htask) (by simpa using ht))

theorem turns_end (h : w'.tasks = w.tasks.eraseIdx i) (htask : task.Outside) : Turns w w' a :=
  ⟨_, _, replaces_endTask hi h, .outside (by simpa [taskOf_eq ha hi] using htask) (by simpa using htask) (by simp),
    by simpa using taskOf_eq ha hi⟩

end Task

theorem stepTaskFree_turns (ha : a.task = some i) (hi : w.tasks[i]? = some task)
    (h : w.stepTaskFree i task a = some w') : Turns w w' a := by
  cases a with
  | dropSecret j =>
    simp only [stepTaskFree] at h
    split at h
    next =>
      cases Option.some.inj h
      exact turns_end ha hi rfl trivial
    next =>
      cases Option.some.inj h
      exact turns_set_outside ha hi rfl trivial trivial
    next => simp at h
  | foldWitness j =>
    simp only [stepTaskFree] at h
    split at h
    next p queue toSubmit =>
      split at h
      next witness hwit =>
        cases Option.some.inj h
        exact turns_set ha hi rfl (.advances (.witness hwit))
      next e herr =>
        cases Option.some.inj h
        exact turns_set ha hi rfl (.abandons (.witness herr))
    next => simp at h
  | foldInputs j =>
    simp only [stepTaskFree] at h
    split at h
    next p queue witness toSubmit =>
      split at h
      next ext hext =>
        cases Option.some.inj h
        exact turns_set ha hi rfl (.advances (.inputs hext))
      next e herr =>
        cases Option.some.inj h
        exact turns_set ha hi rfl (.abandons (.inputs herr))
    next => simp at h
  | foldStep j ok =>
    simp only [stepTaskFree] at h
    split at h
    next p queue root toSubmit =>
      cases ok with
      | true =>
        cases Option.some.inj h
        exact turns_set ha hi rfl (.advances .fold)
      | false =>
        cases Option.some.inj h
        exact turns_set ha hi rfl (.abandons .fold)
    next => simp at h
  | foldCount j =>
    simp only [stepTaskFree] at h
    split at h
    next p queue root toSubmit =>
      cases Option.some.inj h
      exact turns_set ha hi rfl (.advances .count)
    next => simp at h
  | foldLog j now clock ok =>
    simp only [stepTaskFree] at h
    split at h
    next p queue root round toSubmit =>
      cases Option.some.inj h
      refine turns_set ha hi rfl ?_
      by_cases hdue : round % w.finalizeEvery = 0
      · rw [if_pos hdue]
        exact .advances (.log hdue)
      · rw [if_neg hdue]
        exact .abandons (.log hdue)
    next => simp at h
  | foldFinalize j proof =>
    simp only [stepTaskFree] at h
    split at h
    next p queue toSubmit =>
      split at h
      next proof =>
        cases Option.some.inj h
        exact turns_set ha hi rfl (.advances .finalize)
      next =>
        cases Option.some.inj h
        exact turns_set ha hi rfl (.abandons .finalize)
    next => simp at h
  | foldEnd j =>
    simp only [stepTaskFree] at h
    split at h
    next toSubmit =>
      cases Option.some.inj h
      exact turns_set ha hi rfl .ends
    next => simp at h
  | submitCall j txHash =>
    simp only [stepTaskFree] at h
    split at h
    next b ids batch after =>
      split at h <;> cases Option.some.inj h <;> exact turns_set_outside ha hi rfl trivial trivial
    next => simp at h
  | submitLog j now clock ok =>
    simp only [stepTaskFree] at h
    split at h
    next b ids tx after =>
      split at h <;> cases Option.some.inj h <;> exact turns_set_outside ha hi rfl trivial trivial
    next => simp at h
  | _ => simp [stepTaskFree] at h

theorem stepTaskLocked_turns (ha : a.task = some i) (hi : w.tasks[i]? = some task)
    (h : w.stepTaskLocked i task a = some w') : Turns w w' a := by
  cases a with
  | prepareOrder j id now oracle =>
    simp only [stepTaskLocked] at h
    split at h
    next ciphertext proof caller =>
      split at h
      next =>
        split at h
        next =>
          cases Option.some.inj h
          exact turns_end ha hi rfl trivial
        next balance position =>
          split at h
          next =>
            cases Option.some.inj h
            exact turns_set_outside ha hi rfl trivial trivial
          next =>
            cases Option.some.inj h
            exact turns_end ha hi rfl trivial
      next => simp at h
    next => simp at h
  | persistOrder j clock ok =>
    simp only [stepTaskLocked] at h
    split at h
    next order => split at h <;> cases Option.some.inj h <;> exact turns_end ha hi rfl trivial
    next => simp at h
  | foldRows j =>
    simp only [stepTaskLocked] at h
    split at h
    next p queue proof toSubmit =>
      split at h
      next rows hrows =>
        cases Option.some.inj h
        exact turns_set ha hi rfl (.advances (.rows hrows))
      next e herr =>
        cases Option.some.inj h
        exact turns_set ha hi rfl (.abandons (.rows herr))
    next => simp at h
  | foldSubmit j clock ok =>
    simp only [stepTaskLocked] at h
    split at h
    next p queue proof rows toSubmit =>
      split at h
      next st store hst =>
        cases Option.some.inj h
        exact turns_set ha hi rfl (.advances (.submit hst))
      next e herr =>
        cases Option.some.inj h
        exact turns_set ha hi rfl (.abandons (.submit herr))
    next => simp at h
  | foldPayload j =>
    simp only [stepTaskLocked] at h
    split at h
    next p queue proof toSubmit =>
      cases Option.some.inj h
      exact turns_set ha hi rfl (.stores rfl)
    next => simp at h
  | submitStart j =>
    simp only [stepTaskLocked] at h
    split at h
    next b ids after => split at h <;> cases Option.some.inj h <;> exact turns_set_outside ha hi rfl trivial trivial
    next => simp at h
  | submitApply j =>
    simp only [stepTaskLocked] at h
    split at h
    next =>
      cases Option.some.inj h
      exact turns_set_outside ha hi rfl trivial trivial
    next => simp at h
  | submitFail j now =>
    simp only [stepTaskLocked] at h
    split at h
    next =>
      cases Option.some.inj h
      exact turns_set_outside ha hi rfl trivial trivial
    next => simp at h
  | submitEnd j now batchIds =>
    simp only [stepTaskLocked] at h
    split at h
    next skip =>
      split at h
      next =>
        cases Option.some.inj h
        exact turns_set_outside ha hi rfl trivial trivial
      next => simp at h
    next =>
      cases Option.some.inj h
      exact turns_end ha hi rfl trivial
    next =>
      cases Option.some.inj h
      exact turns_end ha hi rfl trivial
    next => simp at h
  | settleApply j =>
    simp only [stepTaskLocked] at h
    split at h
    next =>
      cases Option.some.inj h
      exact turns_end ha hi rfl trivial
    next => simp at h
  | _ => simp [stepTaskLocked] at h

theorem stepFree_turns (h : w.stepFree a = some w') : Turns w w' a := by
  cases a with
  | settleBatch b blockNumber txHash now clock ok =>
    simp only [stepFree] at h
    split at h
    next =>
      cases Option.some.inj h
      exact turns_spawn rfl rfl trivial
    next =>
      cases Option.some.inj h
      exact turns_refl rfl rfl
  | setFinalizeEvery n =>
    cases Option.some.inj h
    split
    next => exact turns_refl rfl rfl
    next => exact turns_refl rfl rfl
  | _ => simp [stepFree] at h

theorem stepTick_turns {tick : TickUnderLock} (ht : w.tick = some tick) (h : w.stepTick tick a = some w') :
    Turns w w' a := by
  cases a with
  | tickPair auctionId batchIds clock ok =>
    simp only [stepTick] at h
    split at h
    next => simp at h
    next pair pairs hpairs =>
      split at h
      next =>
        split at h
        next =>
          cases Option.some.inj h
          exact turns_refl rfl rfl
        next =>
          split at h
          next => split at h <;> cases Option.some.inj h <;> exact turns_refl rfl rfl
          next => simp at h
      next => simp at h
  | tickEnd =>
    simp only [stepTick] at h
    split at h
    next =>
      cases Option.some.inj h
      exact ⟨_, _, replaces_spawn rfl, .starts ht, by simp⟩
    next => simp at h
  | _ => simp [stepTick] at h

theorem lockedCall_tasks (w : World env) (call : Except EngineError (EngineState × Store)) :
    (w.lockedCall call).tasks = w.tasks := by
  unfold lockedCall
  split
  next => rfl
  next => rfl

theorem stepLocked_turns (h : w.stepLocked a = some w') : Turns w w' a := by
  cases a with
  | registerPair pair config now clock ok =>
    cases Option.some.inj h
    exact turns_refl rfl (lockedCall_tasks w _)
  | suspendPair pair now clock ok =>
    cases Option.some.inj h
    exact turns_refl rfl (lockedCall_tasks w _)
  | delistPair pair openIds now clock ok =>
    simp only [stepLocked] at h
    split at h
    next =>
      cases Option.some.inj h
      exact turns_refl rfl rfl
    next =>
      split at h
      next =>
        split at h
        next =>
          cases Option.some.inj h
          exact turns_spawn rfl rfl trivial
        next =>
          cases Option.some.inj h
          exact turns_refl rfl rfl
      next => simp at h
  | cancelOrder orderId reason now clock ok =>
    simp only [stepLocked] at h
    split at h
    next =>
      cases Option.some.inj h
      exact turns_spawn rfl rfl trivial
    next =>
      cases Option.some.inj h
      exact turns_refl rfl rfl
  | placeOrder ciphertext proof caller =>
    simp only [stepLocked] at h
    split at h
    next =>
      cases Option.some.inj h
      exact turns_refl rfl rfl
    next =>
      cases Option.some.inj h
      exact turns_spawn rfl rfl trivial
  | tickStart now clock ok expired =>
    simp only [stepLocked] at h
    split at h
    next =>
      cases Option.some.inj h
      exact turns_refl rfl rfl
    next => simp at h
  | submitBatch b =>
    cases Option.some.inj h
    exact turns_spawn rfl rfl trivial
  | resubmitPending batchIds =>
    simp only [stepLocked] at h
    split at h
    next =>
      cases Option.some.inj h
      exact turns_spawn rfl rfl trivial
    next => simp at h
  | _ => simp [stepLocked] at h

/-- Whatever section runs, the fold loops make one of the listed turns. -/
theorem step_turns (h : w.step a = some w') : Turns w w' a := by
  unfold step at h
  split at h
  next i ha =>
    split at h
    next => simp at h
    next task hi =>
      split at h
      next w1 hfree =>
        cases Option.some.inj h
        exact stepTaskFree_turns ha hi hfree
      next =>
        split at h
        next => exact stepTaskLocked_turns ha hi h
        next => simp at h
  next =>
    split at h
    next w1 hfree =>
      cases Option.some.inj h
      exact stepFree_turns hfree
    next =>
      split at h
      next t ht => exact stepTick_turns ht h
      next ht => exact stepLocked_turns h

/-- A property that holds of every call outside the fold loop, and that every turn of a loop carries over,
holds of all calls in progress. -/
theorem step_tasks {P P' : Task env → Prop} (hstep : w.step a = some w') (hall : ∀ t ∈ w.tasks, P t)
    (hkeep : ∀ t, P t → P' t) (hout : ∀ t : Task env, t.Outside → P' t)
    (hturn : ∀ olds news, Turn w w' a olds news → (∀ t ∈ olds, t ∈ w.tasks ∧ w.taskOf a = some t) →
      ∀ t ∈ news, t.Outside ∨ P' t) : ∀ t ∈ w'.tasks, P' t := by
  obtain ⟨olds, news, ⟨rest, hw, hw'⟩, ht, holds⟩ := step_turns hstep
  have hmem : ∀ t ∈ olds, t ∈ w.tasks ∧ w.taskOf a = some t :=
    fun t ht => ⟨hw.mem_iff.mpr (List.mem_append_left _ ht), holds t ht⟩
  intro t htask
  rcases List.mem_append.mp (hw'.mem_iff.mp htask) with hnew | hrest
  · exact (hturn olds news ht hmem t hnew).elim (hout t) id
  · exact hkeep t (hall t (hw.mem_iff.mpr (List.mem_append_right _ hrest)))

end World

end DarkPool
