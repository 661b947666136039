import DarkPool.BatchIds

namespace DarkPool

variable {env : Env}

namespace Task

/-- The batch whose submitting flag the call has taken and not given back. -/
def holds : Task env → List Uuid
  | .submitting (b :: _) (.calling _) _ | .submitting (b :: _) (.sent _) _ | .submitting (b :: _) (.confirmed _) _
  | .submitting (b :: _) .failed _ => [b]
  | _ => []

/-- The batch for which the call has yet to hear from the submitter. -/
def awaits : Task env → List Uuid
  | .submitting (b :: _) (.calling _) _ => [b]
  | _ => []

theorem holds_start (ids : List Uuid) (after : AfterSubmit) : (submitting ids .start after : Task env).holds = [] := by
  cases ids <;> rfl

theorem awaits_start (ids : List Uuid) (after : AfterSubmit) : (submitting ids .start after : Task env).awaits = [] := by
  cases ids <;> rfl

theorem awaits_sublist_holds (t : Task env) : t.awaits.Sublist t.holds := by
  match t with
  | .submitting (b :: _) (.calling _) _ => exact List.Sublist.refl _
  | .submitting (b :: _) .start _ | .submitting (b :: _) (.sent _) _ | .submitting (b :: _) (.confirmed _) _
  | .submitting (b :: _) .failed _ | .submitting [] _ _ | .placing _ _ _ | .prepared _ | .dropping _ | .folding _ _ _
  | .settling _ _ => exact List.nil_sublist _

end Task

/-- Whether a pending batch is marked as being submitted. -/
def EngineState.flag (st : EngineState) (b : Uuid) : Option Bool :=
  (st.pendingBatches.lookup b).map PendingBatch.submitting

namespace World

def holders (w : World env) : List Uuid := w.tasks.flatMap Task.holds

def awaited (w : World env) : List Uuid := w.tasks.flatMap Task.awaits

theorem awaited_sublist_holders (w : World env) : w.awaited.Sublist w.holders := by
  unfold awaited holders
  induction w.tasks with
  | nil => exact List.Sublist.slnil
  | cons t ts ih => exact t.awaits_sublist_holds.append ih

/-- The batch whose submitter answers in the section. -/
def answered (w : World env) (a : Action) : Option Uuid :=
  match a with
  | .submitCall _ _ => (w.taskOf a).bind (fun t => t.awaits.head?)
  | _ => none

/-- What a section can do to the submissions in progress and to the flags they guard themselves with. -/
inductive Guard (w w' : World env) (a : Action) : Prop
  | keeps (silent : w.answered a = none) (holders : w'.holders.Perm w.holders) (awaited : w'.awaited.Perm w.awaited)
      (flags : w'.state.flag = w.state.flag)
  | poisons (b : Uuid) (silent : w.answered a = none) (holders : w'.holders.Perm w.holders)
      (awaited : w'.awaited.Perm w.awaited) (flags : w'.state.flag = Function.update w.state.flag b (some true))
      (free : w.state.flag b = some false)
  | takes (b : Uuid) (silent : w.answered a = none) (free : w.state.flag b = some false)
      (holders : w'.holders.Perm (b :: w.holders)) (awaited : w'.awaited.Perm (b :: w.awaited))
      (flags : w'.state.flag = Function.update w.state.flag b (some true))
  | answers (b : Uuid) (answered : w.answered a = some b) (holders : w'.holders.Perm w.holders)
      (awaited : w.awaited.Perm (b :: w'.awaited)) (flags : w'.state.flag = w.state.flag)
  | releases (b : Uuid) (silent : w.answered a = none) (holders : w.holders.Perm (b :: w'.holders))
      (awaited : w'.awaited.Perm w.awaited)
      (flags : w'.state.flag = Function.update w.state.flag b ((w.state.flag b).map (fun _ => false)))
  | closes (b : Uuid) (silent : w.answered a = none) (holders : w'.holders.Subperm w.holders)
      (awaited : w'.awaited.Perm w.awaited) (flags : w'.state.flag = Function.update w.state.flag b none)
  | inserts (p : PendingAggregation) (silent : w.answered a = none) (submits : w.submits a = some p)
      (holders : w'.holders.Perm w.holders) (awaited : w'.awaited.Perm w.awaited)
      (flags : w'.state.flag = Function.update w.state.flag p.batchId (some false))

end World

section Flags

variable {st st' : EngineState}

theorem flag_congr (h : st'.pendingBatches = st.pendingBatches) : st'.flag = st.flag := by
  funext b
  rw [EngineState.flag, EngineState.flag, h]

theorem flag_insert (b : Uuid) (pb : PendingBatch) (h : st'.pendingBatches = st.pendingBatches.insert b pb) :
    st'.flag = Function.update st.flag b (some pb.submitting) := by
  funext b'
  rw [EngineState.flag, h, Table.lookup_insert_eq, Function.update_apply]
  split <;> rfl

theorem flag_modify (b : Uuid) (f : PendingBatch → PendingBatch)
    (h : st'.pendingBatches = st.pendingBatches.modify b f) {x : Option Bool}
    (hf : (st.pendingBatches.lookup b).map (fun pb => (f pb).submitting) = x) : st'.flag = Function.update st.flag b x := by
  funext b'
  rw [EngineState.flag, h, Table.lookup_modify_eq, Function.update_apply]
  split
  next heq => rw [heq, Option.map_map, ← hf]; rfl
  next => rfl

theorem flag_closeBatch (b : Uuid) (ev : Event) : (closeBatch st b ev).flag = Function.update st.flag b none := by
  funext b'
  unfold closeBatch
  rw [EngineState.flag, EngineState.withPendingBatches, Table.lookup_erase_eq, Function.update_apply]
  split <;> rfl

theorem flag_storePayload (b : Uuid) (payload : ProofPayload) : (storePayload st b payload).flag = st.flag := by
  rw [flag_modify b (fun pb => pb.withPayload payload) rfl (x := st.flag b) rfl, Function.update_eq_self]

theorem flag_noteSubmitFailure (b : Uuid) (now : Instant) :
    (noteSubmitFailure st b now).flag = Function.update st.flag b ((st.flag b).map (fun _ => false)) :=
  flag_modify b _ rfl (by rw [EngineState.flag, Option.map_map]; rfl)

variable {store store' : Store} {now clock : DateTime} {ok : Bool}

theorem registerPairWithEvent_pending {pair : String} {config : PairConfig}
    (h : registerPairWithEvent st store now clock ok pair config = .ok (st', store')) :
    st'.pendingBatches = st.pendingBatches := by
  simp only [registerPairWithEvent, bind_eq_ok, guard_eq_ok] at h
  obtain ⟨_, -, -, _, -, h⟩ := h
  cases Except.ok.inj h
  rfl

theorem suspendPair_pending {pair : String} (h : DarkPool.suspendPair st store now clock ok pair = .ok (st', store')) :
    st'.pendingBatches = st.pendingBatches := by
  obtain ⟨key, -, h⟩ := bind_eq_ok.mp h
  split at h
  next => cases h
  next =>
    split at h
    next =>
      cases Except.ok.inj h
      rfl
    next => cases h
    next =>
      obtain ⟨_, -, h⟩ := bind_eq_ok.mp h
      cases Except.ok.inj h
      rfl

theorem delistPair_pending {pair : String} {openIds dropped : List Uuid}
    (h : DarkPool.delistPair st store now clock ok pair openIds = .ok (st', store', dropped)) :
    st'.pendingBatches = st.pendingBatches := by
  obtain ⟨key, -, h⟩ := bind_eq_ok.mp h
  split at h
  next => cases h
  next =>
    split at h
    next =>
      cases Except.ok.inj h
      rfl
    next =>
      obtain ⟨_, -, h⟩ := bind_eq_ok.mp h
      cases Except.ok.inj h
      rfl

theorem cancelOrder_pending {orderId : Uuid} {reason : Option String}
    (h : DarkPool.cancelOrder st store now clock ok orderId reason = .ok (st', store')) :
    st'.pendingBatches = st.pendingBatches := by
  unfold DarkPool.cancelOrder at h
  split at h
  next =>
    obtain ⟨_, -, h⟩ := bind_eq_ok.mp h
    cases Except.ok.inj h
    rfl
  next => cases h

theorem expireOrders_pending (st : EngineState) (store : Store) (now clock : DateTime) (ok : Bool) (expired : List Event) :
    (expireOrders st store now clock ok expired).1.pendingBatches = st.pendingBatches := by
  unfold expireOrders
  split
  next => rfl
  next => split <;> rfl

theorem recordRound_pending {result : AuctionResult} {batchIds : List Uuid} {pending : List PendingAggregation}
    (h : recordRound st store now clock ok result batchIds = some (st', store', pending)) :
    st'.pendingBatches = st.pendingBatches := by
  unfold recordRound at h
  simp only at h
  split at h
  next => cases h
  next =>
    cases Option.some.inj h
    rfl

theorem persistOrderPlaced_pending {secrets secrets' : Table Uuid OrderSecrets} {p : Placement}
    (h : persistOrderPlaced st store clock ok env secrets p = .ok (st', store', secrets')) :
    st'.pendingBatches = st.pendingBatches := by
  simp only [persistOrderPlaced, bind_eq_ok] at h
  obtain ⟨_, -, _, -, _, -, _, -, h⟩ := h
  cases Except.ok.inj h
  rfl

theorem finalizePendingBatch_pending {p : PendingAggregation} {proof : Bytes} {rows : List SettlementMatch}
    (h : finalizePendingBatch st store clock ok p proof rows = .ok (st', store')) :
    st'.pendingBatches =
      st.pendingBatches.insert p.batchId (newPendingBatch p.batchId p.auctionId p.matchList rows proof) := by
  simp only [finalizePendingBatch, bind_eq_ok] at h
  obtain ⟨_, -, h⟩ := h
  cases Except.ok.inj h
  rfl

end Flags

namespace World

variable {w w' : World env} {i : Nat} {task : Task env} {a : Action} {olds news : List (Task env)}

theorem Replaces.perm_of_eq (h : w.Replaces w' olds news) {α : Type} {f : Task env → List α}
    (hf : news.flatMap f = olds.flatMap f) : (w'.tasks.flatMap f).Perm (w.tasks.flatMap f) := by
  obtain ⟨rest, hw, hw'⟩ := h.flatMap f
  rw [hf] at hw'
  exact hw'.trans hw.symm

section Keeps

variable {t : Task env}

/-- A section that touches no submission leaves holders, callers and flags alone. -/
theorem keeps_refl (hsilent : w.answered a = none) (htasks : w'.tasks = w.tasks)
    (hpending : w'.state.pendingBatches = w.state.pendingBatches) :
    Guard w w' a :=
  .keeps hsilent ((replaces_refl htasks).perm_of_eq rfl) ((replaces_refl htasks).perm_of_eq rfl) (flag_congr hpending)

theorem keeps_spawn (hsilent : w.answered a = none) (htasks : w'.tasks = w.tasks ++ [t]) (hholds : t.holds = []) (hawaits : t.awaits = [])
    (hpending : w'.state.pendingBatches = w.state.pendingBatches) : Guard w w' a :=
  .keeps hsilent ((replaces_spawn htasks).perm_of_eq (by simp [hholds]))
    ((replaces_spawn htasks).perm_of_eq (by simp [hawaits]))
    (flag_congr hpending)

theorem keeps_setTask (hsilent : w.answered a = none) (hi : w.tasks[i]? = some task) (htasks : w'.tasks = w.tasks.set i t)
    (hholds : t.holds = task.holds) (hawaits : t.awaits = task.awaits)
    (hpending : w'.state.pendingBatches = w.state.pendingBatches) : Guard w w' a :=
  .keeps hsilent ((replaces_setTask hi htasks).perm_of_eq (by simp [hholds]))
    ((replaces_setTask hi htasks).perm_of_eq (by simp [hawaits])) (flag_congr hpending)

theorem keeps_endTask (hsilent : w.answered a = none) (hi : w.tasks[i]? = some task) (htasks : w'.tasks = w.tasks.eraseIdx i)
    (hholds : task.holds = []) (hawaits : task.awaits = [])
    (hpending : w'.state.pendingBatches = w.state.pendingBatches) : Guard w w' a :=
  .keeps hsilent ((replaces_endTask hi htasks).perm_of_eq (by simp [hholds]))
    ((replaces_endTask hi htasks).perm_of_eq (by simp [hawaits])) (flag_congr hpending)

end Keeps

theorem stepTaskFree_guard (hi : w.tasks[i]? = some task) (ha : a.task = some i)
    (h : w.stepTaskFree i task a = some w') : Guard w w' a := by
  have hstate := (stepTaskFree_locked h).2
  cases a with
  | submitCall j txHash =>
    simp only [stepTaskFree] at h
    split at h
    next b ids batch after =>
      have hanswers : ∀ t : Task env, w'.tasks = w.tasks.set i t → t.holds = [b] → t.awaits = [] →
          Guard w w' (.submitCall j txHash) := by
        intro t htasks hholds hawaits
        have hreplaces := replaces_setTask hi htasks
        obtain ⟨rest, hw, hw'⟩ := hreplaces.flatMap Task.awaits
        rw [List.flatMap_singleton, hawaits] at hw'
        rw [List.flatMap_singleton] at hw
        refine .answers b (by rw [answered, taskOf_eq ha hi]; rfl) (hreplaces.perm_of_eq ?_)
          (hw.trans (hw'.symm.cons b)) (by rw [hstate])
        rw [List.flatMap_singleton, List.flatMap_singleton, hholds]
        rfl
      split at h
      next => cases Option.some.inj h; exact hanswers _ rfl rfl rfl
      next => cases Option.some.inj h; exact hanswers _ rfl rfl rfl
    next => cases h
  | foldEnd j =>
    simp only [stepTaskFree] at h
    split at h
    next toSubmit =>
      cases Option.some.inj h
      exact keeps_setTask rfl hi rfl (Task.holds_start _ _) (Task.awaits_start _ _) rfl
    next => cases h
  | _ =>
    simp only [stepTaskFree] at h
    repeat' split at h
    all_goals first
      | (cases Option.some.inj h; exact keeps_setTask rfl hi rfl rfl rfl rfl)
      | (cases Option.some.inj h; exact keeps_endTask rfl hi rfl rfl rfl rfl)
      | cases h

theorem stepFree_guard (h : w.stepFree a = some w') : Guard w w' a := by
  unfold stepFree at h
  repeat' split at h
  all_goals first
    | (cases Option.some.inj h; exact keeps_refl rfl rfl rfl)
    | (cases Option.some.inj h; exact keeps_spawn rfl rfl rfl rfl rfl)
    | cases h

/-- A submission gives its flag back, or its batch is gone. -/
theorem holders_setTask (hi : w.tasks[i]? = some task) {t : Task env} (htasks : w'.tasks = w.tasks.set i t) {b : Uuid}
    (hold : task.holds = [b]) (hnew : t.holds = []) : w.holders.Perm (b :: w'.holders) := by
  obtain ⟨rest, hw, hw'⟩ := (replaces_setTask hi htasks).flatMap Task.holds
  rw [List.flatMap_singleton, hold] at hw
  rw [List.flatMap_singleton, hnew] at hw'
  exact hw.trans (hw'.symm.cons b)

theorem submitStart_guard (hi : w.tasks[i]? = some task) {j : Nat}
    (h : w.stepTaskLocked i task (.submitStart j) = some w') : Guard w w' (.submitStart j) := by
  simp only [stepTaskLocked] at h
  split at h
  next b ids after =>
    unfold acquireSubmit at h
    cases hpb : w.state.pendingBatches.lookup b with
    | none =>
      rw [hpb] at h
      cases Option.some.inj h
      exact keeps_setTask rfl hi rfl (Task.holds_start _ _) (Task.awaits_start _ _) rfl
    | some pb =>
      rw [hpb] at h
      dsimp only at h
      by_cases hsub : pb.submitting = true
      · rw [if_pos hsub] at h
        cases Option.some.inj h
        exact keeps_setTask rfl hi rfl (Task.holds_start _ _) (Task.awaits_start _ _) rfl
      · rw [if_neg hsub] at h
        have hfree : w.state.flag b = some false := by simp [EngineState.flag, hpb, hsub]
        have hflags : ∀ st' : EngineState, st'.pendingBatches = w.state.pendingBatches.modify b PendingBatch.markSubmitting →
            st'.flag = Function.update w.state.flag b (some true) :=
          fun st' hst' => flag_modify b _ hst' (by rw [hpb]; rfl)
        by_cases hpoison : pb.poisoned = true
        · simp only [hpoison, if_true] at h
          cases Option.some.inj h
          have hreplaces : w.Replaces ((w.withState (w.state.withPendingBatches
            (w.state.pendingBatches.modify b PendingBatch.markSubmitting))).setTask i (.submitting ids .start after))
            _ _ := replaces_setTask hi rfl
          refine .poisons b rfl (hreplaces.perm_of_eq ?_) (hreplaces.perm_of_eq ?_) (hflags _ rfl) hfree
          · simp [Task.holds_start]
          · simp [Task.awaits_start]
        · simp only [hpoison, Bool.false_eq_true, if_false] at h
          cases Option.some.inj h
          have hreplaces : w.Replaces ((w.withState (w.state.withPendingBatches
            (w.state.pendingBatches.modify b PendingBatch.markSubmitting))).setTask i
            (.submitting (b :: ids) (.calling pb) after)) _ _ := replaces_setTask hi rfl
          obtain ⟨rest, hw, hw'⟩ := hreplaces.flatMap Task.holds
          obtain ⟨rest', hc, hc'⟩ := hreplaces.flatMap Task.awaits
          rw [List.flatMap_singleton, Task.holds_start] at hw
          rw [List.flatMap_singleton, Task.awaits_start] at hc
          exact .takes b rfl hfree (hw'.trans (hw.symm.cons b)) (hc'.trans (hc.symm.cons b)) (hflags _ rfl)
  next => cases h

theorem stepTaskLocked_guard (hi : w.tasks[i]? = some task) (ha : a.task = some i)
    (h : w.stepTaskLocked i task a = some w') : Guard w w' a := by
  cases a with
  | submitStart j => exact submitStart_guard hi h
  | persistOrder j clock ok =>
    simp only [stepTaskLocked] at h
    split at h
    next order =>
      split at h
      next st store secrets hpersist =>
        cases Option.some.inj h
        exact keeps_endTask rfl hi rfl rfl rfl (persistOrderPlaced_pending hpersist)
      next =>
        cases Option.some.inj h
        exact keeps_endTask rfl hi rfl rfl rfl rfl
    next => cases h
  | foldSubmit j clock ok =>
    cases Option.some.inj ha
    simp only [stepTaskLocked] at h
    split at h
    next p queue proof rows toSubmit =>
      have hsubmits : w.submits (.foldSubmit i clock ok) = some p := by simp only [submits, hi]
      split at h
      next st store hfinal =>
        cases Option.some.inj h
        have hreplaces : w.Replaces ((w.withCore st store).setTask i (.folding (p :: queue) (.submitted proof) toSubmit))
          _ _ := replaces_setTask hi rfl
        exact .inserts p rfl hsubmits (hreplaces.perm_of_eq rfl) (hreplaces.perm_of_eq rfl)
          (flag_insert _ _ (finalizePendingBatch_pending hfinal))
      next =>
        cases Option.some.inj h
        exact keeps_setTask rfl hi rfl rfl rfl rfl
    next => cases h
  | foldPayload j =>
    simp only [stepTaskLocked] at h
    split at h
    next p queue proof toSubmit =>
      cases Option.some.inj h
      have hreplaces : w.Replaces ((w.withState (storePayload w.state p.batchId proof.payload)).setTask i
        (.folding queue .start (toSubmit ++ [p.batchId]))) _ _ := replaces_setTask hi rfl
      exact .keeps rfl (hreplaces.perm_of_eq rfl) (hreplaces.perm_of_eq rfl) (flag_storePayload _ _)
    next => cases h
  | submitApply j =>
    simp only [stepTaskLocked] at h
    split at h
    next b ids event after =>
      cases Option.some.inj h
      have hholders : w.holders.Perm (b :: ((w.withState (closeBatch w.state b event)).setTask i
        (.submitting ids .start after)).holders) := holders_setTask hi rfl rfl (Task.holds_start _ _)
      refine .closes b rfl ((List.sublist_cons_self b _).subperm.trans hholders.symm.subperm)
        ((replaces_setTask hi rfl).perm_of_eq ?_) (flag_closeBatch b event)
      simp [Task.awaits_start]
      rfl
    next => cases h
  | submitFail j now =>
    simp only [stepTaskLocked] at h
    split at h
    next b ids after =>
      cases Option.some.inj h
      refine .releases b rfl (holders_setTask hi rfl rfl (Task.holds_start _ _))
        ((replaces_setTask hi rfl).perm_of_eq ?_) (flag_noteSubmitFailure b now)
      simp [Task.awaits_start]
      rfl
    next => cases h
  | submitEnd j now batchIds =>
    simp only [stepTaskLocked] at h
    split at h
    next skip =>
      split at h
      next =>
        cases Option.some.inj h
        exact keeps_setTask rfl hi rfl (Task.holds_start _ _) (Task.awaits_start _ _) rfl
      next => cases h
    next =>
      cases Option.some.inj h
      exact keeps_endTask rfl hi rfl rfl rfl rfl
    next =>
      cases Option.some.inj h
      exact keeps_endTask rfl hi rfl rfl rfl rfl
    next => cases h
  | settleApply j =>
    simp only [stepTaskLocked] at h
    split at h
    next b event =>
      cases Option.some.inj h
      have hreplaces : w.Replaces ((w.withState (closeBatch w.state b event)).endTask i) _ _ := replaces_endTask hi rfl
      exact .closes b rfl (hreplaces.perm_of_eq rfl).subperm (hreplaces.perm_of_eq rfl) (flag_closeBatch b event)
    next => cases h
  | _ =>
    simp only [stepTaskLocked] at h
    repeat' split at h
    all_goals first
      | (cases Option.some.inj h; exact keeps_setTask rfl hi rfl rfl rfl rfl)
      | (cases Option.some.inj h; exact keeps_endTask rfl hi rfl rfl rfl rfl)
      | cases h

theorem stepTick_guard {t : TickUnderLock} (h : w.stepTick t a = some w') : Guard w w' a := by
  cases a with
  | tickPair auctionId batchIds clock ok =>
    simp only [stepTick] at h
    split at h
    next => cases h
    next =>
      split at h
      next =>
        split at h
        next =>
          cases Option.some.inj h
          exact keeps_refl rfl rfl rfl
        next =>
          split at h
          next =>
            split at h
            next =>
              cases Option.some.inj h
              exact keeps_refl rfl rfl rfl
            next st store pending hrecord =>
              cases Option.some.inj h
              exact keeps_refl rfl rfl (recordRound_pending hrecord)
          next => cases h
      next => cases h
  | tickEnd =>
    simp only [stepTick] at h
    split at h
    next =>
      cases Option.some.inj h
      exact keeps_spawn rfl rfl rfl rfl rfl
    next => cases h
  | _ => simp [stepTick] at h

theorem stepLocked_guard (h : w.stepLocked a = some w') : Guard w w' a := by
  cases a with
  | registerPair pair config now clock ok =>
    simp only [stepLocked] at h
    cases Option.some.inj h
    unfold lockedCall
    split
    next st store hcall => exact keeps_refl rfl rfl (registerPairWithEvent_pending hcall)
    next => exact keeps_refl rfl rfl rfl
  | suspendPair pair now clock ok =>
    simp only [stepLocked] at h
    cases Option.some.inj h
    unfold lockedCall
    split
    next st store hcall => exact keeps_refl rfl rfl (suspendPair_pending hcall)
    next => exact keeps_refl rfl rfl rfl
  | delistPair pair openIds now clock ok =>
    simp only [stepLocked] at h
    split at h
    next =>
      cases Option.some.inj h
      exact keeps_refl rfl rfl rfl
    next =>
      split at h
      next =>
        split at h
        next st store dropped hcall =>
          cases Option.some.inj h
          exact keeps_spawn rfl rfl rfl rfl (delistPair_pending hcall)
        next =>
          cases Option.some.inj h
          exact keeps_refl rfl rfl rfl
      next => cases h
  | cancelOrder orderId reason now clock ok =>
    simp only [stepLocked] at h
    split at h
    next st store hcall =>
      cases Option.some.inj h
      exact keeps_spawn rfl rfl rfl rfl (cancelOrder_pending hcall)
    next =>
      cases Option.some.inj h
      exact keeps_refl rfl rfl rfl
  | tickStart now clock ok expired =>
    simp only [stepLocked] at h
    split at h
    next =>
      cases Option.some.inj h
      exact keeps_refl rfl rfl (expireOrders_pending _ _ _ _ _ _)
    next => cases h
  | resubmitPending batchIds =>
    simp only [stepLocked] at h
    split at h
    next =>
      cases Option.some.inj h
      exact keeps_spawn rfl rfl (Task.holds_start _ _) (Task.awaits_start _ _) rfl
    next => cases h
  | _ =>
    simp only [stepLocked] at h
    repeat' split at h
    all_goals first
      | (cases Option.some.inj h; exact keeps_refl rfl rfl rfl)
      | (cases Option.some.inj h; exact keeps_spawn rfl rfl rfl rfl rfl)
      | cases h

theorem step_guard (h : w.step a = some w') : Guard w w' a := by
  unfold World.step at h
  split at h
  next i ha =>
    split at h
    next => cases h
    next task hi =>
      split at h
      next w1 hfree =>
        cases Option.some.inj h
        exact stepTaskFree_guard hi ha hfree
      next =>
        split at h
        next => exact stepTaskLocked_guard hi ha h
        next => cases h
  next =>
    split at h
    next w1 hfree =>
      cases Option.some.inj h
      exact stepFree_guard hfree
    next =>
      split at h
      next t ht => exact stepTick_guard h
      next => exact stepLocked_guard h

end World

end DarkPool
