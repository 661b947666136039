import DarkPool.Retry
import DarkPool.StepCircuit
import DarkPool.SubmitFlag

namespace DarkPool

variable {env : Env}

namespace World

variable {w w' : World env} {a : Action} {made : List Uuid}

/-- An engine that has just come up: no call is in progress, and the batches it found were drawn before. -/
structure Started (w : World env) : Prop where
  ok : w.Ok
  tasks : w.tasks = []
  tick : w.tick = none
  issued : ∀ b, w.state.flag b ≠ none → b ∈ w.issued

/-- Of the batches made so far, each is held by one submission at most, which has marked it if it is still
pending. -/
structure Exclusive (w : World env) (made : List Uuid) : Prop where
  ok : w.Ok
  apart : Apart w made
  pending : ∀ b, w.state.flag b ≠ none → b ∈ made
  held : ∀ b ∈ w.holders, b ∈ made
  nodup : w.holders.Nodup
  marked : ∀ b ∈ w.holders, w.state.flag b ≠ some false

theorem Started.exclusive (h : Started w) : Exclusive w (w.state.pendingBatches.keys) where
  ok := h.ok
  apart := by
    have hinflight : w.inflight = [] := by simp [inflight, collected, h.tasks, h.tick]
    have hreserved : w.reserved = [] := by simp [reserved, h.tasks]
    refine ⟨by simpa [hinflight] using AList.keys_nodup _, fun b hb => ?_⟩
    have hkey : b ∈ w.state.pendingBatches := AList.mem_keys.mpr (by simpa [hinflight] using hb)
    obtain ⟨pb, hpb⟩ := Option.isSome_iff_exists.mp (AList.lookup_isSome.mpr hkey)
    exact ⟨h.issued b (by simp [EngineState.flag, hpb]), by simp [hreserved]⟩
  pending := by
    intro b hb
    refine AList.mem_keys.mpr (AList.lookup_isSome.mp ?_)
    rw [Option.isSome_iff_ne_none]
    intro hnone
    exact hb (by simp [EngineState.flag, hnone])
  held := by simp [holders, h.tasks]
  nodup := by simp [holders, h.tasks]
  marked := by simp [holders, h.tasks]

/-- The batches made after the section. -/
def madeBy (w : World env) (a : Action) (made : List Uuid) : List Uuid :=
  made ++ (w.submits a).toList.map PendingAggregation.batchId

/-- The id of a batch about to be entered is none of those made before. -/
theorem Exclusive.not_mem_of_submits (h : Exclusive w made) (hstep : w.step a = some w') {p : PendingAggregation}
    (hp : w.submits a = some p) : p.batchId ∉ made := by
  have hnodup := (h.apart.step (step_effect h.ok hstep) hstep).1
  rw [hp] at hnodup
  have hapart := (List.nodup_append.mp (List.nodup_append.mp hnodup).1).2.2
  exact fun hb => hapart _ hb p.batchId (by simp) rfl

theorem Exclusive.step (h : Exclusive w made) (hstep : w.step a = some w') : Exclusive w' (w.madeBy a made) := by
  have heffect := step_effect h.ok hstep
  have hgrow : ∀ b ∈ made, b ∈ w.madeBy a made := fun b hb => List.mem_append_left _ hb
  have hbase := h.apart.step heffect hstep
  have hok := heffect.ok h.ok
  cases step_guard hstep with
  | keeps silent holders awaited flags =>
    exact ⟨hok, hbase, fun b hb => hgrow b (h.pending b (flags ▸ hb)),
      fun b hb => hgrow b (h.held b (holders.mem_iff.mp hb)), holders.nodup_iff.mpr h.nodup,
      fun b hb => flags ▸ h.marked b (holders.mem_iff.mp hb)⟩
  | answers b answered holders awaited flags =>
    exact ⟨hok, hbase, fun b hb => hgrow b (h.pending b (flags ▸ hb)),
      fun b hb => hgrow b (h.held b (holders.mem_iff.mp hb)), holders.nodup_iff.mpr h.nodup,
      fun b hb => flags ▸ h.marked b (holders.mem_iff.mp hb)⟩
  | poisons b silent holders awaited flags free =>
    refine ⟨hok, hbase, fun b' hb' => hgrow b' ?_, fun b' hb' => hgrow b' (h.held b' (holders.mem_iff.mp hb')),
      holders.nodup_iff.mpr h.nodup, fun b' hb' => ?_⟩
    · rw [flags, Function.update_apply] at hb'
      split at hb'
      next heq => exact h.pending b' (by rw [heq, free]; simp)
      next => exact h.pending b' hb'
    · rw [flags, Function.update_apply]
      split
      next => simp
      next => exact h.marked b' (holders.mem_iff.mp hb')
  | takes b silent free holders awaited flags =>
    have hmade : b ∈ made := h.pending b (by rw [free]; simp)
    -- A batch that is free has no holder.
    have hnew : b ∉ w.holders := fun hb => h.marked b hb free
    refine ⟨hok, hbase, fun b' hb' => hgrow b' ?_, fun b' hb' => hgrow b' ?_,
      holders.nodup_iff.mpr (List.nodup_cons.mpr ⟨hnew, h.nodup⟩), fun b' hb' => ?_⟩
    · rw [flags, Function.update_apply] at hb'
      split at hb'
      next heq => exact heq ▸ hmade
      next => exact h.pending b' hb'
    · rcases List.mem_cons.mp (holders.mem_iff.mp hb') with rfl | hb'
      · exact hmade
      · exact h.held b' hb'
    · rw [flags, Function.update_apply]
      split
      next => simp
      next hne => exact h.marked b' ((List.mem_cons.mp (holders.mem_iff.mp hb')).resolve_left hne)
  | releases b silent holders awaited flags =>
    have hnodup := holders.nodup_iff.mp h.nodup
    have hmem : ∀ b' ∈ w'.holders, b' ∈ w.holders := fun b' hb' => holders.mem_iff.mpr (List.mem_cons_of_mem _ hb')
    refine ⟨hok, hbase, fun b' hb' => hgrow b' ?_, fun b' hb' => hgrow b' (h.held b' (hmem b' hb')),
      (List.nodup_cons.mp hnodup).2, fun b' hb' => ?_⟩
    · rw [flags, Function.update_apply] at hb'
      split at hb'
      next heq => exact h.pending b' (fun hnone => hb' (by rw [← heq, hnone]; rfl))
      next => exact h.pending b' hb'
    · rw [flags, Function.update_apply, if_neg]
      · exact h.marked b' (hmem b' hb')
      · rintro rfl
        exact (List.nodup_cons.mp hnodup).1 hb'
  | closes b silent holders awaited flags =>
    refine ⟨hok, hbase, fun b' hb' => hgrow b' ?_, fun b' hb' => hgrow b' (h.held b' (holders.subset hb')),
      nodup_of_subperm holders h.nodup, fun b' hb' => ?_⟩
    · rw [flags, Function.update_apply] at hb'
      split at hb'
      next => exact absurd rfl hb'
      next => exact h.pending b' hb'
    · rw [flags, Function.update_apply]
      split
      next => simp
      next => exact h.marked b' (holders.subset hb')
  | inserts p silent submits holders awaited flags =>
    have hmade : p.batchId ∈ w.madeBy a made := by simp [madeBy, submits]
    refine ⟨hok, hbase, fun b' hb' => ?_, fun b' hb' => hgrow b' (h.held b' (holders.mem_iff.mp hb')),
      holders.nodup_iff.mpr h.nodup, fun b' hb' => ?_⟩
    · rw [flags, Function.update_apply] at hb'
      split at hb'
      next heq => exact heq ▸ hmade
      next => exact hgrow b' (h.pending b' hb')
    · rw [flags, Function.update_apply, if_neg]
      · exact h.marked b' (holders.mem_iff.mp hb')
      · rintro rfl
        exact h.not_mem_of_submits hstep submits (h.held _ (holders.mem_iff.mp hb'))

theorem Exclusive.awaited_count_le (h : Exclusive w made) (b : Uuid) : w.awaited.count b ≤ 1 :=
  List.nodup_iff_count_le_one.mp (h.nodup.sublist w.awaited_sublist_holders) b

/-- Submissions are awaited as before, but for the one that is taken up and the one that is answered. -/
theorem awaited_step (hstep : w.step a = some w') :
    (∃ b, w.state.flag b = some false ∧ w'.awaited.Perm (b :: w.awaited) ∧ w.answered a = none) ∨
      w.awaited.Perm ((w.answered a).toList ++ w'.awaited) := by
  cases step_guard hstep with
  | takes b silent free holders awaited flags => exact Or.inl ⟨b, free, awaited, silent⟩
  | answers b answered holders awaited flags =>
    rw [answered]
    exact Or.inr awaited
  | keeps silent holders awaited | poisons b silent holders awaited | releases b silent holders awaited
  | closes b silent holders awaited | inserts p silent submits holders awaited =>
    rw [silent]
    exact Or.inr awaited.symm

/-- A batch that has left the pending ones does not come back. -/
theorem Exclusive.removed_step (h : Exclusive w made) (hstep : w.step a = some w') {b : Uuid} (hb : b ∈ made)
    (hflag : w.state.flag b = none) : w'.state.flag b = none := by
  cases step_guard hstep with
  | keeps silent holders awaited flags | answers b' answered holders awaited flags => rwa [flags]
  | poisons b' silent holders awaited flags free | takes b' silent free holders awaited flags =>
    rw [flags, Function.update_of_ne, hflag]
    rintro rfl
    simp [free] at hflag
  | releases b' silent holders awaited flags =>
    rw [flags, Function.update_apply]
    split
    next heq => rw [← heq, hflag]; rfl
    next => exact hflag
  | closes b' silent holders awaited flags =>
    rw [flags, Function.update_apply]
    split
    next => rfl
    next => exact hflag
  | inserts p silent submits holders awaited flags =>
    rw [flags, Function.update_of_ne, hflag]
    rintro rfl
    exact h.not_mem_of_submits hstep submits hb

end World

/-- A world with the batches whose submitter has been called and has not answered. The call comes after
the flag is taken, with no lock held. -/
structure Flight (env : Env) where
  world : World env
  calls : List Uuid

inductive SubmitMove
  | crit (a : Action)
  | call (i : Nat)

namespace Flight

variable {f g : Flight env} {m : SubmitMove} {made : List Uuid} {b : Uuid}

def step (f : Flight env) : SubmitMove → Option (Flight env)
  | .crit a =>
    match f.world.step a, f.world.answered a with
    | none, _ => none
    | some w, none => some ⟨w, f.calls⟩
    -- A submitter answers, or is timed out, once it has been called.
    | some w, some b => if b ∈ f.calls then some ⟨w, f.calls.erase b⟩ else none
  | .call i =>
    match f.world.tasks[i]? with
    | some (.submitting (b :: _) (.calling _) _) =>
      -- Each submission that waits for an answer makes one call.
      if f.calls.count b < f.world.awaited.count b then some ⟨f.world, b :: f.calls⟩ else none
    | _ => none

/-- The batch whose submitter the move calls. -/
def starts (f : Flight env) : SubmitMove → List Uuid
  | .crit _ => []
  | .call i => (f.world.tasks[i]?.map Task.awaits).getD []

/-- What a move does: a critical section, with the answer it may bring, or a call. -/
inductive Effect (f g : Flight env) (m : SubmitMove) : Prop
  | silent (a : Action) (crit : f.world.step a = some g.world) (answered : f.world.answered a = none)
      (calls : g.calls = f.calls) (starts : f.starts m = [])
  | answered (a : Action) (b : Uuid) (crit : f.world.step a = some g.world) (answered : f.world.answered a = some b)
      (calls : f.calls.Perm (b :: g.calls)) (starts : f.starts m = [])
  | called (b : Uuid) (world : g.world = f.world) (calls : g.calls = b :: f.calls)
      (awaited : f.calls.count b < f.world.awaited.count b) (starts : f.starts m = [b])

theorem step_effect (h : f.step m = some g) : Effect f g m := by
  unfold step at h
  split at h
  next a =>
    split at h
    next => simp at h
    next w hw hanswered =>
      cases Option.some.inj h
      exact .silent a hw hanswered rfl rfl
    next w b hw hanswered =>
      obtain ⟨hb, hg⟩ := Option.ite_none_right_eq_some.mp h
      cases Option.some.inj hg
      exact .answered a b hw hanswered (List.perm_cons_erase hb) rfl
  next i =>
    split at h
    next b ids pb after hi =>
      obtain ⟨hb, hg⟩ := Option.ite_none_right_eq_some.mp h
      cases Option.some.inj hg
      exact .called b rfl rfl hb (by simp [starts, hi, Task.awaits])
    next => simp at h

/-- The submissions exclude each other, and no more calls are out than submissions wait for one. -/
structure Sound (f : Flight env) (made : List Uuid) : Prop where
  exclusive : f.world.Exclusive made
  calls : ∀ b, f.calls.count b ≤ f.world.awaited.count b

theorem Sound.step (h : Sound f made) (hstep : f.step m = some g) : ∃ made', made ⊆ made' ∧ Sound g made' := by
  cases step_effect hstep with
  | silent a crit answered calls =>
    refine ⟨f.world.madeBy a made, List.subset_append_left _ _, h.exclusive.step crit, fun b => ?_⟩
    rw [calls]
    refine (h.calls b).trans ?_
    rcases World.awaited_step crit with ⟨b', hfree, hawaited, hnone⟩ | hawaited
    · rw [hawaited.count_eq]
      exact (List.sublist_cons_self _ _).count_le b
    · rw [hawaited.count_eq, answered]
      exact le_rfl
  | answered a b crit answered calls =>
    refine ⟨f.world.madeBy a made, List.subset_append_left _ _, h.exclusive.step crit, fun b' => ?_⟩
    have hle := h.calls b'
    rcases World.awaited_step crit with ⟨b'', hfree, hawaited, hnone⟩ | hawaited
    · simp [answered] at hnone
    · rw [calls.count_eq, hawaited.count_eq, answered] at hle
      simpa [List.count_cons] using hle
  | called b world calls awaited =>
    refine ⟨made, List.Subset.refl _, world ▸ h.exclusive, fun b' => ?_⟩
    rw [calls, world, List.count_cons]
    have hle := h.calls b'
    split
    next heq =>
      cases beq_iff_eq.mp heq
      omega
    next => omega

theorem Sound.run (h : Sound f made) {ms : List SubmitMove} (hrun : Transition.run Flight.step f ms = some g) :
    ∃ made', made ⊆ made' ∧ Sound g made' := by
  refine Transition.run_preserves (I := fun g => ∃ made', made ⊆ made' ∧ Sound g made') (fun s m t hs hst => ?_)
    ⟨made, List.Subset.refl _, h⟩ hrun
  obtain ⟨made1, hsub, hsound⟩ := hs
  obtain ⟨made2, hsub', hsound'⟩ := hsound.step hst
  exact ⟨made2, List.Subset.trans hsub hsub', hsound'⟩

/-- A batch that was made and is pending no more. -/
def Removed (f : Flight env) (b : Uuid) : Prop := ∃ made, Sound f made ∧ b ∈ made ∧ f.world.state.flag b = none

theorem Removed.step (h : Removed f b) (hstep : f.step m = some g) : Removed g b := by
  obtain ⟨made, hsound, hb, hflag⟩ := h
  obtain ⟨made', hsub, hsound'⟩ := hsound.step hstep
  refine ⟨made', hsound', hsub hb, ?_⟩
  cases step_effect hstep with
  | silent a crit | answered a b' crit => exact hsound.exclusive.removed_step crit hb hflag
  | called b' world => rwa [world]

theorem Removed.run (h : Removed f b) {ms : List SubmitMove} (hrun : Transition.run Flight.step f ms = some g) :
    Removed g b :=
  Transition.run_preserves (I := fun g => Removed g b) (fun _ _ _ hs hst => hs.step hst) h hrun

/-- Once a batch is removed, no submission takes it up: the calls out for it and those still to come are
those of the submissions that waited at the removal. -/
theorem Removed.starts_le (h : Removed f b) {ms : List SubmitMove} (hrun : Transition.run Flight.step f ms = some g) :
    (Transition.collect Flight.step starts f ms).count b + f.calls.count b ≤ f.world.awaited.count b := by
  induction ms generalizing f with
  | nil =>
    obtain ⟨made, hsound, -⟩ := h
    simpa [Transition.collect] using hsound.calls b
  | cons m ms ih =>
    obtain ⟨u, hu, hrest⟩ := Transition.run_cons.mp hrun
    have hih := ih (h.step hu) hrest
    obtain ⟨made, hsound, hb, hflag⟩ := h
    simp only [Transition.collect, hu, List.count_append]
    cases step_effect hu with
    | silent a crit answered calls starts =>
      rw [starts, List.count_nil, Nat.zero_add, ← calls]
      refine hih.trans ?_
      rcases World.awaited_step crit with ⟨b', hfree, hawaited, hnone⟩ | hawaited
      · have hne : b' ≠ b := by
          rintro rfl
          simp [hfree] at hflag
        rw [hawaited.count_eq, List.count_cons_of_ne hne]
      · rw [hawaited.count_eq, answered]
        exact le_rfl
    | answered a b' crit answered calls starts =>
      rw [starts, List.count_nil, Nat.zero_add, calls.count_eq]
      rcases World.awaited_step crit with ⟨b'', hfree, hawaited, hnone⟩ | hawaited
      · simp [answered] at hnone
      · rw [hawaited.count_eq, answered, Option.toList_some, List.singleton_append, List.count_cons, List.count_cons]
        omega
    | called b' world calls awaited starts =>
      rw [calls, world, List.count_cons] at hih
      rw [starts, List.count_cons, List.count_nil]
      omega

theorem Removed.acquireSubmit_skip (h : Removed f b) : acquireSubmit f.world.state b = (f.world.state, .skip) := by
  obtain ⟨made, hsound, hb, hflag⟩ := h
  unfold acquireSubmit
  split
  next => rfl
  next pb hpb => simp [EngineState.flag, hpb] at hflag

end Flight

open Flight in
/-- From an engine that has come up, along every interleaving: at most one call is out for a batch; after
a batch leaves the pending ones no submission takes it up, and the calls for it are those of the one
submission that had taken it before, if it still waits. -/
theorem submissions_exclusive {w : World env} (hw : w.Started) {as : List SubmitMove} {f : Flight env}
    (hrun : Transition.run Flight.step ⟨w, []⟩ as = some f) :
    (∀ b, f.calls.count b ≤ 1) ∧
    ∀ b, f.world.state.flag b ≠ none → ∀ bs g, Transition.run Flight.step f bs = some g →
      g.world.state.flag b = none → ∀ cs h, Transition.run Flight.step g cs = some h →
        acquireSubmit h.world.state b = (h.world.state, .skip) ∧
        (Transition.collect Flight.step starts g cs).count b + g.calls.count b ≤ g.world.awaited.count b ∧
        g.world.awaited.count b ≤ 1 := by
  have hstart : Sound ⟨w, []⟩ w.state.pendingBatches.keys := ⟨hw.exclusive, fun b => Nat.zero_le _⟩
  obtain ⟨made, -, hsound⟩ := hstart.run hrun
  refine ⟨fun b => (hsound.calls b).trans (hsound.exclusive.awaited_count_le b), ?_⟩
  intro b hflag bs g hg hnone cs h hh
  obtain ⟨made', hsub, hsound'⟩ := hsound.run hg
  have hremoved : Removed g b := ⟨made', hsound', hsub (hsound.exclusive.pending b hflag), hnone⟩
  exact ⟨(hremoved.run hh).acquireSubmit_skip, hremoved.starts_le hh, hsound'.exclusive.awaited_count_le b⟩

namespace Onchain

def restarted : World Fills.plainEnv := { World.initial Fills.plainEnv with state := engine, issued := [31] }

theorem started_restarted : restarted.Started where
  ok := ⟨by decide, ⟨List.nodup_nil, by simp [World.reserved, restarted, World.initial]⟩,
    by simp [World.closing, restarted, World.initial]⟩
  tasks := rfl
  tick := rfl
  issued := by
    intro b hb
    have hkey : b ∈ engine.pendingBatches := by
      rw [← AList.lookup_isSome, Option.isSome_iff_ne_none]
      intro hnone
      exact hb (by simp [restarted, EngineState.flag, hnone])
    rw [engine, EngineState.withPendingBatches, AList.mem_insert] at hkey
    exact List.mem_singleton.mpr (hkey.resolve_right (AList.notMem_empty b))

/-- The first call times out, though its transaction goes through, and a retry has taken the batch again. -/
def retry : List SubmitMove :=
  [.crit (.submitBatch 31), .crit (.submitStart 0), .call 0, .crit (.submitCall 0 none), .crit (.submitFail 0 5),
    .crit (.submitEnd 0 5 []), .crit (.submitBatch 31), .crit (.submitStart 0)]

/-- The settlement of the first transaction is noticed. -/
def noticed : List SubmitMove :=
  [.crit (.settleBatch 31 4 "0x1" ⟨7, by decide⟩ 7 true), .crit (.settleApply 1)]

end Onchain

open Flight in
/-- The retry that has taken the flag calls the submitter after the settled batch is removed. -/
theorem call_after_removal :
    ∃ f g h, Transition.run Flight.step ⟨Onchain.restarted, []⟩ Onchain.retry = some f ∧
      f.world.state.flag 31 = some true ∧ Transition.run Flight.step f Onchain.noticed = some g ∧
      g.world.state.flag 31 = none ∧ g.calls = [] ∧ g.step (.call 0) = some h ∧ h.calls = [31] := by
  have hrun : ((Transition.run Flight.step ⟨Onchain.restarted, []⟩ Onchain.retry).any (fun f =>
      decide (f.world.state.flag 31 = some true) && (Transition.run Flight.step f Onchain.noticed).any (fun g =>
        decide (g.world.state.flag 31 = none) && decide (g.calls = []) &&
          (g.step (.call 0)).any (fun h => decide (h.calls = [31]))))) = true := by decide
  obtain ⟨f, hf, hrun⟩ := (Option.any_eq_true _ _).mp hrun
  obtain ⟨hflag, hrun⟩ := Bool.and_eq_true_iff.mp hrun
  obtain ⟨g, hg, hrun⟩ := (Option.any_eq_true _ _).mp hrun
  obtain ⟨hgone, hrun⟩ := Bool.and_eq_true_iff.mp hrun
  obtain ⟨h, hh, hcalls⟩ := (Option.any_eq_true _ _).mp hrun
  obtain ⟨hnone, hidle⟩ := Bool.and_eq_true_iff.mp hgone
  exact ⟨f, g, h, hf, of_decide_eq_true hflag, hg, of_decide_eq_true hnone, of_decide_eq_true hidle, hh,
    of_decide_eq_true hcalls⟩

theorem submissions_exclusive_restarted : Onchain.restarted.Started ∧ ∃ f : Flight Fills.plainEnv,
    Transition.run Flight.step ⟨Onchain.restarted, []⟩ Onchain.retry = some f ∧ ∀ b, f.calls.count b ≤ 1 := by
  have hrun : (Transition.run Flight.step ⟨Onchain.restarted, []⟩ Onchain.retry).isSome = true := by decide
  obtain ⟨f, hf⟩ := Option.isSome_iff_exists.mp hrun
  exact ⟨Onchain.started_restarted, f, hf, (submissions_exclusive Onchain.started_restarted hf).1⟩

end DarkPool
