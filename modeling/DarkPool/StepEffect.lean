import DarkPool.Effect

namespace DarkPool

variable {env : Env}

namespace World

variable {w w' : World env} {i : Nat} {task : Task env} {olds news : List (Task env)} {a : Action}

/-- The frame of a section that replaces some tasks. -/
theorem Replaces.frame (h : w.Replaces w' olds news) (hissued : ∀ id ∈ w.issued, id ∈ w'.issued)
    (hnodup : (news.flatMap Task.reserved).Nodup)
    (hreserved : ∀ id ∈ news.flatMap Task.reserved, id ∉ w.issued ∧ id ∈ w'.issued)
    (hwitnessed : ∀ x ∈ news.flatMap Task.witnessed, x.1 ∈ w.inflight ∧
      buildBatchWitness w.secrets x.1.batchId x.1.auctionId x.1.matchList x.1.orders = .ok x.2)
    (hresolved : ∀ x ∈ news.flatMap Task.resolved, x.1 ∈ w.inflight ∧ buildSettlementMatches x.1 w.state = .ok x.2) :
    Frame w w' where
  used := by
    obtain ⟨rest, hw, hw'⟩ := h.flatMap Task.reserved
    rintro id ⟨hid, hfree⟩
    refine ⟨hissued id hid, fun hmem => ?_⟩
    rcases List.mem_append.mp (hw'.mem_iff.mp hmem) with hnew | hrest
    · exact (hreserved id hnew).1 hid
    · exact hfree (hw.mem_iff.mpr (List.mem_append_right _ hrest))
  reserved := by
    obtain ⟨rest, hw, hw'⟩ := h.flatMap Task.reserved
    rintro ⟨hnd, hsub⟩
    have hrest : ∀ id ∈ rest, id ∈ w.issued := fun id hid => hsub id (hw.mem_iff.mpr (List.mem_append_right _ hid))
    refine ⟨hw'.nodup_iff.mpr ?_, ?_⟩
    · refine List.Nodup.append hnodup (List.nodup_append.mp (hw.nodup_iff.mp hnd)).2.1 ?_
      exact fun id hnew hid => (hreserved id hnew).1 (hrest id hid)
    · intro id hid
      rcases List.mem_append.mp (hw'.mem_iff.mp hid) with hnew | hid
      · exact (hreserved id hnew).2
      · exact hissued id (hrest id hid)
  witnessed := by
    obtain ⟨rest, hw, hw'⟩ := h.flatMap Task.witnessed
    intro x hx
    rcases List.mem_append.mp (hw'.mem_iff.mp hx) with hnew | hrest
    · exact Or.inr (hwitnessed x hnew)
    · exact Or.inl (hw.mem_iff.mpr (List.mem_append_right _ hrest))
  resolved := by
    obtain ⟨rest, hw, hw'⟩ := h.flatMap Task.resolved
    intro x hx
    rcases List.mem_append.mp (hw'.mem_iff.mp hx) with hnew | hrest
    · exact Or.inr (hresolved x hnew)
    · exact Or.inl (hw.mem_iff.mpr (List.mem_append_right _ hrest))

/-- The same for tasks that reserve no id and carry no witness and no rows. -/
theorem Replaces.frame_plain (h : w.Replaces w' olds news) (hissued : ∀ id ∈ w.issued, id ∈ w'.issued)
    (hreserved : news.flatMap Task.reserved = []) (hwitnessed : news.flatMap Task.witnessed = [])
    (hresolved : news.flatMap Task.resolved = []) : Frame w w' :=
  h.frame hissued (by simp [hreserved]) (by simp [hreserved]) (by simp [hwitnessed]) (by simp [hresolved])

theorem Replaces.perm_flatMap (h : w.Replaces w' olds news) {α : Type} (f : Task env → List α) (come gone : List α)
    (hf : (come ++ olds.flatMap f).Perm (gone ++ news.flatMap f)) :
    (come ++ w.tasks.flatMap f).Perm (gone ++ w'.tasks.flatMap f) := by
  obtain ⟨rest, hw, hw'⟩ := h.flatMap f
  have hmid : (come ++ (olds.flatMap f ++ rest)).Perm (gone ++ (news.flatMap f ++ rest)) := by
    rw [← List.append_assoc, ← List.append_assoc]
    exact hf.append_right rest
  exact (hw.append_left come).trans (hmid.trans (hw'.symm.append_left gone))

theorem Replaces.subperm_inflight (h : w.Replaces w' olds news) (htick : w'.collected = w.collected)
    (hf : (news.flatMap Task.inflight).Sublist (olds.flatMap Task.inflight)) : w'.inflight.Subperm w.inflight := by
  obtain ⟨rest, hw, hw'⟩ := h.flatMap Task.inflight
  have hmid : (news.flatMap Task.inflight ++ rest).Subperm (olds.flatMap Task.inflight ++ rest) :=
    (hf.append_right rest).subperm
  have htasks : (w'.tasks.flatMap Task.inflight).Subperm (w.tasks.flatMap Task.inflight) :=
    hw'.subperm.trans (hmid.trans hw.symm.subperm)
  rw [inflight, inflight, htick]
  exact List.subperm_append_left _ |>.mpr htasks

theorem Replaces.perm_inflight (h : w.Replaces w' olds news) (htick : w'.collected = w.collected)
    (hf : (news.flatMap Task.inflight).Perm (olds.flatMap Task.inflight)) : w'.inflight.Perm w.inflight := by
  have htasks := h.perm_flatMap Task.inflight [] [] hf.symm
  rw [inflight, inflight, htick]
  exact htasks.symm.append_left _

/-- The tasks are replaced by ones that hold the same but, perhaps, fewer aggregations. -/
structure Plain (olds news : List (Task env)) : Prop where
  closing : olds.flatMap Task.closing = news.flatMap Task.closing
  inflight : (news.flatMap Task.inflight).Sublist (olds.flatMap Task.inflight)
  reserved : news.flatMap Task.reserved = []
  witnessed : news.flatMap Task.witnessed = []
  resolved : news.flatMap Task.resolved = []

theorem Replaces.routine (h : w.Replaces w' olds news) (hplain : Plain olds news)
    (core : RoutineCommits env w.state w.store w'.state w'.store) (secrets : w.SecretsShrink w')
    (hissued : ∀ id ∈ w.issued, id ∈ w'.issued) (htick : w'.collected = w.collected) : w.Effect a w' :=
  .routine (h.frame_plain hissued hplain.reserved hplain.witnessed hplain.resolved) core secrets
    (h.perm_flatMap Task.closing [] [] (by rw [hplain.closing])).symm
    (h.subperm_inflight htick hplain.inflight)

section Quiet

variable (hok : w.Ok) (hi : w.tasks[i]? = some task)
include hok

omit hok in
theorem effect_setTask_core (hi : w.tasks[i]? = some task) {st : EngineState} {store : Store} {t : Task env}
    (core : RoutineCommits env w.state w.store st store) (hplain : Plain [task] [t]) :
    w.Effect a ((w.withCore st store).setTask i t) := by
  have h : w.Replaces ((w.withCore st store).setTask i t) [task] [t] := replaces_setTask hi rfl
  exact h.routine hplain core (fun _ _ hs => hs) (fun _ hid => hid) rfl

theorem effect_setTask (hi : w.tasks[i]? = some task) {t : Task env} (hplain : Plain [task] [t]) :
    w.Effect a (w.setTask i t) := effect_setTask_core hi (RoutineCommits.refl hok.book) hplain

theorem effect_endTask (hi : w.tasks[i]? = some task) (hplain : Plain [task] []) : w.Effect a (w.endTask i) := by
  have h : w.Replaces (w.endTask i) [task] [] := replaces_endTask hi rfl
  exact h.routine hplain (RoutineCommits.refl hok.book) (fun _ _ hs => hs) (fun _ hid => hid) rfl

omit hok in
theorem effect_spawn {st : EngineState} {store : Store} {t : Task env}
    (core : RoutineCommits env w.state w.store st store) (hplain : Plain [] [t]) :
    w.Effect a ((w.withCore st store).spawn t) := by
  have h : w.Replaces ((w.withCore st store).spawn t) [] [t] := replaces_spawn rfl
  exact h.routine hplain core (fun _ _ hs => hs) (fun _ hid => hid) rfl

omit hok in
theorem effect_core {st : EngineState} {store : Store} (core : RoutineCommits env w.state w.store st store) :
    w.Effect a (w.withCore st store) := by
  have h : w.Replaces (w.withCore st store) [] [] := replaces_refl rfl
  exact h.routine ⟨rfl, List.Sublist.refl _, rfl, rfl, rfl⟩ core (fun _ _ hs => hs) (fun _ hid => hid) rfl

theorem effect_refl (hstate : w'.state = w.state) (hstore : w'.store = w.store) (hsecrets : w'.secrets = w.secrets)
    (htasks : w'.tasks = w.tasks) (hissued : w'.issued = w.issued) (htick : w'.tick = w.tick) : w.Effect a w' := by
  refine (replaces_refl htasks).routine ⟨rfl, List.Sublist.refl _, rfl, rfl, rfl⟩ ?_ ?_ ?_ ?_
  · rw [hstate, hstore]
    exact RoutineCommits.refl hok.book
  · exact fun _ _ hs => hsecrets ▸ hs
  · exact fun _ hid => hissued ▸ hid
  · rw [collected, collected, htick]

end Quiet

theorem stepTaskFree_effect (hok : w.Ok) (hi : w.tasks[i]? = some task) (h : w.stepTaskFree i task a = some w') :
    w.Effect a w' := by
  cases a with
  | dropSecret j =>
    simp only [stepTaskFree] at h
    split at h
    next =>
      cases Option.some.inj h
      exact effect_endTask hok hi ⟨rfl, List.Sublist.refl _, rfl, rfl, rfl⟩
    next id ids =>
      cases Option.some.inj h
      refine Replaces.routine (replaces_setTask hi rfl) ⟨rfl, List.Sublist.refl _, rfl, rfl, rfl⟩ (RoutineCommits.refl hok.book) ?_
        (fun _ hid => hid) rfl
      intro id' s hs
      simp only [setTask, withSecrets, DarkPool.dropSecret, Table.lookup_erase_eq] at hs
      split at hs
      next => simp at hs
      next => exact hs
    next => simp at h
  | foldWitness j =>
    simp only [stepTaskFree] at h
    split at h
    next p queue toSubmit =>
      split at h
      next witness hwit =>
        cases Option.some.inj h
        have hrep : w.Replaces (w.setTask i (.folding (p :: queue) (.witnessed witness) toSubmit))
          [.folding (p :: queue) .start toSubmit] [.folding (p :: queue) (.witnessed witness) toSubmit] :=
          replaces_setTask hi rfl
        have hframe : Frame w (w.setTask i (.folding (p :: queue) (.witnessed witness) toSubmit)) := by
          refine hrep.frame (fun _ hid => hid) List.nodup_nil (by simp [Task.reserved]) ?_ (by simp [Task.resolved])
          intro x hx
          rw [List.mem_singleton.mp hx]
          exact ⟨mem_inflight hi List.mem_cons_self, hwit⟩
        exact .routine hframe (RoutineCommits.refl hok.book) (fun _ _ hs => hs)
          (hrep.perm_flatMap Task.closing [] [] (List.Perm.refl _)).symm
          (hrep.subperm_inflight rfl (List.Sublist.refl _))
      next =>
        cases Option.some.inj h
        exact effect_setTask hok hi ⟨rfl, List.sublist_cons_self _ _, rfl, rfl, rfl⟩
    next => simp at h
  | foldInputs j =>
    simp only [stepTaskFree] at h
    split at h
    next p queue witness toSubmit =>
      split at h
      next ext hext =>
        cases Option.some.inj h
        exact effect_setTask hok hi ⟨rfl, List.Sublist.refl _, rfl, rfl, rfl⟩
      next =>
        cases Option.some.inj h
        exact effect_setTask hok hi ⟨rfl, List.sublist_cons_self _ _, rfl, rfl, rfl⟩
    next => simp at h
  | foldStep j ok =>
    simp only [stepTaskFree] at h
    split at h
    next p queue root toSubmit =>
      split at h
      next =>
        cases Option.some.inj h
        exact effect_setTask hok hi ⟨rfl, List.Sublist.refl _, rfl, rfl, rfl⟩
      next =>
        cases Option.some.inj h
        exact effect_setTask hok hi ⟨rfl, List.sublist_cons_self _ _, rfl, rfl, rfl⟩
    next => simp at h
  | foldCount j =>
    simp only [stepTaskFree] at h
    split at h
    next p queue root toSubmit =>
      cases Option.some.inj h
      exact Replaces.routine (replaces_setTask hi rfl) ⟨rfl, List.Sublist.refl _, rfl, rfl, rfl⟩
        (RoutineCommits.refl hok.book) (fun _ _ hs => hs) (fun _ hid => hid) rfl
    next => simp at h
  | foldLog j now clock ok =>
    simp only [stepTaskFree] at h
    split at h
    next p queue root round toSubmit =>
      cases Option.some.inj h
      have hplain : @Plain env [.folding (p :: queue) (.counted root round) toSubmit]
          [if round % w.finalizeEvery = 0 then .folding (p :: queue) .finalizing toSubmit
          else .folding queue .start toSubmit] := by
        split
        next => exact ⟨rfl, List.Sublist.refl _, rfl, rfl, rfl⟩
        next => exact ⟨rfl, List.sublist_cons_self _ _, rfl, rfl, rfl⟩
      cases happend : appendEvents w.store clock ok [Event.unsequenced now (.batchFolded p.batchId round p.pair root)] with
      | error e => exact effect_setTask_core hi (RoutineCommits.refl hok.book) hplain
      | ok r =>
        obtain ⟨store, stamped⟩ := r
        obtain ⟨ev, hcore, hdata⟩ := @folded_commits env w.state w.store store now clock ok hok.book _ _ _ _ _ happend
        have hrep : w.Replaces ((w.withStore store).setTask i
            (if round % w.finalizeEvery = 0 then .folding (p :: queue) .finalizing toSubmit
            else .folding queue .start toSubmit)) _ _ := replaces_setTask hi rfl
        exact .folds (hrep.frame_plain (fun _ hid => hid) hplain.reserved hplain.witnessed hplain.resolved) p queue root
          round toSubmit (List.mem_of_getElem? hi) ev hcore hdata rfl rfl
          (hrep.perm_flatMap Task.closing [] [] (by rw [hplain.closing])).symm
          (hrep.subperm_inflight rfl hplain.inflight)
    next => simp at h
  | foldFinalize j proof =>
    simp only [stepTaskFree] at h
    split at h
    next p queue toSubmit =>
      split at h
      next proof =>
        cases Option.some.inj h
        exact effect_setTask hok hi ⟨rfl, List.Sublist.refl _, rfl, rfl, rfl⟩
      next =>
        cases Option.some.inj h
        exact effect_setTask hok hi ⟨rfl, List.sublist_cons_self _ _, rfl, rfl, rfl⟩
    next => simp at h
  | foldEnd j =>
    simp only [stepTaskFree] at h
    split at h
    next toSubmit =>
      cases Option.some.inj h
      exact effect_setTask hok hi ⟨rfl, List.Sublist.refl _, rfl, rfl, rfl⟩
    next => simp at h
  | submitCall j txHash =>
    simp only [stepTaskFree] at h
    split at h
    next b ids batch after =>
      split at h
      next tx =>
        cases Option.some.inj h
        exact effect_setTask hok hi ⟨rfl, List.Sublist.refl _, rfl, rfl, rfl⟩
      next =>
        cases Option.some.inj h
        exact effect_setTask hok hi ⟨rfl, List.Sublist.refl _, rfl, rfl, rfl⟩
    next => simp at h
  | submitLog j now clock ok =>
    simp only [stepTaskFree] at h
    split at h
    next b ids tx after =>
      split at h
      next store event ha =>
        cases Option.some.inj h
        obtain ⟨hlogs, hdata⟩ := logs_event ha
        have hrep : w.Replaces ((w.withStore store).setTask i (.submitting (b :: ids) (.confirmed event) after))
          [.submitting (b :: ids) (.sent tx) after] [.submitting (b :: ids) (.confirmed event) after] :=
          replaces_setTask hi rfl
        exact .opens (hrep.frame_plain (fun _ hid => hid) rfl rfl rfl) b event (Or.inl ⟨tx, hdata⟩) hlogs rfl rfl
          (hrep.perm_flatMap Task.closing [_] [] (List.Perm.refl _)).symm (hrep.perm_inflight rfl (List.Perm.refl _))
      next =>
        cases Option.some.inj h
        exact effect_setTask hok hi ⟨rfl, List.Sublist.refl _, rfl, rfl, rfl⟩
    next => simp at h
  | _ => simp [stepTaskFree] at h

theorem stepTaskLocked_effect (hok : w.Ok) (hi : w.tasks[i]? = some task) (ha : a.task = some i)
    (h : w.stepTaskLocked i task a = some w') : w.Effect a w' := by
  cases a with
  | prepareOrder j id now oracle =>
    simp only [stepTaskLocked] at h
    split at h
    next ciphertext proof caller =>
      split at h
      next hfresh =>
        split at h
        next =>
          cases Option.some.inj h
          exact effect_endTask hok hi ⟨rfl, List.Sublist.refl _, rfl, rfl, rfl⟩
        next balance position =>
          split at h
          next order horder =>
            cases Option.some.inj h
            have hid := prepareOrder_id horder
            have hrep : w.Replaces ((w.issue [id]).setTask i (.prepared order)) [.placing ciphertext proof caller]
              [.prepared order] := replaces_setTask hi rfl
            have hframe : Frame w ((w.issue [id]).setTask i (.prepared order)) := by
              refine hrep.frame (fun _ hmem => List.mem_cons_of_mem _ hmem) (List.nodup_singleton _) ?_
                (by simp [Task.witnessed]) (by simp [Task.resolved])
              intro x hx
              rw [List.mem_singleton.mp hx, hid]
              exact ⟨hfresh.2 id List.mem_cons_self, List.mem_cons_self⟩
            exact .routine hframe (RoutineCommits.refl hok.book) (fun _ _ hs => hs)
              (hrep.perm_flatMap Task.closing [] [] (List.Perm.refl _)).symm
              (hrep.subperm_inflight rfl (List.Sublist.refl _))
          next =>
            cases Option.some.inj h
            exact effect_endTask hok hi ⟨rfl, List.Sublist.refl _, rfl, rfl, rfl⟩
      next => simp at h
    next => simp at h
  | persistOrder j clock ok =>
    simp only [stepTaskLocked] at h
    split at h
    next order =>
      split at h
      next st store secrets hst =>
        cases Option.some.inj h
        obtain ⟨ev, hcore, hdata, hts, hpending, hsecrets, haccepting, hunspent, hcapacity⟩ :=
          persistOrderPlaced_commits hok.book order.valid hst
        have hmem : order.order.id ∈ w.reserved := mem_flatMap_tasks hi List.mem_cons_self
        have hrep : w.Replaces (((w.withCore st store).withSecrets secrets).endTask i) [.prepared order] [] :=
          replaces_endTask hi rfl
        have hperm := hrep.perm_flatMap Task.reserved [] [order.order.id] (List.Perm.refl _)
        have hnodup := List.nodup_cons.mp (hperm.nodup_iff.mp hok.reserved.1)
        have hpersists : w.persists (.persistOrder j clock ok) = some order := by
          rw [persists, Option.some.inj ha, hi]
        exact .place (hrep.frame_plain (fun _ hid => hid) rfl rfl rfl) order ev (fun hused => hused.2 hmem)
          ⟨hok.reserved.2 _ hmem, hnodup.1⟩ hcore hdata hts hpending hsecrets
          (hrep.perm_flatMap Task.closing [] [] (List.Perm.refl _)).symm (hrep.perm_inflight rfl (List.Perm.refl _))
          haccepting hunspent hpersists hcapacity
      next =>
        cases Option.some.inj h
        exact effect_endTask hok hi ⟨rfl, List.Sublist.refl _, rfl, rfl, rfl⟩
    next => simp at h
  | foldRows j =>
    simp only [stepTaskLocked] at h
    split at h
    next p queue proof toSubmit =>
      split at h
      next rows hrows =>
        cases Option.some.inj h
        have hrep : w.Replaces (w.setTask i (.folding (p :: queue) (.resolved proof rows) toSubmit))
          [.folding (p :: queue) (.proved proof) toSubmit] [.folding (p :: queue) (.resolved proof rows) toSubmit] :=
          replaces_setTask hi rfl
        have hframe : Frame w (w.setTask i (.folding (p :: queue) (.resolved proof rows) toSubmit)) := by
          refine hrep.frame (fun _ hid => hid) List.nodup_nil (by simp [Task.reserved]) (by simp [Task.witnessed]) ?_
          intro x hx
          rw [List.mem_singleton.mp hx]
          exact ⟨mem_inflight hi List.mem_cons_self, hrows⟩
        exact .routine hframe (RoutineCommits.refl hok.book) (fun _ _ hs => hs)
          (hrep.perm_flatMap Task.closing [] [] (List.Perm.refl _)).symm
          (hrep.subperm_inflight rfl (List.Sublist.refl _))
      next =>
        cases Option.some.inj h
        exact effect_setTask hok hi ⟨rfl, List.sublist_cons_self _ _, rfl, rfl, rfl⟩
    next => simp at h
  | foldSubmit j clock ok =>
    simp only [stepTaskLocked] at h
    split at h
    next p queue proof rows toSubmit =>
      split at h
      next st store hst =>
        cases Option.some.inj h
        cases Option.some.inj ha
        obtain ⟨ev, hcore, hdata, hpending⟩ := finalizePendingBatch_commits hok.book hst
        have hrep : w.Replaces ((w.withCore st store).setTask i (.folding (p :: queue) (.submitted proof) toSubmit))
          [.folding (p :: queue) (.resolved proof rows) toSubmit] [.folding (p :: queue) (.submitted proof) toSubmit] :=
          replaces_setTask hi rfl
        have hsubmits : w.submits (.foldSubmit i clock ok) = some p := by rw [submits, hi]
        exact .submit (hrep.frame_plain (fun _ hid => hid) rfl rfl rfl) p rows proof.proofBytes ev hsubmits
          (mem_flatMap_tasks hi List.mem_cons_self) hcore hdata hpending rfl
          (hrep.perm_flatMap Task.closing [] [] (List.Perm.refl _)).symm
          (((hrep.perm_flatMap Task.inflight [] [p] (List.Perm.refl _)).append_left w.collected).trans
            List.perm_middle)
      next =>
        cases Option.some.inj h
        exact effect_setTask hok hi ⟨rfl, List.sublist_cons_self _ _, rfl, rfl, rfl⟩
    next => simp at h
  | foldPayload j =>
    simp only [stepTaskLocked] at h
    split at h
    next p queue proof toSubmit =>
      cases Option.some.inj h
      exact effect_setTask_core hi (storePayload_commits hok.book p.batchId proof.payload)
        ⟨rfl, List.Sublist.refl _, rfl, rfl, rfl⟩
    next => simp at h
  | submitStart j =>
    simp only [stepTaskLocked] at h
    split at h
    next b ids after =>
      have hcore := @acquireSubmit_commits env w.state w.store hok.book b
      split at h
      next st batch hst =>
        cases Option.some.inj h
        rw [hst] at hcore
        exact effect_setTask_core hi hcore ⟨rfl, List.Sublist.refl _, rfl, rfl, rfl⟩
      next st start hst =>
        cases Option.some.inj h
        rw [hst] at hcore
        exact effect_setTask_core hi hcore ⟨rfl, List.Sublist.refl _, rfl, rfl, rfl⟩
    next => simp at h
  | submitApply j =>
    simp only [stepTaskLocked] at h
    split at h
    next b ids event after =>
      cases Option.some.inj h
      have hrep : w.Replaces ((w.withState (closeBatch w.state b event)).setTask i (.submitting ids .start after))
        [.submitting (b :: ids) (.confirmed event) after] [.submitting ids .start after] := replaces_setTask hi rfl
      exact .closes (hrep.frame_plain (fun _ hid => hid) rfl rfl rfl) b event rfl rfl rfl
        (hrep.perm_flatMap Task.closing [] [_] (List.Perm.refl _)) (hrep.perm_inflight rfl (List.Perm.refl _))
    next => simp at h
  | submitFail j now =>
    simp only [stepTaskLocked] at h
    split at h
    next b ids after =>
      cases Option.some.inj h
      exact effect_setTask_core hi (noteSubmitFailure_commits hok.book b now) ⟨rfl, List.Sublist.refl _, rfl, rfl, rfl⟩
    next => simp at h
  | submitEnd j now batchIds =>
    simp only [stepTaskLocked] at h
    split at h
    next skip =>
      split at h
      next =>
        cases Option.some.inj h
        exact effect_setTask hok hi ⟨rfl, List.Sublist.refl _, rfl, rfl, rfl⟩
      next => simp at h
    next =>
      cases Option.some.inj h
      refine Replaces.routine (replaces_endTask hi rfl) ⟨rfl, List.Sublist.refl _, rfl, rfl, rfl⟩
        (RoutineCommits.refl hok.book) ?_ (fun _ hid => hid) rfl
      intro id s hs
      exact Table.lookup_of_retain hs
    next =>
      cases Option.some.inj h
      exact effect_endTask hok hi ⟨rfl, List.Sublist.refl _, rfl, rfl, rfl⟩
    next => simp at h
  | settleApply j =>
    simp only [stepTaskLocked] at h
    split at h
    next b event =>
      cases Option.some.inj h
      have hrep : w.Replaces ((w.withState (closeBatch w.state b event)).endTask i) [.settling b event] [] :=
        replaces_endTask hi rfl
      exact .closes (hrep.frame_plain (fun _ hid => hid) rfl rfl rfl) b event rfl rfl rfl
        (hrep.perm_flatMap Task.closing [] [_] (List.Perm.refl _)) (hrep.perm_inflight rfl (List.Perm.refl _))
    next => simp at h
  | _ => simp [stepTaskLocked] at h

theorem stepFree_effect (hok : w.Ok) (h : w.stepFree a = some w') : w.Effect a w' := by
  cases a with
  | settleBatch b blockNumber txHash now clock ok =>
    simp only [stepFree] at h
    split at h
    next store event ha =>
      cases Option.some.inj h
      obtain ⟨hlogs, hdata⟩ := logs_event ha
      have hrep : w.Replaces ((w.withStore store).spawn (.settling b event)) [] [.settling b event] := replaces_spawn rfl
      exact .opens (hrep.frame_plain (fun _ hid => hid) rfl rfl rfl) b event (Or.inr ⟨blockNumber, txHash, hdata⟩) hlogs
        rfl rfl (hrep.perm_flatMap Task.closing [_] [] (List.Perm.refl _)).symm
        (hrep.perm_inflight rfl (List.Perm.refl _))
    next =>
      cases Option.some.inj h
      exact effect_refl hok rfl rfl rfl rfl rfl rfl
  | setFinalizeEvery n =>
    cases Option.some.inj h
    split
    next => exact effect_refl hok rfl rfl rfl rfl rfl rfl
    next => exact effect_refl hok rfl rfl rfl rfl rfl rfl
  | _ => simp [stepFree] at h

theorem stepTick_effect (hok : w.Ok) {t : TickUnderLock} (ht : w.tick = some t) (h : w.stepTick t a = some w') :
    w.Effect a w' := by
  have hcollected : w.collected = t.pending := by rw [collected, ht]; rfl
  cases a with
  | tickPair auctionId batchIds clock ok =>
    simp only [stepTick] at h
    split at h
    next => simp at h
    next pair pairs hpairs =>
      split at h
      next hfresh =>
        have hskip : w.Effect (.tickPair auctionId batchIds clock ok)
            ((w.issue (auctionId :: batchIds)).withTick (some ⟨t.now, pairs, t.pending⟩)) :=
          Replaces.routine (replaces_refl rfl) ⟨rfl, List.Sublist.refl _, rfl, rfl, rfl⟩ (RoutineCommits.refl hok.book)
            (fun _ _ hs => hs) (fun _ hid => List.mem_append_right _ hid) hcollected.symm
        split at h
        next =>
          cases Option.some.inj h
          exact hskip
        next result hresult =>
          split at h
          next hlen =>
            split at h
            next =>
              cases Option.some.inj h
              exact hskip
            next st store pending hround =>
              cases Option.some.inj h
              obtain ⟨es, hcore, hdata, hpending, rfl⟩ := recordRound_commits hok.book hround
              have hframe : ∀ tick, Frame w (((w.issue (auctionId :: batchIds)).withCore st store).withTick tick) :=
                fun _ => Replaces.frame_plain (replaces_refl rfl) (fun _ hid => List.mem_append_right _ hid) rfl rfl rfl
              refine .round (hframe _) t.now auctionId batchIds ?_ hfresh.1 pair result hresult hlen es hcore hdata hpending
                rfl rfl ?_ ⟨t, ht, hpairs ▸ List.mem_cons_self⟩
              · intro id hid
                exact ⟨fun hused => hfresh.2 id hid hused.1, List.mem_append_left _ hid,
                  fun hres => hfresh.2 id hid (hok.reserved.2 id hres)⟩
              · rw [inflight, inflight, hcollected, List.append_assoc, collected]
                simp only [withTick, withCore, issue, Option.map_some, Option.getD_some, List.append_assoc]
                exact List.perm_append_comm.append_left t.pending
          next => simp at h
      next => simp at h
  | tickEnd =>
    simp only [stepTick] at h
    split at h
    next =>
      cases Option.some.inj h
      have hrep : w.Replaces ((w.withTick none).spawn (.folding t.pending .start [])) []
        [.folding t.pending .start []] := replaces_spawn rfl
      refine .routine (hrep.frame_plain (fun _ hid => hid) rfl rfl rfl) (RoutineCommits.refl hok.book)
        (fun _ _ hs => hs) (hrep.perm_flatMap Task.closing [] [] (List.Perm.refl _)).symm ?_
      have hperm := hrep.perm_flatMap Task.inflight t.pending [] (by simp [Task.inflight])
      rw [inflight, inflight, hcollected]
      exact hperm.symm.subperm
    next => simp at h
  | _ => simp [stepTick] at h

theorem stepLocked_effect (hok : w.Ok) (ht : w.tick = none) (h : w.stepLocked a = some w') : w.Effect a w' := by
  have hcollected : w.collected = [] := by rw [collected, ht]; rfl
  cases a with
  | registerPair pair config now clock ok =>
    cases Option.some.inj h
    unfold lockedCall
    split
    next st store hst =>
      obtain ⟨key, ev, hparse, habsent, hdata, hlogs, hst'⟩ := registerPair_logs now.2 hst
      exact .register (Replaces.frame_plain (replaces_refl rfl) (fun _ hid => hid) rfl rfl rfl) config rfl key ev hparse habsent
        hdata hlogs hst' rfl rfl rfl
    next => exact effect_refl hok rfl rfl rfl rfl rfl rfl
  | suspendPair pair now clock ok =>
    cases Option.some.inj h
    unfold lockedCall
    split
    next st store hst => exact effect_core (suspendPair_commits hok.book now.2 hst)
    next => exact effect_refl hok rfl rfl rfl rfl rfl rfl
  | delistPair pair openIds now clock ok =>
    simp only [stepLocked] at h
    split at h
    next =>
      cases Option.some.inj h
      exact effect_refl hok rfl rfl rfl rfl rfl rfl
    next key hkey =>
      split at h
      next hperm =>
        split at h
        next st store dropped hst =>
          cases Option.some.inj h
          have hopen : ∀ key', Pair.parse pair = .ok key' → openIds.Perm (w.state.book.orderIdsFor key') :=
            fun key' hkey' => Except.ok.inj (hkey.symm.trans hkey') ▸ hperm
          exact effect_spawn (delistPair_commits hok.book hopen hst) ⟨rfl, List.Sublist.refl _, rfl, rfl, rfl⟩
        next =>
          cases Option.some.inj h
          exact effect_refl hok rfl rfl rfl rfl rfl rfl
      next => simp at h
  | cancelOrder orderId reason now clock ok =>
    simp only [stepLocked] at h
    split at h
    next st store hst =>
      cases Option.some.inj h
      exact effect_spawn (cancelOrder_commits hok.book hst) ⟨rfl, List.Sublist.refl _, rfl, rfl, rfl⟩
    next =>
      cases Option.some.inj h
      exact effect_refl hok rfl rfl rfl rfl rfl rfl
  | placeOrder ciphertext proof caller =>
    simp only [stepLocked] at h
    split at h
    next =>
      cases Option.some.inj h
      exact effect_refl hok rfl rfl rfl rfl rfl rfl
    next =>
      cases Option.some.inj h
      exact effect_spawn (RoutineCommits.refl hok.book) ⟨rfl, List.Sublist.refl _, rfl, rfl, rfl⟩
  | tickStart now clock ok expired =>
    simp only [stepLocked] at h
    split at h
    next hperm =>
      cases Option.some.inj h
      exact Replaces.routine (replaces_refl rfl) ⟨rfl, List.Sublist.refl _, rfl, rfl, rfl⟩
        (expireOrders_commits hok.book hperm) (fun _ _ hs => hs) (fun _ hid => hid) hcollected.symm
    next => simp at h
  | submitBatch b =>
    cases Option.some.inj h
    exact effect_spawn (RoutineCommits.refl hok.book) ⟨rfl, List.Sublist.refl _, rfl, rfl, rfl⟩
  | resubmitPending batchIds =>
    simp only [stepLocked] at h
    split at h
    next =>
      cases Option.some.inj h
      exact effect_spawn (RoutineCommits.refl hok.book) ⟨rfl, List.Sublist.refl _, rfl, rfl, rfl⟩
    next => simp at h
  | _ => simp [stepLocked] at h

/-- Whatever section runs, its effect is one of the listed ones. -/
theorem step_effect (hok : w.Ok) (h : w.step a = some w') : w.Effect a w' := by
  unfold step at h
  split at h
  next i ha =>
    split at h
    next => simp at h
    next task hi =>
      split at h
      next w1 hfree =>
        cases Option.some.inj h
        exact stepTaskFree_effect hok hi hfree
      next =>
        split at h
        next => exact stepTaskLocked_effect hok hi ha h
        next => simp at h
  next =>
    split at h
    next w1 hfree =>
      cases Option.some.inj h
      exact stepFree_effect hok hfree
    next =>
      split at h
      next t ht => exact stepTick_effect hok ht h
      next ht => exact stepLocked_effect hok ht h

theorem step_ok (hok : w.Ok) (h : w.step a = some w') : w'.Ok := (step_effect hok h).ok hok

end World

end DarkPool
