import DarkPool.BookCapacity
import DarkPool.SubmitFlag

namespace DarkPool

variable {env : Env}

namespace OrderBook

variable {inner : OrderBook} {id : Uuid}

theorem findOrder_apply_none (hwf : inner.WF) (h : inner.findOrder id = none) (ev : Event) :
    (inner.apply ev).findOrder id = none := by
  have hwf' := wf_withSeq hwf (max inner.seq ev.seq)
  have hremoved : ∀ id', ((inner.withSeq (max inner.seq ev.seq)).removeOrder id').findOrder id = none := by
    intro id'
    rw [findOrder_removeOrder hwf']
    split
    next => rfl
    next => exact h
  have hfilled : ∀ {b : OrderBook} (fill : Fill), b.WF → b.findOrder id = none → (b.applyFill fill).findOrder id = none := by
    intro b fill hb hnone
    rw [findOrder_applyFill hb, hnone]
    split <;> rfl
  unfold apply
  split
  next => exact h
  next =>
    cases ev.data with
    | orderCancelled id' reason => exact hremoved id'
    | orderExpired id' => exact hremoved id'
    | orderMatched auctionId bid ask price size => exact hfilled ask (wf_applyFill hwf' bid) (hfilled bid hwf' h)
    | _ => exact h

/-- Applying events never brings an order back. -/
theorem findOrder_applyAll_none (hwf : inner.WF) (h : inner.findOrder id = none) (es : List Event) :
    (inner.applyAll es).findOrder id = none := by
  induction es generalizing inner with
  | nil => exact h
  | cons ev es ih => exact ih (wf_apply hwf ev) (findOrder_apply_none hwf h ev)

theorem findOrder_cancelled (hwf : inner.WF) {n : Nat} {es : List Event} (hseq : inner.seq ≤ n) (hnum : Numbered n es)
    {ev : Event} {reason : String} (hev : ev ∈ es) (hdata : ev.data = .orderCancelled id reason) :
    (inner.applyAll es).findOrder id = none := by
  induction es generalizing inner n with
  | nil => simp at hev
  | cons e es ih =>
    obtain ⟨he, hrest⟩ := numbered_cons.mp hnum
    have hlt : inner.seq < e.seq := by omega
    rcases List.mem_cons.mp hev with rfl | hev
    · refine findOrder_applyAll_none (wf_apply hwf ev) ?_ es
      rw [apply, if_neg (by omega), hdata, applyData, findOrder_removeOrder (wf_withSeq hwf _), if_pos rfl]
    · exact ih (wf_apply hwf e) ((seq_apply hlt).trans he).le hrest hev

theorem hasOrder_of_mem_orderIdsFor {pair : String} (h : id ∈ inner.orderIdsFor pair) : inner.hasOrder id = true := by
  unfold orderIdsFor at h
  split at h
  next book hbook =>
    have hside : ∃ side o, (book.side side).lookup id = some o := by
      rcases List.mem_append.mp h with h | h
      · exact ⟨.buy, Table.mem_iff_lookup.mp h⟩
      · exact ⟨.sell, Table.mem_iff_lookup.mp h⟩
    obtain ⟨side, o, ho⟩ := hside
    by_contra hnone
    have hlocate : inner.locate id = none := by simpa [hasOrder] using hnone
    have hslot := lookupAt_of_book hbook ho
    rw [locate_eq_none hlocate] at hslot
    simp at hslot
  next => simp at h

end OrderBook

section Calls

variable {st st' : EngineState} {store store' : Store} {now clock : DateTime} {ok : Bool}
variable (hwf : st.book.WF) (hseq : st.book.seq ≤ store.seq)
include hwf hseq

theorem hasOrder_cancelled {events stamped : List Event} (ha : appendEvents store clock ok events = .ok (store', stamped))
    {ev : Event} {id : Uuid} {reason : String} (hev : ev ∈ events) (hdata : ev.data = .orderCancelled id reason) :
    (st.book.applyAll stamped).hasOrder id = false := by
  obtain ⟨-, hstamped, -⟩ := appendEvents_eq_ok.mp ha
  have hmem : EventData.orderCancelled id reason ∈ stamped.map Event.data := by
    rw [hstamped, Store.data_stamp, ← hdata]
    exact List.mem_map_of_mem hev
  obtain ⟨ev', hev', hdata'⟩ := List.mem_map.mp hmem
  have hgone := OrderBook.findOrder_cancelled hwf hseq (hstamped ▸ Store.numbered_stamp clock store.seq _) hev' hdata'
  rw [OrderBook.hasOrder_eq, hgone]
  rfl

/-- A cancelled order rested before and does not afterwards. -/
theorem cancelOrder_leaves {orderId : Uuid} {reason : Option String}
    (h : cancelOrder st store now clock ok orderId reason = .ok (st', store')) :
    st.book.hasOrder orderId = true ∧ st'.book.hasOrder orderId = false := by
  unfold cancelOrder at h
  split at h
  next hrests =>
    obtain ⟨⟨store1, stamped⟩, ha, h⟩ := bind_eq_ok.mp h
    cases Except.ok.inj h
    exact ⟨hrests, hasOrder_cancelled hwf hseq ha List.mem_cons_self rfl⟩
  next => cases h

theorem delistPair_leaves {pair : String} {openIds dropped : List Uuid}
    (hopen : ∀ key, Pair.parse pair = .ok key → openIds.Perm (st.book.orderIdsFor key))
    (h : delistPair st store now clock ok pair openIds = .ok (st', store', dropped)) {id : Uuid} (hid : id ∈ dropped) :
    st.book.hasOrder id = true ∧ st'.book.hasOrder id = false := by
  simp only [delistPair, bind_eq_ok, mapErr_eq_ok] at h
  obtain ⟨key, hkey, h⟩ := h
  split at h
  next => cases h
  next =>
    split at h
    next =>
      cases Except.ok.inj h
      simp at hid
    next =>
      obtain ⟨⟨store1, stamped⟩, ha, h⟩ := bind_eq_ok.mp h
      cases Except.ok.inj h
      refine ⟨OrderBook.hasOrder_of_mem_orderIdsFor ((hopen key hkey).mem_iff.mp hid), ?_⟩
      exact hasOrder_cancelled hwf hseq ha (List.mem_append_left _ (List.mem_map.mpr ⟨id, hid, rfl⟩)) rfl

end Calls

/-- The orders whose secrets the call is about to drop. -/
def Task.leaving : Task env → List Uuid
  | .dropping orderIds => orderIds
  | _ => []

namespace World

variable {w w' : World env} {i : Nat} {task t : Task env} {a : Action}

def leaving (w : World env) : List Uuid := w.tasks.flatMap Task.leaving

/-- What a section can do to the witness secrets: it loses one only when the order is leaving or does not
rest, and an order starts leaving as it is taken out of the book. -/
structure Custody (w w' : World env) : Prop where
  secrets : ∀ id, (w.secrets.lookup id).isSome →
    (w'.secrets.lookup id).isSome ∨ id ∈ w.leaving ∨ w'.state.book.hasOrder id = false
  leaving : ∀ id ∈ w'.leaving, id ∈ w.leaving ∨ w.state.book.hasOrder id = true ∧ w'.state.book.hasOrder id = false

theorem custody_of_subset (hsecrets : w'.secrets = w.secrets) (hleaving : w'.leaving ⊆ w.leaving) : Custody w w' where
  secrets := fun _ hid => Or.inl (hsecrets ▸ hid)
  leaving := fun _ hid => Or.inl (hleaving hid)

theorem custody_refl (hsecrets : w'.secrets = w.secrets) (htasks : w'.tasks = w.tasks) : Custody w w' :=
  custody_of_subset hsecrets ((replaces_refl htasks).perm_of_eq rfl).subset

theorem custody_spawn (hsecrets : w'.secrets = w.secrets) (htasks : w'.tasks = w.tasks ++ [t]) (ht : t.leaving = []) :
    Custody w w' := custody_of_subset hsecrets ((replaces_spawn htasks).perm_of_eq (by simp [ht])).subset

theorem custody_setTask (hsecrets : w'.secrets = w.secrets) (hi : w.tasks[i]? = some task)
    (htasks : w'.tasks = w.tasks.set i t) (ht : t.leaving = task.leaving) : Custody w w' :=
  custody_of_subset hsecrets ((replaces_setTask hi htasks).perm_of_eq (by simp [ht])).subset

theorem custody_endTask (hsecrets : w'.secrets = w.secrets) (hi : w.tasks[i]? = some task)
    (htasks : w'.tasks = w.tasks.eraseIdx i) (ht : task.leaving = []) : Custody w w' :=
  custody_of_subset hsecrets ((replaces_endTask hi htasks).perm_of_eq (by simp [ht])).subset

theorem stepTaskFree_custody (hi : w.tasks[i]? = some task) (h : w.stepTaskFree i task a = some w') : Custody w w' := by
  cases a with
  | dropSecret j =>
    simp only [stepTaskFree] at h
    split at h
    next =>
      cases Option.some.inj h
      exact custody_endTask rfl hi rfl rfl
    next id ids =>
      cases Option.some.inj h
      have hleaves : id ∈ w.leaving := mem_flatMap_tasks hi List.mem_cons_self
      refine ⟨fun id' hid' => ?_, fun id' hid' => Or.inl ?_⟩
      · by_cases heq : id' = id
        · exact Or.inr (Or.inl (heq ▸ hleaves))
        · refine Or.inl ?_
          simp only [setTask, withSecrets, DarkPool.dropSecret, Table.lookup_erase_eq, if_neg heq]
          exact hid'
      · have hreplaces : w.Replaces ((w.withSecrets (DarkPool.dropSecret w.secrets id)).setTask i (.dropping ids))
            [.dropping (id :: ids)] [.dropping ids] := replaces_setTask hi rfl
        obtain ⟨rest, hw, hw'⟩ := hreplaces.flatMap Task.leaving
        refine hw.mem_iff.mpr ?_
        rcases List.mem_append.mp (hw'.mem_iff.mp hid') with hid' | hid'
        · exact List.mem_append_left _ (List.mem_cons_of_mem id hid')
        · exact List.mem_append_right _ hid'
    next => cases h
  | _ =>
    simp only [stepTaskFree] at h
    repeat' split at h
    all_goals first
      | (cases Option.some.inj h; exact custody_setTask rfl hi rfl rfl)
      | cases h

theorem stepFree_custody (h : w.stepFree a = some w') : Custody w w' := by
  unfold stepFree at h
  repeat' split at h
  all_goals first
    | (cases Option.some.inj h; exact custody_refl rfl rfl)
    | (cases Option.some.inj h; exact custody_spawn rfl rfl rfl)
    | cases h

theorem stepTaskLocked_custody (hi : w.tasks[i]? = some task) (h : w.stepTaskLocked i task a = some w') :
    Custody w w' := by
  cases a with
  | persistOrder j clock ok =>
    simp only [stepTaskLocked] at h
    split at h
    next order =>
      split at h
      next st store secrets hpersist =>
        cases Option.some.inj h
        simp only [persistOrderPlaced, bind_eq_ok] at hpersist
        obtain ⟨_, -, _, -, _, -, _, -, hpersist⟩ := hpersist
        cases Except.ok.inj hpersist
        refine ⟨fun id hid => Or.inl ?_, fun id hid => Or.inl ?_⟩
        · simp only [endTask, withSecrets, Table.lookup_insert_eq]
          split
          next => rfl
          next => exact hid
        · exact ((replaces_endTask hi rfl).perm_of_eq rfl).subset hid
      next =>
        cases Option.some.inj h
        exact custody_endTask rfl hi rfl rfl
    next => cases h
  | submitEnd j now batchIds =>
    simp only [stepTaskLocked] at h
    split at h
    next skip =>
      split at h
      next =>
        cases Option.some.inj h
        exact custody_setTask rfl hi rfl rfl
      next => cases h
    next =>
      cases Option.some.inj h
      refine ⟨fun id hid => ?_, fun id hid => Or.inl (((replaces_endTask hi rfl).perm_of_eq rfl).subset hid)⟩
      obtain ⟨s, hs⟩ := Option.isSome_iff_exists.mp hid
      cases hrests : w.state.book.hasOrder id with
      | true => exact Or.inl (Option.isSome_of_eq_some (Table.lookup_retain_of_keep hs hrests))
      | false => exact Or.inr (Or.inr hrests)
    next =>
      cases Option.some.inj h
      exact custody_endTask rfl hi rfl rfl
    next => cases h
  | _ =>
    simp only [stepTaskLocked] at h
    repeat' split at h
    all_goals first
      | (cases Option.some.inj h; exact custody_setTask rfl hi rfl rfl)
      | (cases Option.some.inj h; exact custody_endTask rfl hi rfl rfl)
      | cases h

theorem stepTick_custody {tick : TickUnderLock} (h : w.stepTick tick a = some w') : Custody w w' := by
  unfold stepTick at h
  simp only at h
  repeat' split at h
  all_goals first
    | (cases Option.some.inj h; exact custody_refl rfl rfl)
    | (cases Option.some.inj h; exact custody_spawn rfl rfl rfl)
    | cases h

theorem custody_leaves {ids : List Uuid} (hsecrets : w'.secrets = w.secrets)
    (htasks : w'.tasks = w.tasks ++ [.dropping ids])
    (hids : ∀ id ∈ ids, w.state.book.hasOrder id = true ∧ w'.state.book.hasOrder id = false) : Custody w w' := by
  refine ⟨fun _ hid => Or.inl (hsecrets ▸ hid), fun id hid => ?_⟩
  obtain ⟨rest, hw, hw'⟩ := (replaces_spawn htasks).flatMap Task.leaving
  rcases List.mem_append.mp (hw'.mem_iff.mp hid) with hid | hid
  · exact Or.inr (hids id (by simpa [Task.leaving] using hid))
  · exact Or.inl (hw.mem_iff.mpr hid)

theorem stepLocked_custody (hok : w.Ok) (hwf : w.state.book.WF) (h : w.stepLocked a = some w') : Custody w w' := by
  cases a with
  | delistPair pair openIds now clock ok =>
    simp only [stepLocked] at h
    split at h
    next =>
      cases Option.some.inj h
      exact custody_refl rfl rfl
    next key hkey =>
      split at h
      next hperm =>
        split at h
        next st store dropped hst =>
          cases Option.some.inj h
          have hopen : ∀ key', Pair.parse pair = .ok key' → openIds.Perm (w.state.book.orderIdsFor key') :=
            fun key' hkey' => Except.ok.inj (hkey.symm.trans hkey') ▸ hperm
          exact custody_leaves rfl rfl (fun id hid => delistPair_leaves hwf hok.book hopen hst hid)
        next =>
          cases Option.some.inj h
          exact custody_refl rfl rfl
      next => cases h
  | cancelOrder orderId reason now clock ok =>
    simp only [stepLocked] at h
    split at h
    next st store hst =>
      cases Option.some.inj h
      refine custody_leaves rfl rfl (fun id hid => ?_)
      rw [List.mem_singleton.mp hid]
      exact cancelOrder_leaves hwf hok.book hst
    next =>
      cases Option.some.inj h
      exact custody_refl rfl rfl
  | _ =>
    simp only [stepLocked, lockedCall] at h
    repeat' split at h
    all_goals first
      | (cases Option.some.inj h; exact custody_refl rfl rfl)
      | (cases Option.some.inj h; exact custody_spawn rfl rfl rfl)
      | cases h

theorem step_custody (hok : w.Ok) (hwf : w.state.book.WF) (h : w.step a = some w') : Custody w w' := by
  unfold World.step at h
  split at h
  next i hi =>
    split at h
    next => cases h
    next task htask =>
      split at h
      next w1 hfree =>
        cases Option.some.inj h
        exact stepTaskFree_custody htask hfree
      next =>
        split at h
        next => exact stepTaskLocked_custody htask h
        next => cases h
  next =>
    split at h
    next w1 hfree =>
      cases Option.some.inj h
      exact stepFree_custody hfree
    next =>
      split at h
      next => exact stepTick_custody h
      next => exact stepLocked_custody hok hwf h

end World

namespace System

variable {σ σ' : System env} {m : Move}

/-- An order that rests after a move rested before it, or the move placed it. -/
theorem Effect.hasOrder (heffect : σ.Effect m σ') (h : Recorded σ) {id : Uuid}
    (hid : σ'.world.state.book.hasOrder id = true) :
    σ.world.state.book.hasOrder id = true ∨ ∃ ev placed, World.Places σ.world σ'.world ev placed ∧ placed.order.id = id := by
  have hrec' := heffect.recorded h
  have hwf : σ.world.state.book.WF := h.filed.book_wf h.books
  obtain ⟨o, ho, rfl⟩ := (OrderBook.hasOrder_iff (hrec'.filed.book_wf hrec'.books)).mp hid
  have hold : σ.world.state.book.Kin o → σ.world.state.book.hasOrder o.id = true := by
    rintro ⟨o', ho', hid', -⟩
    exact (OrderBook.hasOrder_iff hwf).mpr ⟨o', ho', hid'⟩
  rcases heffect.kin h with hkin | ⟨ev, placed, -, hplaces, hkin⟩
  · exact Or.inl (hold (hkin o ho))
  · rcases hkin o ho with rfl | hkin
    · exact Or.inr ⟨ev, placed, hplaces, rfl⟩
    · exact Or.inl (hold hkin)

theorem Recorded.directory_hasOrder (h : Recorded σ) {id : Uuid} (hid : σ.world.state.book.hasOrder id = true) :
    ((directory env σ.log).lookup id).isSome := by
  obtain ⟨o, ho, rfl⟩ := (OrderBook.hasOrder_iff (h.filed.book_wf h.books)).mp hid
  obtain ⟨placed, hlookup, -⟩ := (allOrders_iff σ.world.state.book).mp (h.books ▸ h.filed.listed) o ho
  exact Option.isSome_of_eq_some hlookup

/-- The orders whose secrets are about to be dropped are out of the book for good. -/
structure Parted (σ : System env) : Prop extends Capped σ where
  leaving : ∀ id ∈ σ.world.leaving, σ.world.Used id ∧ σ.world.state.book.hasOrder id = false

theorem parted_initial (env : Env) : Parted (initial env) where
  toCapped := capped_initial env
  leaving := by simp [World.leaving, initial, World.initial]

theorem Parted.step (h : Parted σ) (hstep : σ.step m = some σ') : Parted σ' := by
  have heffect := step_effect h.toKept hstep
  refine ⟨h.toCapped.step hstep, ?_⟩
  have hgone : ∀ id ∈ σ.world.leaving, σ'.world.Used id ∧ σ'.world.state.book.hasOrder id = false := by
    intro id hid
    obtain ⟨hused, hout⟩ := h.leaving id hid
    refine ⟨heffect.used hused, ?_⟩
    by_contra hrests
    rcases heffect.hasOrder h.toRecorded (by simpa using hrests) with hold | ⟨ev, placed, hplaces, rfl⟩
    · simp [hout] at hold
    · exact hplaces.fresh hused
  have hcases := heffect
  cases hcases with
  | op step effect =>
    intro id hid
    have hwf := h.filed.book_wf h.books
    rcases (World.step_custody h.logged.ok hwf step).leaving id hid with hold | ⟨hrests, hout⟩
    · exact hgone id hold
    · exact ⟨heffect.used (h.used id (h.toRecorded.directory_hasOrder hrests)), hout⟩
  | capture idle => exact hgone
  | publish store world log holds tail covered envelopes =>
    rw [world] at hgone ⊢
    exact hgone
  | restart out start seq r es recovers fresh =>
    simp [World.leaving, withWorld, World.restarted, World.initial]

/-- Every resting order that was placed after `log` has its witness secret. -/
structure Entrusted (log : List Event) (σ : System env) : Prop extends Parted σ where
  held : ∀ id, σ.world.state.book.hasOrder id = true → (directory env log).lookup id = none →
    (σ.world.secrets.lookup id).isSome

theorem Parted.entrusted (h : Parted σ) : Entrusted σ.log σ where
  toParted := h
  held := by
    intro id hid hnone
    have hsome := h.toRecorded.directory_hasOrder hid
    rw [hnone] at hsome
    simp at hsome

theorem Entrusted.step {log : List Event} (h : Entrusted log σ) (hm : ∀ decodes choice, m ≠ .restart decodes choice)
    (hstep : σ.step m = some σ') : Entrusted log σ' := by
  have heffect := step_effect h.toKept hstep
  refine ⟨h.toParted.step hstep, ?_⟩
  intro id hid hnone
  rcases heffect.hasOrder h.toRecorded hid with hold | ⟨ev, placed, hplaces, rfl⟩
  · have hheld := h.held id hold hnone
    cases heffect with
    | op step effect =>
      have hwf := h.filed.book_wf h.books
      rcases (World.step_custody h.logged.ok hwf step).secrets id hheld with hkept | hleaves | hout
      · exact hkept
      · rw [(h.leaving id hleaves).2] at hold
        simp at hold
      · rw [withWorld] at hid
        simp [hout] at hid
    | capture idle => exact hheld
    | publish store world log holds tail covered envelopes =>
      rw [world]
      exact hheld
    | restart out start seq r es recovers fresh => exact absurd rfl (hm _ _)
  · exact hplaces.secret

end System

/-- In every state the engine reaches, live or by recovery: the book lists no id twice and files every order
under its own pair and side, no sub-book is empty, an order has left what its size exceeds its logged fills
by, the caps hold, and every resting order placed since `τ` has its witness secret when no restart came
after `τ`. -/
theorem reachable_book_sound {env : Env} {before during : List Move} {τ σ : System env}
    (hbefore : Transition.run System.step (System.initial env) before = some τ)
    (hduring : Transition.run System.step τ during = some σ)
    (hlive : ∀ m ∈ during, ∀ decodes choice, m ≠ .restart decodes choice) :
    (σ.world.state.book.iterAll.map Order.id).Nodup ∧
      (∀ pair side id o, σ.world.state.book.lookupAt pair side id = some o → o.id = id ∧ o.pair = pair ∧ o.side = side) ∧
      (∀ pair book, σ.world.state.book.books.lookup pair = some book → book.isEmpty = false) ∧
      (∀ o ∈ σ.world.state.book.iterAll, 0 < o.remainingSize ∧ o.remainingSize ≤ o.size ∧
        o.remainingSize = o.size - loggedFills σ.log o.id) ∧
      σ.world.state.book.activeOrderCount ≤ 16384 ∧
      (∀ trader, σ.world.state.book.activeOrderCountForTrader trader ≤ 128) ∧
      ∀ o ∈ σ.world.state.book.iterAll, (directory env τ.log).lookup o.id = none →
        (σ.world.secrets.lookup o.id).isSome := by
  have hparted : System.Parted τ :=
    Transition.run_preserves (fun _ _ _ hs hstep => hs.step hstep) (System.parted_initial env) hbefore
  have h : System.Entrusted τ.log σ :=
    Transition.run_invariant (fun _ _ _ hs hm hstep => hs.step hm hstep) hparted.entrusted (Transition.meets_of_mem hlive)
      hduring
  have hwf : σ.world.state.book.WF := h.filed.book_wf h.books
  refine ⟨OrderBook.iterAll_ids_nodup hwf, fun _ _ _ _ hslot => hwf.keyed hslot, fun _ _ hbook => hwf.nonempty hbook,
    ?_, h.total, h.trader, ?_⟩
  · intro o ho
    obtain ⟨hpos, hleft⟩ := (allOrders_iff σ.world.state.book).mp (h.books ▸ h.ledger.remains) o ho
    refine ⟨hpos, ?_, hleft⟩
    rw [hleft]
    exact sub_le_self _ (h.ledger.nonneg o.id)
  · intro o ho hnone
    exact h.held o.id ((OrderBook.hasOrder_iff hwf).mpr ⟨o, ho, rfl⟩) hnone

open Scenario in
/-- One order is placed before a restart and one after it: both rest, and only the second has its secret. -/
theorem reachable_book_sound_restarted :
    ∃ τ σ, Transition.run System.step (System.initial Scenario.env)
        ((placing.take 4).map .op ++ [.restart (fun _ => true) choice]) = some τ ∧
      Transition.run System.step τ ((placing.drop 4).map .op) = some σ ∧
      (σ.world.state.book.iterAll.map Order.id).Perm [11, 12] ∧ σ.world.secrets.lookup 11 = none ∧
      ∀ o ∈ σ.world.state.book.iterAll, (directory Scenario.env τ.log).lookup o.id = none →
        (σ.world.secrets.lookup o.id).isSome := by
  have hrun : (Transition.run System.step (System.initial Scenario.env)
      ((placing.take 4).map .op ++ [.restart (fun _ => true) choice])).any (fun τ =>
        (Transition.run System.step τ ((placing.drop 4).map .op)).any (fun σ =>
          decide ((σ.world.state.book.iterAll.map Order.id).Perm [11, 12]) &&
            (σ.world.secrets.lookup 11).isNone)) = true := by
    decide +kernel
  obtain ⟨τ, hτ, hrun⟩ := (Option.any_eq_true _ _).mp hrun
  obtain ⟨σ, hσ, hcheck⟩ := (Option.any_eq_true _ _).mp hrun
  obtain ⟨hids, hnone⟩ := (Bool.and_eq_true _ _).mp hcheck
  have hlive : ∀ m ∈ (placing.drop 4).map Move.op, ∀ decodes choice, m ≠ .restart decodes choice := by
    intro m hm decodes choice
    obtain ⟨a, -, rfl⟩ := List.mem_map.mp hm
    simp
  obtain ⟨-, -, -, -, -, -, hsecrets⟩ := reachable_book_sound hτ hσ hlive
  exact ⟨τ, σ, hτ, hσ, of_decide_eq_true hids, Option.isNone_iff_eq_none.mp hnone, hsecrets⟩

end DarkPool
