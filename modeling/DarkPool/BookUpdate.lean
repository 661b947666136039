import DarkPool.BookFind

namespace DarkPool

namespace OrderBook

theorem lookupAt_books_insert (inner : OrderBook) (pair : String) (book : PerPairBook) (seq : Nat)
    (p : String) (s : Side) (i : Uuid) :
    lookupAt ⟨inner.books.insert pair book, seq⟩ p s i =
      if p = pair then (book.side s).lookup i else inner.lookupAt p s i := by
  unfold lookupAt
  simp only [Table.lookup_insert_eq]
  split <;> rfl

theorem lookupAt_books_erase (inner : OrderBook) (pair : String) (seq : Nat) (p : String) (s : Side) (i : Uuid) :
    lookupAt ⟨inner.books.erase pair, seq⟩ p s i = if p = pair then none else inner.lookupAt p s i := by
  unfold lookupAt
  simp only [Table.lookup_erase_eq]
  split <;> rfl

/-- The book `inner'` is `inner` with the slot of one pair, side and id set to `v`. -/
def SlotSet (inner inner' : OrderBook) (pair : String) (side : Side) (id : Uuid) (v : Option Order) : Prop :=
  ∀ p s i, inner'.lookupAt p s i = if p = pair ∧ s = side ∧ i = id then v else inner.lookupAt p s i

theorem lookupAt_eq_side {inner : OrderBook} {pair : String} {book : PerPairBook}
    (hb : inner.books.lookup pair = some book) (s : Side) (i : Uuid) :
    inner.lookupAt pair s i = (book.side s).lookup i := by
  simp [lookupAt, hb]

theorem slotSet_insert {inner : OrderBook} {pair : String} {book : PerPairBook}
    (hb : ∀ s i, inner.lookupAt pair s i = (book.side s).lookup i) (side : Side) (id : Uuid) (o : Order)
    (seq : Nat) :
    SlotSet inner ⟨inner.books.insert pair (book.setSide side ((book.side side).insert id o)), seq⟩
      pair side id (some o) := by
  intro p s i
  rw [lookupAt_books_insert]
  by_cases hp : p = pair
  · subst hp
    by_cases hs : s = side
    · subst hs
      simp [Table.lookup_insert_eq, hb]
    · simp [hs, hb]
  · simp [hp]

theorem slotSet_dropResting {inner : OrderBook} {r : Resting} (hb : inner.books.lookup r.pair = some r.book)
    (id : Uuid) : SlotSet inner (inner.dropResting r id) r.pair r.side id none := by
  have hinsert : SlotSet inner ⟨inner.books.insert r.pair
      (r.book.setSide r.side ((r.book.side r.side).erase id)), inner.seq⟩ r.pair r.side id none := by
    intro p s i
    rw [lookupAt_books_insert]
    by_cases hp : p = r.pair
    · subst hp
      by_cases hs : s = r.side
      · subst hs
        simp [Table.lookup_erase_eq, lookupAt, hb]
      · simp [hs, lookupAt, hb]
    · simp [hp]
  unfold dropResting
  simp only
  split
  next hempty =>
    intro p s i
    rw [← hinsert p s i, lookupAt_books_insert, lookupAt_books_erase]
    split
    next => exact (PerPairBook.isEmpty_iff.mp hempty s i).symm
    next => rfl
  next => exact hinsert

theorem slotSet_insertOrder (inner : OrderBook) (o : Order) :
    SlotSet inner (inner.insertOrder o) o.pair o.side o.id (some o) := by
  apply slotSet_insert
  intro s i
  cases hb : inner.books.lookup o.pair with
  | some book => exact lookupAt_eq_side hb s i
  | none => cases s <;> simp [lookupAt, hb, PerPairBook.empty, PerPairBook.side]

section Slot

variable {inner inner' : OrderBook} {pair : String} {side : Side} {id : Uuid} {v : Option Order}

/-- Setting a slot to an order that belongs there, or emptying it, keeps the filing. -/
theorem SlotSet.wf (h : SlotSet inner inner' pair side id v) (hwf : inner.WF)
    (hown : ∀ o, v = some o → o.id = id ∧ o.pair = pair ∧ o.side = side)
    (helse : ∀ p s o, inner.lookupAt p s id = some o → v ≠ none → p = pair ∧ s = side)
    (hne : ∀ p book, inner'.books.lookup p = some book → book.isEmpty = false) : inner'.WF where
  keyed := by
    intro p s i o ho
    rw [h p s i] at ho
    split at ho
    next heq =>
      obtain ⟨rfl, rfl, rfl⟩ := heq
      exact hown o ho
    next => exact hwf.keyed ho
  unique := by
    intro p s p' s' i o o' ho ho'
    rw [h p s i] at ho
    rw [h p' s' i] at ho'
    split at ho
    next heq =>
      obtain ⟨rfl, rfl, rfl⟩ := heq
      split at ho'
      next => exact Option.some.inj (ho.symm.trans ho')
      next hne' =>
        obtain ⟨rfl, rfl⟩ := helse p' s' o' ho' (by simp [ho])
        exact absurd ⟨rfl, rfl, rfl⟩ hne'
    next hne' =>
      split at ho'
      next heq =>
        obtain ⟨rfl, rfl, rfl⟩ := heq
        obtain ⟨rfl, rfl⟩ := helse p s o ho (by simp [ho'])
        exact absurd ⟨rfl, rfl, rfl⟩ hne'
      next => exact hwf.unique ho ho'
  nonempty := fun hb => hne _ _ hb

theorem SlotSet.findOrder (h : SlotSet inner inner' pair side id v) (hwf : inner.WF) (hwf' : inner'.WF)
    (hsome : ∀ o, inner.findOrder id = some o → inner.lookupAt pair side id = some o) (i : Uuid) :
    inner'.findOrder i = if i = id then v else inner.findOrder i := by
  have hiff : ∀ o, inner'.findOrder i = some o ↔ (if i = id then v else inner.findOrder i) = some o := by
    intro o
    rw [findOrder_eq_some hwf']
    split
    next heq =>
      subst heq
      constructor
      · rintro ⟨p, s, hl⟩
        rw [h p s i] at hl
        split at hl
        next => exact hl
        next hne =>
          have hfound := (findOrder_eq_some hwf).mpr ⟨p, s, hl⟩
          have hslot := hsome o hfound
          obtain ⟨-, rfl, rfl⟩ := hwf.keyed hl
          obtain ⟨-, hp, hs⟩ := hwf.keyed hslot
          exact absurd ⟨hp, hs, rfl⟩ hne
      · intro hv
        exact ⟨pair, side, by rw [h]; simpa using hv⟩
    next hne =>
      rw [findOrder_eq_some hwf]
      simp [h _ _ i, hne]
  exact Option.ext (fun o => by simpa using hiff o)

end Slot

theorem isEmpty_setSide_insert (book : PerPairBook) (side : Side) (id : Uuid) (o : Order) :
    (book.setSide side ((book.side side).insert id o)).isEmpty = false := by
  rw [← Bool.not_eq_true, PerPairBook.isEmpty_iff]
  intro h
  have hslot := h side id
  simp at hslot

theorem nonempty_insert {inner : OrderBook} (hwf : inner.WF) (pair : String) (book : PerPairBook)
    (hbook : book.isEmpty = false) :
    ∀ p b, (inner.books.insert pair book).lookup p = some b → b.isEmpty = false := by
  intro p b hb
  rw [Table.lookup_insert_eq] at hb
  split at hb
  next => exact Option.some.inj hb ▸ hbook
  next => exact hwf.nonempty hb

section Operations

variable {inner : OrderBook}

theorem wf_insertOrder (hwf : inner.WF) {o : Order} (hfresh : inner.findOrder o.id = none) :
    (inner.insertOrder o).WF := by
  refine (slotSet_insertOrder inner o).wf hwf ?_ ?_ ?_
  · intro o' h
    cases Option.some.inj h
    exact ⟨rfl, rfl, rfl⟩
  · intro p s o' h
    rw [findOrder_eq_none hfresh] at h
    simp at h
  · exact nonempty_insert hwf _ _ (isEmpty_setSide_insert ..)

theorem findOrder_insertOrder (hwf : inner.WF) {o : Order} (hfresh : inner.findOrder o.id = none) (i : Uuid) :
    (inner.insertOrder o).findOrder i = if i = o.id then some o else inner.findOrder i := by
  refine (slotSet_insertOrder inner o).findOrder hwf (wf_insertOrder hwf hfresh) ?_ i
  intro o' h
  rw [hfresh] at h
  simp at h

theorem locate_findOrder {id : Uuid} {r : Resting} (h : inner.locate id = some r) :
    inner.findOrder id = some r.order := by
  simp [findOrder, h]

theorem wf_dropResting (hwf : inner.WF) {id : Uuid} {r : Resting} (h : inner.locate id = some r) :
    (inner.dropResting r id).WF := by
  refine (slotSet_dropResting (locate_eq_some h).1 id).wf hwf ?_ ?_ ?_
  · intro o ho
    simp at ho
  · intro p s o _ hne
    exact absurd rfl hne
  · intro p b hb
    unfold dropResting at hb
    simp only at hb
    split at hb
    next =>
      simp only [Table.lookup_erase_eq] at hb
      split at hb
      next => simp at hb
      next => exact hwf.nonempty hb
    next hne => exact nonempty_insert hwf _ _ (by simpa using hne) p b hb

theorem findOrder_dropResting (hwf : inner.WF) {id : Uuid} {r : Resting} (h : inner.locate id = some r)
    (i : Uuid) : (inner.dropResting r id).findOrder i = if i = id then none else inner.findOrder i := by
  refine (slotSet_dropResting (locate_eq_some h).1 id).findOrder hwf (wf_dropResting hwf h) ?_ i
  intro o ho
  rw [locate_findOrder h] at ho
  exact Option.some.inj ho ▸ locate_lookupAt h

theorem wf_removeOrder (hwf : inner.WF) (id : Uuid) : (inner.removeOrder id).WF := by
  unfold removeOrder
  split
  next r hr => exact wf_dropResting hwf hr
  next => exact hwf

theorem findOrder_removeOrder (hwf : inner.WF) (id i : Uuid) :
    (inner.removeOrder id).findOrder i = if i = id then none else inner.findOrder i := by
  unfold removeOrder
  split
  next r hr => exact findOrder_dropResting hwf hr i
  next hnone =>
    split
    next heq => simp [heq, findOrder, hnone]
    next => rfl

/-- What a fill leaves of an order: all of it when it is refused, nothing when it is used up. -/
def fillOrder (size : Decimal) (o : Order) : Option Order :=
  if o.remainingSize < size then some o
  else if o.remainingSize - size ≤ 0 then none
  else some (o.withRemaining (o.remainingSize - size))

theorem overfills_eq {fill : Fill} {r : Resting} (h : inner.locate fill.orderId = some r) :
    inner.overfills fill = decide (r.order.remainingSize < fill.size) := by
  simp [overfills, h]

theorem slotSet_applyFill {fill : Fill} {r : Resting} (h : inner.locate fill.orderId = some r) :
    SlotSet inner (inner.applyFill fill) r.pair r.side fill.orderId (fillOrder fill.size r.order) := by
  have hbook := (locate_eq_some h).1
  unfold applyFill fillOrder
  simp only [h, overfills_eq h, decide_eq_true_eq]
  by_cases hover : r.order.remainingSize < fill.size
  · simp only [hover, if_true]
    intro p s i
    split
    next heq =>
      obtain ⟨rfl, rfl, rfl⟩ := heq
      exact locate_lookupAt h
    next => rfl
  · simp only [hover, if_false]
    split
    next => exact slotSet_dropResting hbook _
    next => exact slotSet_insert (lookupAt_eq_side hbook) _ _ _ _

theorem fillOrder_own {size : Decimal} {o o' : Order} (h : fillOrder size o = some o') :
    o'.id = o.id ∧ o'.pair = o.pair ∧ o'.side = o.side := by
  unfold fillOrder at h
  split at h
  next =>
    cases Option.some.inj h
    exact ⟨rfl, rfl, rfl⟩
  next =>
    split at h
    next => simp at h
    next =>
      cases Option.some.inj h
      exact ⟨rfl, rfl, rfl⟩

theorem wf_applyFill (hwf : inner.WF) (fill : Fill) : (inner.applyFill fill).WF := by
  cases hr : inner.locate fill.orderId with
  | none =>
    unfold applyFill
    rw [hr]
    exact hwf
  | some r =>
    have hkeyed := hwf.keyed (locate_lookupAt hr)
    refine (slotSet_applyFill hr).wf hwf ?_ ?_ ?_
    · intro o ho
      obtain ⟨h1, h2, h3⟩ := fillOrder_own ho
      exact ⟨h1.trans hkeyed.1, h2.trans hkeyed.2.1, h3.trans hkeyed.2.2⟩
    · intro p s o ho _
      obtain rfl := hwf.unique ho (locate_lookupAt hr)
      exact ⟨(hwf.keyed ho).2.1.symm.trans hkeyed.2.1, (hwf.keyed ho).2.2.symm.trans hkeyed.2.2⟩
    · intro p b hb
      unfold applyFill at hb
      simp only [hr] at hb
      split at hb
      next => exact hwf.nonempty hb
      next =>
        split at hb
        next => exact (wf_dropResting hwf hr).nonempty hb
        next => exact nonempty_insert hwf _ _ (isEmpty_setSide_insert ..) p b hb

theorem findOrder_applyFill (hwf : inner.WF) (fill : Fill) (i : Uuid) :
    (inner.applyFill fill).findOrder i =
      if i = fill.orderId then (inner.findOrder i).bind (fillOrder fill.size) else inner.findOrder i := by
  cases hr : inner.locate fill.orderId with
  | none =>
    have hsame : inner.applyFill fill = inner := by simp [applyFill, hr]
    rw [hsame]
    split
    next heq => simp [heq, findOrder, hr]
    next => rfl
  | some r =>
    rw [(slotSet_applyFill hr).findOrder hwf (wf_applyFill hwf fill) _ i]
    · split
      next heq => rw [heq, locate_findOrder hr, Option.bind_some]
      next => rfl
    · intro o ho
      rw [locate_findOrder hr] at ho
      exact Option.some.inj ho ▸ locate_lookupAt hr

@[simp] theorem seq_applyFill (fill : Fill) : (inner.applyFill fill).seq = inner.seq := by
  unfold applyFill
  split
  · rfl
  · split
    · rfl
    · simp only
      split <;> rfl

@[simp] theorem seq_removeOrder (id : Uuid) : (inner.removeOrder id).seq = inner.seq := by
  unfold removeOrder
  split <;> rfl

@[simp] theorem seq_applyData (data : EventData) : (inner.applyData data).seq = inner.seq := by
  cases data <;> simp [applyData]

theorem wf_withSeq (hwf : inner.WF) (n : Nat) : (inner.withSeq n).WF where
  keyed := hwf.keyed
  unique := hwf.unique
  nonempty := hwf.nonempty

theorem wf_applyData (hwf : inner.WF) (data : EventData) : (inner.applyData data).WF := by
  cases data with
  | orderCancelled orderId reason => exact wf_removeOrder hwf orderId
  | orderExpired orderId => exact wf_removeOrder hwf orderId
  | orderMatched auctionId bid ask price size => exact wf_applyFill (wf_applyFill hwf bid) ask
  | _ => exact hwf

theorem wf_apply (hwf : inner.WF) (event : Event) : (inner.apply event).WF := by
  unfold apply
  split
  · exact hwf
  · exact wf_applyData (wf_withSeq hwf _) _

end Operations

end OrderBook

end DarkPool
