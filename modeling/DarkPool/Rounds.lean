import DarkPool.AuctionPlan
import DarkPool.Simulation

namespace DarkPool

/-- The auction a match event belongs to, with the match. -/
def EventData.matched : EventData → Option (Uuid × Match)
  | .orderMatched auctionId bid ask price size => some (auctionId, ⟨bid, ask, price, size⟩)
  | _ => none

/-- The auction a batch was submitted for. -/
def EventData.submittedFor : EventData → Option Uuid
  | .batchSubmitted _ auctionId _ _ _ => some auctionId
  | _ => none

/-- The matches of an auction, in the order of the log. -/
def matchesIn (log : List Event) (auctionId : Uuid) : List Match :=
  ((log.filterMap (fun ev => ev.data.matched)).filter (fun m => m.1 = auctionId)).map Prod.snd

def submittedIn (log : List Event) (auctionId : Uuid) : Bool := log.any (fun ev => ev.data.submittedFor = some auctionId)

/-- An auction with matches and without a batch. -/
def Orphaned (log : List Event) (auctionId : Uuid) : Prop :=
  matchesIn log auctionId ≠ [] ∧ submittedIn log auctionId = false

/-- No match of an auction is logged after a batch was submitted for it. -/
def MatchedFirst (log : List Event) : Prop :=
  log.Pairwise (fun e e' => ∀ a m, e.data.submittedFor = some a → e'.data.matched ≠ some (a, m))

/-- What replay remembers of an auction: its matches, until a batch takes them. -/
def openMatches (log : List Event) (auctionId : Uuid) : Option (List Match) :=
  if submittedIn log auctionId then none
  else if matchesIn log auctionId = [] then none else some (matchesIn log auctionId)

theorem matchesIn_append (xs ys : List Event) (a : Uuid) : matchesIn (xs ++ ys) a = matchesIn xs a ++ matchesIn ys a := by
  simp [matchesIn, List.filterMap_append, List.filter_append]

theorem submittedIn_append (xs ys : List Event) (a : Uuid) :
    submittedIn (xs ++ ys) a = (submittedIn xs a || submittedIn ys a) := List.any_append

theorem openMatches_isSome {log : List Event} {a : Uuid} : (openMatches log a).isSome ↔ Orphaned log a := by
  unfold openMatches Orphaned
  cases submittedIn log a with
  | true => simp
  | false =>
    by_cases h : matchesIn log a = [] <;> simp [h]

theorem matchesIn_singleton (ev : Event) (a : Uuid) :
    matchesIn [ev] a = match ev.data.matched with
      | some (a', m) => if a' = a then [m] else []
      | none => [] := by
  unfold matchesIn
  cases hm : ev.data.matched with
  | none => simp [hm]
  | some am =>
    by_cases ha : am.1 = a <;> simp [hm, ha]

/-- An event that is about no match and no batch leaves what is remembered alone. -/
theorem openMatches_append_other {ev : Event} (hm : ev.data.matched = none) (hs : ev.data.submittedFor = none)
    (log : List Event) (a : Uuid) : openMatches (log ++ [ev]) a = openMatches log a := by
  unfold openMatches
  rw [matchesIn_append, submittedIn_append, matchesIn_singleton, hm]
  simp [submittedIn, hs]

theorem openMatches_append_matched {ev : Event} {a : Uuid} {m : Match} (hm : ev.data.matched = some (a, m))
    {log : List Event} (hfirst : submittedIn log a = false) (a' : Uuid) :
    openMatches (log ++ [ev]) a' = if a' = a then some ((openMatches log a).getD [] ++ [m]) else openMatches log a' := by
  have hs : ev.data.submittedFor = none := by
    unfold EventData.matched at hm
    unfold EventData.submittedFor
    split at hm
    next h => rw [h]
    next => simp at hm
  have hsub : ∀ x, submittedIn (log ++ [ev]) x = submittedIn log x := by
    intro x
    rw [submittedIn_append]
    simp [submittedIn, hs]
  unfold openMatches
  rw [hsub, matchesIn_append, matchesIn_singleton, hm]
  by_cases ha : a' = a
  · subst ha
    by_cases hnil : matchesIn log a' = [] <;> simp [hfirst, hnil]
  · simp [ha, Ne.symm ha]

theorem openMatches_append_submitted {ev : Event} {a : Uuid} (hs : ev.data.submittedFor = some a)
    (log : List Event) (a' : Uuid) :
    openMatches (log ++ [ev]) a' = if a' = a then none else openMatches log a' := by
  have hm : ev.data.matched = none := by
    unfold EventData.submittedFor at hs
    unfold EventData.matched
    split at hs
    next h => rw [h]
    next => simp at hs
  unfold openMatches
  rw [matchesIn_append, submittedIn_append, matchesIn_singleton, hm]
  by_cases ha : a' = a
  · subst ha
    simp [submittedIn, hs]
  · simp [submittedIn, hs, ha, Ne.symm ha]

variable {env : Env}

/-- Replay remembers the matches of exactly the auctions that have no batch yet. -/
theorem replayEvent_openMatches {log : List Event} {ev : Event} (hfirst : MatchedFirst (log ++ [ev])) {r r' : Replay}
    (h : replayEvent env r ev = .ok r') (hr : ∀ a, r.matchesByAuction.lookup a = openMatches log a) (a : Uuid) :
    r'.matchesByAuction.lookup a = openMatches (log ++ [ev]) a := by
  cases hdata : ev.data with
  | orderPlaced orderId commitment proof ciphertext =>
    obtain ⟨o, -, rfl⟩ := replayEvent_placed hdata h
    rw [openMatches_append_other (by rw [hdata]; rfl) (by rw [hdata]; rfl)]
    exact hr a
  | orderMatched auctionId bid ask price size =>
    simp only [replayEvent, hdata, Except.ok.injEq] at h
    have hnone : submittedIn log auctionId = false := by
      rw [submittedIn, List.any_eq_false]
      intro e he hsub
      exact (List.pairwise_append.mp hfirst).2.2 e he ev List.mem_cons_self auctionId ⟨bid, ask, price, size⟩
        (of_decide_eq_true hsub) (by rw [hdata]; rfl)
    rw [openMatches_append_matched (by rw [hdata]; rfl) hnone, ← h, Table.lookup_insert_eq, hr, hr]
  | batchSubmitted batchId auctionId txHash count proof =>
    simp only [replayEvent, hdata, Except.ok.injEq] at h
    have hsubmit : (r.submit ev batchId auctionId proof).matchesByAuction = r.matchesByAuction.erase auctionId := by
      unfold Replay.submit
      simp only
      split <;> rfl
    rw [openMatches_append_submitted (by rw [hdata]; rfl), ← h, hsubmit, Table.lookup_erase_eq, hr]
  | _ =>
    simp only [replayEvent, hdata, Except.ok.injEq] at h
    rw [openMatches_append_other (by rw [hdata]; rfl) (by rw [hdata]; rfl), ← h]
    exact hr a

theorem replayAll_openMatches {done events : List Event} (hfirst : MatchedFirst (done ++ events)) {r r' : Replay}
    (h : replayAll env r events = .ok r') (hr : ∀ a, r.matchesByAuction.lookup a = openMatches done a) (a : Uuid) :
    r'.matchesByAuction.lookup a = openMatches (done ++ events) a := by
  induction events generalizing done r with
  | nil =>
    cases Except.ok.inj h
    rw [List.append_nil, hr]
  | cons ev events ih =>
    unfold replayAll at h
    rw [List.foldlM_cons] at h
    obtain ⟨r1, h1, h⟩ := bind_eq_ok.mp h
    have hsplit : done ++ ev :: events = (done ++ [ev]) ++ events := by simp
    rw [hsplit] at hfirst ⊢
    have hhead : MatchedFirst (done ++ [ev]) := (List.pairwise_append.mp hfirst).1
    exact ih hfirst h (replayEvent_openMatches hhead h1 hr)

theorem EventData.Routine.unmatched {data : EventData} (h : data.Routine) :
    data.matched = none ∧ data.submittedFor = none := by
  cases data <;> simp only [Routine] at h <;> exact ⟨rfl, rfl⟩

theorem EventData.Closes.unmatched {data : EventData} {b : Uuid} (h : data.Closes b) :
    data.matched = none ∧ data.submittedFor = none := by
  rcases h with ⟨tx, rfl⟩ | ⟨block, tx, rfl⟩ <;> exact ⟨rfl, rfl⟩

theorem tickRound_eq_some {st : EngineState} {pair : String} {auctionId : Uuid} {result : AuctionResult} :
    tickRound st pair auctionId = some result ↔
      runAuction auctionId pair (st.book.bids pair) (st.book.asks pair) = some result ∧ clearingPriceEncodable result = true := by
  unfold tickRound
  cases runAuction auctionId pair (st.book.bids pair) (st.book.asks pair) with
  | none => simp
  | some r =>
    simp only [Option.ite_none_right_eq_some, Option.some.injEq]
    constructor
    · rintro ⟨hencodes, rfl⟩
      exact ⟨rfl, hencodes⟩
    · rintro ⟨rfl, hencodes⟩
      exact ⟨hencodes, rfl⟩

theorem tickRound_ids {st : EngineState} {pair : String} {auctionId : Uuid} {result : AuctionResult}
    (h : tickRound st pair auctionId = some result) : result.auctionId = auctionId ∧ result.pair = pair :=
  runSorted_ids (tickRound_eq_some.mp h).1

namespace World

variable {dropped : List Event} {w w' : World env} {a : Action}

/-- The auctions of the log and of the work in flight have drawn ids, and no match is logged after a
batch of its auction. -/
structure Rounds (dropped : List Event) (w : World env) : Prop where
  first : MatchedFirst (w.log dropped)
  submitted : ∀ ev ∈ w.log dropped, ∀ a, ev.data.submittedFor = some a → w.Used a
  inflight : ∀ p ∈ w.inflight, w.Used p.auctionId

theorem rounds_initial (env : Env) : Rounds [] (initial env) where
  first := List.Pairwise.nil
  submitted := by simp [log, initial, Store.empty]
  inflight := by simp [World.inflight, collected, initial]

/-- A section that logs no match. -/
theorem Rounds.unmatched (h : Rounds dropped w) (frame : Frame w w') {es : List Event}
    (hlogs : w.store.Logs w'.store es) (hmatched : ∀ ev ∈ es, ev.data.matched = none)
    (hsubmitted : ∀ ev ∈ es, ∀ a, ev.data.submittedFor = some a → w.Used a)
    (hinflight : ∀ p ∈ w'.inflight, p ∈ w.inflight) : Rounds dropped w' where
  first := by
    rw [log_eq hlogs]
    refine List.pairwise_append.mpr ⟨h.first, ?_, ?_⟩
    · refine List.pairwise_of_forall_mem_list (fun e _ e' he' a m _ => ?_)
      rw [hmatched e' he']
      simp
    · intro e _ e' he' a m _
      rw [hmatched e' he']
      simp
  submitted := by
    rw [log_eq hlogs]
    intro ev hev a ha
    rcases List.mem_append.mp hev with hev | hev
    · exact frame.used a (h.submitted ev hev a ha)
    · exact frame.used a (hsubmitted ev hev a ha)
  inflight p hp := frame.used _ (h.inflight p (hinflight p hp))

theorem Rounds.effect (h : Rounds dropped w) (heffect : w.Effect a w') : Rounds dropped w' := by
  cases heffect with
  | routine frame core secrets closing inflight =>
    obtain ⟨es, hcore, hroutine, -⟩ := core
    refine h.unmatched frame hcore.logs (fun ev hev => (hroutine ev hev).unmatched.1) ?_ (fun p hp => inflight.subset hp)
    intro ev hev a ha
    rw [(hroutine ev hev).unmatched.2] at ha
    simp at ha
  | register frame config registers key ev parse absent data logs state secrets closing inflight =>
    refine h.unmatched frame logs ?_ ?_ (fun p hp => inflight ▸ hp)
    · exact fun e he => by rw [List.mem_singleton.mp he, data]; rfl
    · intro e he a ha
      rw [List.mem_singleton.mp he, data] at ha
      simp [registeredData, EventData.submittedFor] at ha
  | place frame p ev fresh used core data timestamp pending secrets closing inflight =>
    refine h.unmatched frame core.logs ?_ ?_ (fun p hp => inflight.mem_iff.mp hp)
    · exact fun e he => by rw [List.mem_singleton.mp he, data]; rfl
    · intro e he a ha
      rw [List.mem_singleton.mp he, data] at ha
      simp [EventData.submittedFor] at ha
  | round frame now auctionId batchIds fresh nodup pair result run pieces es core data pending secrets closing inflight =>
    have hid : result.auctionId = auctionId := (tickRound_ids run).1
    obtain ⟨hnew, hused⟩ := fresh auctionId List.mem_cons_self
    have hnone : ∀ ev ∈ es, ev.data.submittedFor = none := by
      intro ev hev
      rcases mem_round data hev with hd | ⟨m, -, hd⟩ <;> rw [hd] <;> rfl
    exact {
      first := by
        rw [log_eq core.logs]
        refine List.pairwise_append.mpr ⟨h.first, ?_, ?_⟩
        · refine List.pairwise_of_forall_mem_list (fun e he e' _ a m hs => ?_)
          rw [hnone e he] at hs
          simp at hs
        · -- The round draws its id only now, so no batch was submitted for it.
          intro e he e' he' a m hs hm
          rcases mem_round data he' with hd | ⟨m', -, hd⟩
          · rw [hd] at hm
            simp [EventData.matched, executedEvent, Event.unsequenced] at hm
          · rw [hd, EventData.matched, Option.some.injEq, Prod.mk.injEq, hid] at hm
            exact hnew (hm.1 ▸ h.submitted e he a hs)
      submitted := by
        rw [log_eq core.logs]
        intro ev hev a ha
        rcases List.mem_append.mp hev with hev | hev
        · exact frame.used a (h.submitted ev hev a ha)
        · rw [hnone ev hev] at ha
          simp at ha
      inflight := by
        intro p hp
        rcases List.mem_append.mp (inflight.mem_iff.mp hp) with hp | hp
        · exact frame.used _ (h.inflight p hp)
        · obtain ⟨c, -, rfl⟩ := List.mem_map.mp hp
          exact hid ▸ hused }
  | folds frame p queue root round toSubmit counted ev core data state secrets closing inflight =>
    refine h.unmatched frame core.logs ?_ ?_ (fun q hq => inflight.subset hq)
    · exact fun e he => by rw [List.mem_singleton.mp he, data]; rfl
    · intro e he a ha
      rw [List.mem_singleton.mp he, data] at ha
      simp [EventData.submittedFor] at ha
  | submit frame p rows proof ev submits resolved core data pending secrets closing inflight =>
    refine h.unmatched frame core.logs ?_ ?_ (fun q hq => inflight.mem_iff.mpr (List.mem_cons_of_mem _ hq))
    · exact fun e he => by rw [List.mem_singleton.mp he, data]; rfl
    · intro e he a ha
      rw [List.mem_singleton.mp he, data, EventData.submittedFor, Option.some.injEq] at ha
      exact ha ▸ h.inflight p (inflight.mem_iff.mpr List.mem_cons_self)
  | opens frame b ev closes logs state secrets closing inflight =>
    refine h.unmatched frame logs ?_ ?_ (fun p hp => inflight.mem_iff.mp hp)
    · exact fun e he => List.mem_singleton.mp he ▸ closes.unmatched.1
    · intro e he a ha
      rw [List.mem_singleton.mp he, closes.unmatched.2] at ha
      simp at ha
  | closes frame b ev store state secrets closing inflight =>
    have hlogs : w.store.Logs w'.store [] := ⟨by rw [store, List.append_nil], numbered_nil _, by rw [store]; rfl⟩
    exact h.unmatched frame hlogs (by simp) (by simp) (fun p hp => inflight.mem_iff.mp hp)

/-- Both hold along every run. -/
theorem run_rounds {as : List Action} (h : Logged dropped w ∧ Rounds dropped w)
    (hrun : Transition.run World.step w as = some w') : Logged dropped w' ∧ Rounds dropped w' := by
  refine Transition.run_preserves (I := fun w => Logged dropped w ∧ Rounds dropped w) ?_ h hrun
  rintro w1 a w2 ⟨hlogged, hrounds⟩ hstep
  have heffect := step_effect hlogged.ok hstep
  exact ⟨hlogged.effect heffect, hrounds.effect heffect⟩

end World

end DarkPool
