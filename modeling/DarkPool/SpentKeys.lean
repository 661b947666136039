import DarkPool.Placed

namespace DarkPool

variable {env : Env}

/-- An `OrderPlaced` event spends its ciphertext, the nullifier of its commitment and salt, and a nonce of
its trader. -/
structure Spends (env : Env) (ev : Event) (ciphertext commitment : Bytes) (salt : Bytes32) (trader : Address)
    (nonce : Bytes32) : Prop where
  placed : ∃ id proof, ev.data = .orderPlaced id commitment proof ciphertext
  order : ∃ d, env.decrypt ciphertext = some d ∧ parseOrderSalt d.salt = .ok salt ∧ d.trader = trader ∧
    parseOrderNonce d.nonce = .ok nonce

/-- The nullifier that `OrderSecrets` derives from a commitment and a salt. -/
def nullifierOf (env : Env) (commitment : Bytes) (salt : Bytes32) : Except EncodingError Bytes32 := do
  let commitmentFr ← bytes32ToScalar commitment
  let saltFr ← bytes32ToScalar salt.toVec
  return frToBytes32 (computeNullifierNative env commitmentFr saltFr)

/-- Neither event spends what the other spends. -/
def SpendsApart (env : Env) (e e' : Event) : Prop :=
  ∀ ct c salt trader nonce ct' c' salt' trader' nonce',
    Spends env e ct c salt trader nonce → Spends env e' ct' c' salt' trader' nonce' →
    ct ≠ ct' ∧ nullifierOf env c salt ≠ nullifierOf env c' salt' ∧ (trader, nonce) ≠ (trader', nonce')

/-- The keys that replay reads from an event. -/
theorem replayOrder_keys {ev : Event} {id : Uuid} {commitment ciphertext : Bytes} {o : ReplayedOrder}
    (h : replayOrder env ev id commitment ciphertext = .ok o) :
    ∃ d salt nonce, env.decrypt ciphertext = some d ∧ parseOrderSalt d.salt = .ok salt ∧
      parseOrderNonce d.nonce = .ok nonce ∧ o.digest = ciphertextDigest env ciphertext ∧
      nullifierOf env commitment salt = .ok o.replay.nullifier ∧
      o.replay.orderNonceDigest = orderNonceDigest env d.trader nonce := by
  unfold replayOrder at h
  split at h
  next => simp at h
  next d hd =>
    simp only [bind_eq_ok, mapErr_eq_ok, guard_eq_ok, ne_eq, not_not] at h
    obtain ⟨salt, hsalt, recomputed, -, c, hc, s, hs, rfl, nonce, hnonce, expiresAt, -, pairKey, -, h⟩ := h
    cases Except.ok.inj h
    refine ⟨d, salt, nonce, hd, hsalt, hnonce, rfl, ?_, rfl⟩
    simp only [nullifierOf, hc, hs, bind, Except.bind, pure, Except.pure]

theorem Spends.keys {ev : Event} {ciphertext commitment : Bytes} {salt : Bytes32} {trader : Address} {nonce : Bytes32}
    (h : Spends env ev ciphertext commitment salt trader nonce) {o : ReplayedOrder} (ho : ev.placed env = some o) :
    o.digest = ciphertextDigest env ciphertext ∧ nullifierOf env commitment salt = .ok o.replay.nullifier ∧
      o.replay.orderNonceDigest = orderNonceDigest env trader nonce := by
  obtain ⟨id, proof, hdata⟩ := h.placed
  obtain ⟨d, hd, hsalt, rfl, hnonce⟩ := h.order
  obtain ⟨id', c', proof', ct', hdata', hread⟩ := placed_eq_some ho
  rw [hdata, EventData.orderPlaced.injEq] at hdata'
  obtain ⟨rfl, rfl, rfl, rfl⟩ := hdata'
  obtain ⟨d', salt', nonce', hd', hsalt', hnonce', hdigest, hnullifier, hkey⟩ := replayOrder_keys hread
  cases Option.some.inj (hd.symm.trans hd')
  cases Except.ok.inj (hsalt.symm.trans hsalt')
  cases Except.ok.inj (hnonce.symm.trans hnonce')
  exact ⟨hdigest, hnullifier, hkey⟩

theorem Spends.placed_some {ev : Event} {ciphertext commitment : Bytes} {salt : Bytes32} {trader : Address} {nonce : Bytes32}
    (h : Spends env ev ciphertext commitment salt trader nonce) (hev : Replayable env ev) :
    ∃ o, ev.placed env = some o := by
  obtain ⟨id, proof, hdata⟩ := h.placed
  rw [Replayable, hdata] at hev
  obtain ⟨o, ho⟩ := hev
  exact ⟨o, placed_of_data hdata ho⟩

/-- Every placement that can be replayed spends something. -/
theorem exists_spends {ev : Event} {id : Uuid} {commitment proof ciphertext : Bytes}
    (hdata : ev.data = .orderPlaced id commitment proof ciphertext) (hev : Replayable env ev) :
    ∃ salt trader nonce, Spends env ev ciphertext commitment salt trader nonce := by
  rw [Replayable, hdata] at hev
  obtain ⟨o, ho⟩ := hev
  obtain ⟨d, salt, nonce, hd, hsalt, hnonce, -⟩ := replayOrder_keys ho
  exact ⟨salt, d.trader, nonce, ⟨id, proof, hdata⟩, d, hd, hsalt, rfl, hnonce⟩

/-- The keys of the order are among the spent ones. -/
structure Projection.Spent (p : Projection) (o : ReplayedOrder) : Prop where
  digest : o.digest ∈ p.seenCiphertexts
  nullifier : o.replay.nullifier ∈ p.spentNullifiers
  nonce : o.replay.orderNonceDigest ∈ p.spentOrderNonces

namespace Projection

variable {p q : Projection} {o o' : ReplayedOrder}

/-- The spent keys of the two orders differ, one by one. -/
structure Apart (o o' : ReplayedOrder) : Prop where
  digest : o.digest ≠ o'.digest
  nullifier : o.replay.nullifier ≠ o'.replay.nullifier
  nonce : o.replay.orderNonceDigest ≠ o'.replay.orderNonceDigest

theorem Spent.apply (h : p.Spent o) (ev : Event) : (p.apply env ev).Spent o := by
  unfold Projection.apply
  cases ev.data with
  | orderPlaced id c proof ct =>
    dsimp only
    cases replayOrder env ev id c ct with
    | error e => exact h
    | ok o' =>
      exact ⟨Finset.mem_insert_of_mem h.digest, Finset.mem_insert_of_mem h.nullifier, Finset.mem_insert_of_mem h.nonce⟩
  | _ => exact ⟨h.digest, h.nullifier, h.nonce⟩

/-- What an event of the log spent stays spent. -/
theorem spent_applyAll {es : List Event} {ev : Event} (hev : ev ∈ es) (ho : ev.placed env = some o) (p : Projection) :
    (p.applyAll env es).Spent o := by
  have hmono : ∀ (es : List Event) (p : Projection), p.Spent o → (p.applyAll env es).Spent o := by
    intro es
    induction es with
    | nil => exact fun p h => h
    | cons e es ih => exact fun p h => ih _ (h.apply e)
  induction es generalizing p with
  | nil => simp at hev
  | cons e es ih =>
    rcases List.mem_cons.mp hev with rfl | hev
    · refine hmono es _ ?_
      rw [books_apply_placed ho]
      exact ⟨Finset.mem_insert_self _ _, Finset.mem_insert_self _ _, Finset.mem_insert_self _ _⟩
    · exact ih hev _

/-- The checks under the lock keep an order apart from every spent one. -/
theorem Spent.apart {st : EngineState} (h : st.projection.Spent o) (hcheck : checkUnspent st o'.digest o'.replay = .ok ()) :
    Apart o o' := by
  have hnot := (guard_eq_ok.mp hcheck).1
  refine ⟨fun heq => hnot (Or.inl ?_), fun heq => hnot (Or.inr (Or.inl ?_)), fun heq => hnot (Or.inr (Or.inr ?_))⟩
  · exact heq ▸ h.digest
  · exact heq ▸ h.nullifier
  · exact heq ▸ h.nonce

theorem Spent.same {R : PairConfig → PairConfig → Prop} (h : q.Spent o) (hsame : p.Same R q) : p.Spent o :=
  ⟨hsame.seenCiphertexts ▸ h.digest, hsame.spentNullifiers ▸ h.nullifier, hsame.spentOrderNonces ▸ h.nonce⟩

end Projection

open Projection in
/-- No two placements of the log spend the same key. -/
def SpentOnce (env : Env) (log : List Event) : Prop :=
  log.Pairwise (fun e e' => ∀ o o', e.placed env = some o → e'.placed env = some o' → Apart o o')

theorem SpentOnce.append {log es : List Event} (h : SpentOnce env log) (hes : ∀ ev ∈ es, ev.placed env = none) :
    SpentOnce env (log ++ es) := by
  have hnone : ∀ ev ∈ es, ∀ o, ev.placed env ≠ some o := fun ev hev o ho => by
    rw [hes ev hev] at ho
    simp at ho
  refine List.pairwise_append.mpr ⟨h, ?_, fun e _ e' he' o o' _ ho' => absurd ho' (hnone e' he' o')⟩
  exact List.pairwise_of_forall_mem_list (fun e he e' _ o o' ho => absurd ho (hnone e he o))

namespace System

variable {σ σ' : System env} {m : Move}

/-- The state follows the log, and the log spends each key once. -/
structure SpendsOnce (σ : System env) : Prop extends Follows (fun _ _ => True) σ where
  once : SpentOnce env σ.log

theorem SpendsOnce.step (h : SpendsOnce σ) (hstep : σ.step m = some σ') : SpendsOnce σ' := by
  have heffect := step_effect h.toKept hstep
  refine ⟨heffect.follows registryRel_true h.toFollows (fun _ _ => trivial), ?_⟩
  rcases heffect.placed with ⟨ev, o, hlog, hplaces⟩ | ⟨es, hlog, hes⟩
  · rw [hlog]
    refine List.pairwise_append.mpr ⟨h.once, List.pairwise_singleton _ _, ?_⟩
    intro e he e' he' o1 o2 ho1 ho2
    rw [List.mem_singleton.mp he', hplaces.placed] at ho2
    cases Option.some.inj ho2
    -- What the log has spent, the state refuses.
    exact ((Projection.spent_applyAll he ho1 Projection.empty).same h.same).apart hplaces.unspent
  · rw [hlog]
    exact h.once.append hes

/-- However calls interleave and however often the engine is restarted, every placement spends its keys,
and no two of them have the same ciphertext, the same nullifier or the same nonce of one trader. -/
theorem run_spends_once {moves : List Move} (hrun : Transition.run System.step (initial env) moves = some σ) :
    (∀ ev ∈ σ.log, ∀ id commitment proof ciphertext, ev.data = .orderPlaced id commitment proof ciphertext →
      ∃ salt trader nonce, Spends env ev ciphertext commitment salt trader nonce) ∧
    σ.log.Pairwise (SpendsApart env) := by
  have hinit : SpendsOnce (initial env) := ⟨follows_initial registryRel_true env, List.Pairwise.nil⟩
  have h : SpendsOnce σ := Transition.run_preserves (fun _ _ _ hs hstep => hs.step hstep) hinit hrun
  refine ⟨fun ev hev id c proof ct hdata => exists_spends hdata (h.logged.replayable ev hev), ?_⟩
  refine h.once.imp_of_mem ?_
  intro e e' he he' hapart ct c salt trader nonce ct' c' salt' trader' nonce' hs hs'
  obtain ⟨o, ho⟩ := hs.placed_some (h.logged.replayable e he)
  obtain ⟨o', ho'⟩ := hs'.placed_some (h.logged.replayable e' he')
  have hkeys := hapart o o' ho ho'
  obtain ⟨hd, hn, hk⟩ := hs.keys ho
  obtain ⟨hd', hn', hk'⟩ := hs'.keys ho'
  refine ⟨?_, ?_, ?_⟩
  · rintro rfl
    exact hkeys.digest (hd.trans hd'.symm)
  · rw [hn, hn']
    exact fun heq => hkeys.nullifier (Except.ok.inj heq)
  · intro heq
    obtain ⟨rfl, rfl⟩ := Prod.mk.inj heq
    exact hkeys.nonce (hk.trans hk'.symm)

end System

namespace Scenario

/-- The first order is placed, a snapshot is taken and the log compacted, the engine restarts from it, and
the second order is placed. -/
def placingRestarted : List Move :=
  (placing.take 4).map .op ++ [.capture, .publish ⟨0, 1⟩ true true true, .restart (fun _ => true) choice] ++
    (placing.drop 4).map .op

end Scenario

open Scenario in
theorem run_spends_once_restarted :
    ∃ σ, Transition.run System.step (System.initial Scenario.env) placingRestarted = some σ ∧
      (σ.log.filterMap (Event.placed Scenario.env)).length = 2 ∧ σ.log.Pairwise (SpendsApart Scenario.env) := by
  have hrun : (Transition.run System.step (System.initial Scenario.env) placingRestarted).any (fun σ =>
      (σ.log.filterMap (Event.placed Scenario.env)).length = 2) = true := by decide +kernel
  obtain ⟨σ, hσ, hlen⟩ := (Option.any_eq_true _ _).mp hrun
  exact ⟨σ, hσ, of_decide_eq_true hlen, (System.run_spends_once hσ).2⟩

end DarkPool
