import DarkPool.StepCircuit

namespace DarkPool

/-- The rounds of an IVC session: each satisfies the circuit on the state the rounds before it left. -/
def SessionConstraints (env : Env) : Vector Fr 5 → List AuctionExternalInputs → Prop
  | _, [] => True
  | z, ext :: rounds => StepConstraints env ext z ∧ SessionConstraints env (stepCircuit env z ext) rounds

/-- The state a session ends with. -/
def sessionState (env : Env) (z : Vector Fr 5) (rounds : List AuctionExternalInputs) : Vector Fr 5 :=
  rounds.foldl (stepCircuit env) z

/-- No step changes the policy. -/
theorem stepCircuit_policy (env : Env) (z : Vector Fr 5) (ext : AuctionExternalInputs) :
    (stepCircuit env z ext).get zPolicy = z.get zPolicy := rfl

def AuctionExternalInputs.activeRows (ext : AuctionExternalInputs) : List CircuitMatchNative :=
  ext.rows.filter (fun r => r.isActive ≠ 0)

/-- The active rows of a session, in order. -/
def sessionRows (rounds : List AuctionExternalInputs) : List CircuitMatchNative :=
  rounds.flatMap AuctionExternalInputs.activeRows

def CircuitMatchNative.legs (r : CircuitMatchNative) : List CircuitLeg := [r.bid, r.ask]

/-- A leg of the row has the commitment. -/
def CircuitMatchNative.Fills (env : Env) (commitment : Fr) (r : CircuitMatchNative) : Prop :=
  ∃ leg ∈ r.legs, leafOf env leg = commitment

instance (env : Env) (commitment : Fr) : DecidablePred (CircuitMatchNative.Fills env commitment) :=
  fun r => inferInstanceAs (Decidable (∃ leg ∈ r.legs, leafOf env leg = commitment))

/-- What a session fills of the order behind a commitment. -/
def sessionFilled (env : Env) (rounds : List AuctionExternalInputs) (commitment : Fr) : Nat :=
  ((sessionRows rounds).map (fun r => if r.Fills env commitment then r.matchSize.val else 0)).sum

def CircuitLeg.opening (leg : CircuitLeg) : OrderCommitmentInput :=
  ⟨leg.trader, leg.side, leg.limitPrice, leg.orderSize, leg.salt⟩

variable {env : Env}

/-- If at most one element has the property, the sum over those that do is bounded as each of them is. -/
theorem sum_ite_le {α : Type} {P : α → Prop} [DecidablePred P] {f : α → Nat} {bound : Nat} {l : List α}
    (hone : l.Pairwise (fun a b => P a → ¬ P b)) (hle : ∀ a ∈ l, P a → f a ≤ bound) :
    (l.map (fun a => if P a then f a else 0)).sum ≤ bound := by
  induction l with
  | nil => exact Nat.zero_le _
  | cons a l ih =>
    obtain ⟨ha, hl⟩ := List.pairwise_cons.mp hone
    have htail := ih hl (fun b hb => hle b (List.mem_cons_of_mem a hb))
    rw [List.map_cons, List.sum_cons]
    by_cases hp : P a
    · have hzero : (l.map (fun b => if P b then f b else 0)).sum = 0 := by
        refine List.sum_eq_zero (fun x hx => ?_)
        obtain ⟨b, hb, rfl⟩ := List.mem_map.mp hx
        exact if_neg (ha b hb hp)
      rw [if_pos hp, hzero]
      exact hle a List.mem_cons_self hp
    · rw [if_neg hp, Nat.zero_add]
      exact htail

/-- A row of a session is one of a round that satisfies the circuit. -/
theorem SessionConstraints.row {z : Vector Fr 5} {rounds : List AuctionExternalInputs}
    (h : SessionConstraints env z rounds) {r : CircuitMatchNative} (hr : r ∈ sessionRows rounds) :
    ∃ ext ∈ rounds, r ∈ ext.activeRows ∧ RowConstraints env ext r ∧ r.isActive = 1 := by
  induction rounds generalizing z with
  | nil => simp [sessionRows] at hr
  | cons ext rounds ih =>
    rcases List.mem_append.mp (by simpa [sessionRows] using hr : r ∈ ext.activeRows ++ sessionRows rounds) with hr | hr
    · obtain ⟨hmem, hactive⟩ := List.mem_filter.mp hr
      have hrow := h.1.rows r hmem
      exact ⟨ext, List.mem_cons_self, hr, hrow, hrow.active_iff.mp (by simpa using hactive)⟩
    · obtain ⟨ext', hext, hrow⟩ := ih h.2 hr
      exact ⟨ext', List.mem_cons_of_mem ext hext, hrow⟩

/-- A row fills each of its legs at most to its size. -/
theorem RowConstraints.matchSize_le {ext : AuctionExternalInputs} {r : CircuitMatchNative} (h : RowConstraints env ext r)
    (hactive : r.isActive = 1) {leg : CircuitLeg} (hleg : leg ∈ r.legs) : r.matchSize.val ≤ leg.orderSize.val := by
  have hsize := enforceRange60_iff.mp h.sizeRange
  simp only [CircuitMatchNative.legs, List.mem_cons, List.not_mem_nil, or_false] at hleg
  rcases hleg with rfl | rfl
  · exact le_of_gated60 hsize hactive h.bidOrderGe
  · exact le_of_gated60 hsize hactive h.askOrderGe

/-- A session fills an order at most to its size if no commitment is in two of its active rows. -/
theorem session_fills_at_most_size (env : Env) (z : Vector Fr 5) (rounds : List AuctionExternalInputs)
    (h : SessionConstraints env z rounds)
    (honce : (sessionRows rounds).Pairwise
      (fun r r' => ∀ leg ∈ r.legs, ∀ leg' ∈ r'.legs, leafOf env leg ≠ leafOf env leg')) (order : CircuitLeg)
    (hcollision : ∀ r ∈ sessionRows rounds, ∀ leg ∈ r.legs,
      commitNative env leg.opening = commitNative env order.opening → leg.opening = order.opening) :
    sessionFilled env rounds (commitNative env order.opening) ≤ order.orderSize.val := by
  refine sum_ite_le (honce.imp ?_) (fun r hr hfills => ?_)
  · rintro r r' hne ⟨leg, hleg, hl⟩ ⟨leg', hleg', hl'⟩
    exact hne leg hleg leg' hleg' (hl.trans hl'.symm)
  · obtain ⟨leg, hleg, hl⟩ := hfills
    obtain ⟨ext, -, -, hrow, hactive⟩ := h.row hr
    have hsize : leg.orderSize = order.orderSize := congrArg OrderCommitmentInput.size (hcollision r hr leg hleg hl)
    exact hsize ▸ hrow.matchSize_le hactive hleg

open Fills in
/-- No hash helps: two rounds fill one order twice. -/
theorem session_fills_order_twice :
    ¬ ∃ env : Env, ∀ z rounds (order : CircuitLeg), SessionConstraints env z rounds →
      sessionFilled env rounds (commitNative env order.opening) ≤ order.orderSize.val := by
  rintro ⟨env, hall⟩
  have hz : env.poseidon [1, 1, 10] = (computeZ0 env (batch env 0 1 1) 7).get zPolicy := rfl
  have hsession : SessionConstraints env (computeZ0 env (batch env 0 1 1) 7) [batch env 0 1 1, batch env 0 1 1] :=
    ⟨batch_constraints (.inl rfl) (.inl rfl) (by decide) hz, batch_constraints (.inl rfl) (.inl rfl) (by decide)
      (hz.trans (stepCircuit_policy env _ _).symm), trivial⟩
  have hle := hall _ _ (row env 0 1).bid hsession
  have hrows : sessionRows [batch env 0 1 1, batch env 0 1 1] = [row env 0 1, row env 0 1] := by
    simp [sessionRows, AuctionExternalInputs.activeRows, batch, row, CircuitMatchNative.default]
  have hfills : (row env 0 1).Fills env (commitNative env (row env 0 1).bid.opening) := ⟨_, List.mem_cons_self, rfl⟩
  have hsize : (row env 0 1).matchSize.val = 1 ∧ (row env 0 1).bid.orderSize.val = 1 :=
    ⟨ZMod.val_one _, ZMod.val_one _⟩
  simp only [sessionFilled, hrows, List.map_cons, List.map_nil, if_pos hfills, hsize] at hle
  exact absurd hle (by decide)

open Fills in
theorem session_fills_at_most_size_single :
    sessionFilled plainEnv [single 1] (commitNative plainEnv (row plainEnv 0 1).bid.opening) = 1 ∧
    sessionFilled plainEnv [single 1] (commitNative plainEnv (row plainEnv 0 1).bid.opening) ≤
      (row plainEnv 0 1).bid.orderSize.val := by
  have hrows : sessionRows [single 1] = [row plainEnv 0 1] := by
    simp [sessionRows, AuctionExternalInputs.activeRows, single, batch, row, CircuitMatchNative.default]
  refine ⟨by decide, session_fills_at_most_size plainEnv _ [single 1]
    ⟨single_constraints (.inl rfl) 7, trivial⟩ ?_ _ ?_⟩
  · rw [hrows]
    exact List.pairwise_singleton _ _
  · rw [hrows]
    intro r hr leg hleg heq
    cases List.mem_singleton.mp hr
    simp only [CircuitMatchNative.legs, List.mem_cons, List.not_mem_nil, or_false] at hleg
    rcases hleg with rfl | rfl
    · rfl
    · exact absurd heq (by decide)

end DarkPool
