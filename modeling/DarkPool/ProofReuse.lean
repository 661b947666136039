import DarkPool.ReplayGuards

namespace DarkPool

open Attempts

/-- What the decider checks of a session. -/
structure IvcProof where
  proof : Bytes
  z0 : Vector Nat 5
  zN : Vector Nat 5
  nSteps : Nat
  deriving DecidableEq

def Session.ivcProof (s : Session) : IvcProof := ⟨s.proof, s.z0, s.zN, s.nSteps⟩

namespace Call

/-- The Groth16 proof that a call settles with, and its public inputs. -/
def groth16 : Call → Option (Bytes × Vector Nat 6)
  | .submitBatch _ _ proof publicInputs _ => some (proof, publicInputs)
  | _ => none

/-- The proof of the session that a call submits. -/
def ivc : Call → Option IvcProof
  | .submitSession s => some s.ivcProof
  | _ => none

/-- Calls that carry one proof name one batch or auction, and one session. -/
def KeepsIds (call call' : Call) : Prop :=
  (call.groth16 ≠ none → call.groth16 = call'.groth16 →
    call.settlesBatch = call'.settlesBatch ∨ call.settlesAuction = call'.settlesAuction) ∧
  (call.ivc ≠ none → call.ivc = call'.ivc → call.submitsSession = call'.submitsSession)

instance (call call' : Call) : Decidable (call.KeepsIds call') := inferInstanceAs (Decidable (_ ∧ _))

end Call

/-- The call settles a session that one of `done` submitted with the proof. -/
def backedBy (done : List (Address × Nat × Call)) (x : IvcProof) (tx : Address × Nat × Call) : Bool :=
  tx.2.2.settlesSession.any (fun id => done.any (fun u => u.2.2.submitsSession = some id ∧ u.2.2.ivc = some x))

theorem backedBy_iff {done : List (Address × Nat × Call)} {x : IvcProof} {tx : Address × Nat × Call} :
    backedBy done x tx = true ↔
      ∃ id, tx.2.2.settlesSession = some id ∧ ∃ u ∈ done, u.2.2.submitsSession = some id ∧ u.2.2.ivc = some x := by
  simp [backedBy, Option.any_eq_true]

namespace Chain

/-- If the operators never carry a proof over to other ids, each proof settles at most once. -/
theorem run_proof_once (d : Deployment) (hkeys : ∀ space, Function.Injective (d.domainId space))
    (owner feeRecipient : Address) (pubkey : Bytes) (deployedAt : Nat) (tokens : Address → Address → Nat)
    (txs : List (Address × Nat × Call)) (hids : ∀ tx ∈ txs, ∀ tx' ∈ txs, tx.2.2.KeepsIds tx'.2.2) (c : Chain)
    (hc : c = ⟨Pool.initial owner feeRecipient pubkey deployedAt, tokens⟩) :
    (∀ x, (c.succeeded d txs).countP (fun tx => tx.2.2.groth16 = some x) ≤ 1) ∧
    ∀ x, (c.succeeded d txs).countP (backedBy (c.succeeded d txs) x) ≤ 1 := by
  obtain ⟨-, hbatches⟩ := (latch_batch hkeys).history (s := c) (fun k => by rw [hc]; rfl) txs
  obtain ⟨-, hauctions⟩ := (latch_auction hkeys).history (s := c) (fun k => by rw [hc]; rfl) txs
  obtain ⟨-, hsessions⟩ := (latch_session hkeys).history (s := c) (fun k => by rw [hc]; rfl) txs
  have hmem : ∀ tx ∈ c.succeeded d txs, tx ∈ txs := fun tx htx => (accepted_sublist c txs).subset htx
  refine ⟨fun x => countP_le_one ?_, fun x => countP_le_one ?_⟩
  · refine (hbatches.and hauctions).imp_of_mem (fun {tx tx'} htx htx' hnew hx => ?_)
    simp only [decide_eq_true_eq, decide_eq_false_iff_not] at hx ⊢
    intro hx'
    obtain ⟨batchId, auctionId, hbatch, hauction⟩ : ∃ batchId auctionId, tx.2.2.settlesBatch = some batchId ∧
        tx.2.2.settlesAuction = some auctionId := by
      cases h : tx.2.2 <;> rw [h] at hx <;> cases hx
      exact ⟨_, _, rfl, rfl⟩
    rcases (hids tx (hmem tx htx) tx' (hmem tx' htx')).1 (by simp [hx]) (hx.trans hx'.symm) with hsame | hsame
    · exact hnew.1 batchId hbatch (hsame ▸ hbatch)
    · exact hnew.2 auctionId hauction (hsame ▸ hauction)
  · refine hsessions.imp (fun {tx tx'} hnew hx => ?_)
    rw [← Bool.not_eq_true]
    intro hx'
    obtain ⟨id, hid, u, hu, hopen, hproof⟩ := backedBy_iff.mp hx
    obtain ⟨id', hid', u', hu', hopen', hproof'⟩ := backedBy_iff.mp hx'
    -- The two sessions were submitted with one proof, so they are one session.
    have hsame : id = id' := by
      have hone := (hids u (hmem u hu) u' (hmem u' hu')).2 (by simp [hproof]) (hproof.trans hproof'.symm)
      rw [hopen, hopen'] at hone
      exact Option.some.inj hone
    exact hnew id hid (hsame ▸ hid')

end Chain

namespace Onchain

/-- One session proof under two ids, and one batch proof under two ids. -/
def reuse : List (Address × Nat × Call) :=
  setup ++ [(4, 0, .submitSession (selfSession 21)), (4, 0, .settleAuction 21 31 [selfMatch]),
    (4, 0, .submitSession (selfSession 22)), (4, 0, .settleAuction 22 32 [selfMatch])]

def rebatch : List (Address × Nat × Call) :=
  setup ++ [(4, 0, selfBatch), (4, 0, .submitBatch 22 32 (List.replicate 256 0) oneMatch [selfMatch])]

end Onchain

open Onchain in
/-- The matches of one proof are applied twice under fresh ids, on either arm. -/
theorem Chain.run_proof_twice :
    (start.succeeded deployment reuse).countP (backedBy (start.succeeded deployment reuse) (selfSession 21).ivcProof) = 2 ∧
    (start.run deployment reuse).pool.reserved 6 3 = 10 ^ 18 ∧
    (start.succeeded deployment rebatch).countP
      (fun tx => tx.2.2.groth16 = some (List.replicate 256 0, #v[1, 0, 0, 0, 0, 0])) = 2 ∧
    (start.run deployment rebatch).pool.reserved 6 3 = 10 ^ 18 := by
  decide +kernel

open Onchain in
theorem Chain.run_proof_once_replays :
    (start.succeeded deployment replays).countP
      (fun tx => tx.2.2.groth16 = some (List.replicate 256 0, #v[1, 0, 0, 0, 0, 0])) = 1 ∧
    (start.succeeded deployment replays).countP (backedBy (start.succeeded deployment replays)
      (selfSession 21).ivcProof) ≤ 1 := by
  have hids : ∀ tx ∈ replays, ∀ tx' ∈ replays, tx.2.2.KeepsIds tx'.2.2 := by decide +kernel
  exact ⟨by decide +kernel, (Chain.run_proof_once deployment (fun _ _ _ h => h) 2 6 [] 0 start.tokens replays hids
    start rfl).2 _⟩

end DarkPool
