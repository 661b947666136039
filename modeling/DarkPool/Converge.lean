import DarkPool.Rounds

namespace DarkPool

section Recover

variable {env : Env} {engine : EngineState} {ivcRound : Table String Nat} {store : Store}
  {snapshots : Option Snapshots} {decodes : Nat → Bool} {choice : Uuid → OrphanChoice}

/-- Once it knows where to start, recovery replays the rest of the log and sweeps the orphans. -/
theorem recover_eq (hnew : engine.recovered = false) {dropped : List Event} (hholds : store.Holds dropped)
    {start : Replay} {afterSeq : Nat}
    (hstart : recoverStart store (Replay.start engine ivcRound) snapshots decodes = .ok (start, afterSeq))
    (hafter : dropped.length ≤ afterSeq) :
    recover env engine ivcRound store snapshots decodes choice = (do
      let r ← replayAll env start (store.events.drop (afterSeq - dropped.length))
      let rs ← reaggregateOrphans choice r store
      return ({ rs.1.state with recovered := true }, rs.1.ivcRound, rs.2)) := by
  have hloop : replayLoop env store (store.events.length + 1) afterSeq start =
      replayAll env start (store.events.drop (afterSeq - dropped.length)) :=
    replayLoop_eq hholds _ hafter (by rw [List.length_drop]; omega) start
  unfold recover
  rw [if_neg (by simp [hnew]), hstart, ← hloop]
  rfl

/-- Recovery ends in what the events after its start mean on top of where it started, apart from the
batches it creates; it fails only where the store does. -/
theorem recover_refines (hnew : engine.recovered = false) {dropped : List Event} (hholds : store.Holds dropped)
    {start : Replay} {afterSeq : Nat}
    (hstart : recoverStart store (Replay.start engine ivcRound) snapshots decodes = .ok (start, afterSeq))
    (hafter : dropped.length ≤ afterSeq) (hlast : afterSeq ≤ store.seq) (hbook : start.state.book.seq ≤ afterSeq)
    (hplay : ∀ ev ∈ store.events, Replayable env ev) :
    ∃ r, replayAll env start (store.events.drop (afterSeq - dropped.length)) = .ok r ∧
      (∀ out, recover env engine ivcRound store snapshots decodes choice = .ok out →
        out.1.projection.Agrees (start.state.projection.applyAll env (store.events.drop (afterSeq - dropped.length)))
          (createdBatches choice {a | (r.matchesByAuction.lookup a).isSome})) ∧
      ((∀ a, (choice a).ok = true) →
        ∃ out, recover env engine ivcRound store snapshots decodes choice = .ok out) := by
  obtain ⟨r, hr, hproj, -⟩ := replayAll_refines (hholds.numbered_drop hafter hlast)
    (fun ev hev => hplay ev (List.mem_of_mem_drop hev)) hbook
  have heq := @recover_eq env engine ivcRound store snapshots decodes choice hnew dropped hholds start afterSeq hstart hafter
  rw [hr] at heq
  refine ⟨r, hr, ?_, ?_⟩
  · intro out hout
    rw [heq] at hout
    obtain ⟨r1, hr1, hout⟩ := bind_eq_ok.mp hout
    cases Except.ok.inj hr1
    obtain ⟨⟨r2, store2⟩, hr2, hout⟩ := bind_eq_ok.mp hout
    cases Except.ok.inj hout
    rw [← hproj]
    refine (reaggregateOrphans_agrees hr2).mono ?_
    rintro b ⟨a, ha, rfl⟩
    exact ⟨a, mem_orphanIds.mp ha, rfl⟩
  · intro hok
    obtain ⟨⟨r2, store2⟩, hr2⟩ := reaggregateOrphans_total hok r store
    rw [heq]
    simp only [bind, Except.bind, hr2]
    exact ⟨_, rfl⟩

end Recover

namespace World

variable {env : Env} {w : World env}

theorem sim_agrees {dropped : List Event} (h : Sim Eq dropped w) (hclosing : ∀ b ∈ w.closingIds, b ∉ w.state.projection.pending) :
    w.state.projection.Agrees (projectLog env (w.log dropped)) ∅ where
  books := h.same.books
  pairTokens key := h.same.registry.lookup_eq key
  auctionLog := h.same.auctionLog
  seenCiphertexts := h.same.seenCiphertexts
  spentNullifiers := h.same.spentNullifiers
  spentOrderNonces := h.same.spentOrderNonces
  pending b _ := by
    rw [h.pending b]
    exact ⟨fun hb => ⟨hb, fun hc => hclosing b hc hb⟩, And.left⟩

theorem registryRel_eq : RegistryRel Eq := ⟨fun _ => rfl, fun h _ => h ▸ rfl⟩

/-- A registration that survives the log, or a submission that no closing event has overtaken. -/
def Regular (w : World env) (a : Action) : Prop :=
  (∀ config ∈ a.registers, config.Loggable) ∧ ∀ p ∈ w.submits a, p.batchId ∉ w.closingIds

instance (w : World env) (a : Action) : Decidable (w.Regular a) := inferInstanceAs (Decidable (_ ∧ _))

theorem Regular.sound {a : Action} (h : w.Regular a) : w.Sound Eq a := ⟨fun config hc => (h.1 config hc).logged, h.2⟩

def Quiescent (w : World env) : Prop := w.tasks = [] ∧ w.tick = none

/-- Wherever a run of the engine comes to rest, replaying its log from the beginning gives the state
back, apart from the batches that recovery creates for auctions without one. -/
theorem recover_converges {actions : List Action}
    (hrun : Transition.run World.step (initial env) actions = some w)
    (hregular : Transition.Meets World.step Regular (initial env) actions) (hquiet : w.Quiescent)
    (engine : EngineState) (hnew : engine.recovered = false) (ivcRound : Table String Nat) (decodes : Nat → Bool)
    (choice : Uuid → OrphanChoice) :
    (∀ out, recover env engine ivcRound w.store none decodes choice = .ok out →
      out.1.projection.Agrees w.state.projection (createdBatches choice {a | Orphaned w.store.events a})) ∧
    ((∀ a, (choice a).ok = true) → ∃ out, recover env engine ivcRound w.store none decodes choice = .ok out) := by
  have hsim : Sim Eq [] w :=
    (sim_initial registryRel_eq env).run registryRel_eq (hregular.mono (fun _ _ h => h.sound)) hrun
  have hrounds : Rounds [] w := (run_rounds ⟨logged_initial env, rounds_initial env⟩ hrun).2
  have hlive := sim_agrees hsim (by simp [closingIds, closing, hquiet.1])
  obtain ⟨r, hr, hout, htotal⟩ := @recover_refines env engine ivcRound w.store none decodes choice hnew [] hsim.holds
    _ _ rfl le_rfl (Nat.zero_le _) (Nat.zero_le _) hsim.replayable
  refine ⟨?_, htotal⟩
  intro out h
  have horphans : {a | (r.matchesByAuction.lookup a).isSome} = {a | Orphaned w.store.events a} := by
    ext a
    have hopen := @replayAll_openMatches env [] w.store.events hrounds.first _ _ hr (fun _ => rfl) a
    rw [Set.mem_ofPred_eq, hopen, openMatches_isSome]
    rfl
  rw [← horphans]
  exact (hout out h).trans (hlive.symm.mono (Set.empty_subset _))

end World

namespace Scenario

def hex32 (n : Nat) : String := String.ofList (Radix.toHex 64 n)

def plaintext (trader : Address) (side : Side) (n : Nat) : DecryptedOrder where
  trader := trader
  pair := "ETH-USDC"
  side := side
  price := 10
  size := 1
  commitmentKey := "key"
  salt := hex32 n
  nonce := hex32 n
  expiresAtUnixNanos := 1000

/-- Two traders whose orders cross; the hashes are stand-ins that keep these inputs apart. -/
def env : Env where
  decrypt := fun ciphertext =>
    match ciphertext with
    | [1] => some (plaintext 1 .buy 1)
    | [2] => some (plaintext 2 .sell 2)
    | _ => none
  orderProofVerifier := none
  poseidon := fun xs =>
    match xs with
    | [_, _] => 1
    | _ => (xs.foldl (fun acc x => 31 * acc + x.val + 1) 7 : Nat)
  sha256 := fun bytes => BitVec.ofNat 256 (Radix.ofBytes bytes)

def now : Now := ⟨5, by decide⟩

def proof : FinalProof := ⟨[9], Vector.replicate 5 0, Vector.replicate 5 0, 1, 0⟩

/-- The pair is registered and the two orders are placed. -/
def placing : List Action :=
  [.registerPair "ETH-USDC" (PairConfig.new 100 200) now 0 true,
   .placeOrder [1] [] 1, .prepareOrder 0 11 now (some (50, 0)), .persistOrder 0 0 true,
   .placeOrder [2] [] 2, .prepareOrder 0 12 now (some (50, 0)), .persistOrder 0 0 true]

/-- The orders are matched under the lock. -/
def matching : List Action :=
  [.setFinalizeEvery 1, .tickStart now 0 true [], .tickPair 21 [31] 0 true, .tickEnd]

/-- The fold of the round comes up to the submission of its batch. -/
def folding : List Action :=
  [.foldWitness 0, .foldInputs 0, .foldStep 0 true, .foldCount 0, .foldLog 0 now 0 true,
   .foldFinalize 0 (some proof), .foldRows 0]

/-- The orders of a pair, as lists. -/
def bookEntries (e : (_ : String) × PerPairBook) : String × List ((_ : Uuid) × Order) × List ((_ : Uuid) × Order) :=
  (e.1, e.2.bids.entries, e.2.asks.entries)

/-- The world is at rest and holds what the other does. The tables are compared by their entries, which
the kernel can evaluate. -/
def sameAtRest {env : Env} (w v : World env) : Bool :=
  decide (w.store.events = v.store.events) && decide (w.store.seq = v.store.seq) &&
    decide (w.state.book.books.entries.map bookEntries = v.state.book.books.entries.map bookEntries) &&
    decide (w.state.book.seq = v.state.book.seq) &&
    decide (w.state.pairTokens.entries = v.state.pairTokens.entries) &&
    decide (w.state.auctionLog = v.state.auctionLog) &&
    w.state.pendingBatches.isEmpty && v.state.pendingBatches.isEmpty &&
    decide (w.state.seenCiphertexts = v.state.seenCiphertexts) &&
    decide (w.state.spentNullifiers = v.state.spentNullifiers) &&
    decide (w.state.spentOrderNonces = v.state.spentOrderNonces) &&
    decide (w.state.minBackoff = v.state.minBackoff) && decide (w.state.maxBackoff = v.state.maxBackoff) &&
    decide (w.state.recovered = v.state.recovered) &&
    decide (w.secrets.entries = v.secrets.entries) && decide (w.ivcRound.entries = v.ivcRound.entries) &&
    decide (w.finalizeEvery = v.finalizeEvery) && w.tick.isNone && v.tick.isNone && w.tasks.isEmpty && v.tasks.isEmpty &&
    decide (w.issued = v.issued)

theorem bookEntries_injective : Function.Injective bookEntries := by
  rintro ⟨pair, bids, asks⟩ ⟨pair', bids', asks'⟩ h
  simp only [bookEntries, Prod.mk.injEq] at h
  obtain ⟨rfl, hbids, hasks⟩ := h
  rw [AList.ext hbids, AList.ext hasks]

theorem eq_of_sameAtRest {env : Env} {w v : World env} (h : sameAtRest w v = true) : w = v := by
  obtain ⟨⟨events, seq⟩, ⟨⟨⟨books, bookSeq⟩, pairs, auctions, batches, seen, nullifiers, nonces⟩, minB, maxB, rec⟩,
    secrets, rounds, every, tick, tasks, issued⟩ := w
  obtain ⟨⟨events', seq'⟩, ⟨⟨⟨books', bookSeq'⟩, pairs', auctions', batches', seen', nullifiers', nonces'⟩, minB',
    maxB', rec'⟩, secrets', rounds', every', tick', tasks', issued'⟩ := v
  simp only [sameAtRest, Bool.and_eq_true, decide_eq_true_eq, Option.isNone_iff_eq_none, List.isEmpty_iff,
    Table.isEmpty, and_assoc] at h
  obtain ⟨rfl, rfl, hbooks, rfl, hpairs, rfl, hbatches, hbatches', rfl, rfl, rfl, rfl, rfl, rfl, hsecrets, hrounds, rfl,
    rfl, rfl, rfl, rfl, rfl⟩ := h
  cases AList.ext (List.map_injective_iff.mpr bookEntries_injective hbooks)
  cases AList.ext hpairs
  cases AList.ext (hbatches.trans hbatches'.symm)
  cases AList.ext hsecrets
  cases AList.ext hrounds
  rfl

/-- Recovery that finds no aggregator. -/
def choice : Uuid → OrphanChoice := fun _ => ⟨99, none, 5, 5, true⟩

end Scenario

namespace Scenario

/-- The settlement of the batch is reported before the batch is submitted, and applied after it. -/
def settledEarly : List Action :=
  placing ++ matching ++ folding ++
    [.settleBatch 31 7 "0x" now 0 true, .foldSubmit 0 0 true, .settleApply 1, .foldPayload 0, .foldEnd 0,
     .submitStart 0, .submitEnd 0 0 [], .submitEnd 0 0 []]

/-- A pair with an interval of `2 ^ 64` milliseconds. -/
def longInterval : List Action :=
  [.registerPair "ETH-USDC" { PairConfig.new 100 200 with auctionInterval := some (fromMillis (2 ^ 64)) } now 0 true]

/-- Runs the actions to a quiescent point, recovers from the log, and compares. -/
def compare (actions : List Action) (check : EngineState → EngineState → Bool) : Bool :=
  (Transition.run World.step (World.initial env) actions).any (fun w => w.tasks.isEmpty && w.tick.isNone &&
    (recover env EngineState.new ∅ w.store none (fun _ => true) choice).toOption.any (fun out => check w.state out.1))

theorem of_compare (actions : List Action) (check : EngineState → EngineState → Bool)
    (h : compare actions check = true) :
    ∃ w out, Transition.run World.step (World.initial env) actions = some w ∧ w.Quiescent ∧
      recover env EngineState.new ∅ w.store none (fun _ => true) choice = .ok out ∧ check w.state out.1 = true := by
  obtain ⟨w, hw, hcheck⟩ := (Option.any_eq_true _ _).mp h
  simp only [Bool.and_eq_true] at hcheck
  obtain ⟨out, hout, hcheck'⟩ := (Option.any_eq_true _ _).mp hcheck.2
  refine ⟨w, out, hw, ⟨List.isEmpty_iff.mp hcheck.1.1, Option.isNone_iff_eq_none.mp hcheck.1.2⟩, ?_, hcheck'⟩
  revert hout
  cases recover env EngineState.new ∅ w.store none (fun _ => true) choice with
  | error e => simp [Except.toOption]
  | ok out' => simp [Except.toOption]

end Scenario

open Scenario in
/-- Without the two conditions recovery does not converge: a settlement that overtakes the submission of
its batch leaves the batch to recovery only, and an interval above the range of a `u64` is cut. -/
theorem recover_diverges :
    (∃ w out, Transition.run World.step (World.initial Scenario.env) settledEarly = some w ∧ w.Quiescent ∧
      recover Scenario.env EngineState.new ∅ w.store none (fun _ => true) choice = .ok out ∧
      ¬ out.1.projection.Agrees w.state.projection (createdBatches choice {a | Orphaned w.store.events a})) ∧
    ∃ w out, Transition.run World.step (World.initial Scenario.env) longInterval = some w ∧ w.Quiescent ∧
      recover Scenario.env EngineState.new ∅ w.store none (fun _ => true) choice = .ok out ∧
      ¬ out.1.projection.Agrees w.state.projection (createdBatches choice {a | Orphaned w.store.events a}) := by
  constructor
  · obtain ⟨w, out, hrun, hquiet, hout, hcheck⟩ := of_compare settledEarly
      (fun live out => decide (31 ∈ out.projection.pending) && decide (31 ∉ live.projection.pending))
      (by decide +kernel)
    simp only [Bool.and_eq_true, decide_eq_true_eq] at hcheck
    refine ⟨w, out, hrun, hquiet, hout, fun h => hcheck.2 ((h.pending 31 ?_).mp hcheck.1)⟩
    rintro ⟨a, -, ha⟩
    have hid : (31 : Uuid) = 99 := ha
    exact absurd hid (by decide)
  · obtain ⟨w, out, hrun, hquiet, hout, hcheck⟩ := of_compare longInterval
      (fun live out => decide (out.pairTokens.lookup "ETH-USDC" ≠ live.pairTokens.lookup "ETH-USDC"))
      (by decide)
    exact ⟨w, out, hrun, hquiet, hout, fun h => of_decide_eq_true hcheck (h.pairTokens "ETH-USDC")⟩

open Scenario in
theorem recover_converges_placed :
    ∃ w, Transition.run World.step (World.initial Scenario.env) placing = some w ∧ w.Quiescent ∧
      ∀ out, recover Scenario.env EngineState.new ∅ w.store none (fun _ => true) choice = .ok out →
        out.1.projection.Agrees w.state.projection (createdBatches choice {a | Orphaned w.store.events a}) := by
  obtain ⟨w, out, hrun, hquiet, -⟩ := of_compare placing (fun _ _ => true) (by decide +kernel)
  have hregular : Transition.Meets World.step World.Regular (World.initial Scenario.env) placing := by decide +kernel
  exact ⟨w, hrun, hquiet, (World.recover_converges hrun hregular hquiet EngineState.new rfl ∅ (fun _ => true) choice).1⟩

end DarkPool
