import DarkPool.Batch
import DarkPool.Witness

namespace DarkPool

/-- A reading of the wall clock, which is past the epoch. -/
abbrev Now := { t : DateTime // 0 < t }

/-- Where the fold loop of `run_auction_tick` stands with the first aggregation of its queue. -/
inductive FoldStage
  | start
  | witnessed (witness : BatchWitness)
  | encoded (ext : AuctionExternalInputs)
  | folded (inputRoot : Bytes)
  | counted (inputRoot : Bytes) (round : Nat)
  | finalizing
  | proved (proof : FinalProof)
  | resolved (proof : FinalProof) (rows : List SettlementMatch)
  | submitted (proof : FinalProof)

/-- Where `submit_batch` stands with the first batch of a submission loop. -/
inductive SubmitStage
  | start
  | calling (batch : PendingBatch)
  | sent (txHash : String)
  | confirmed (event : Event)
  | failed

/-- What follows a submission loop. -/
inductive AfterSubmit
  | resubmit (skip : List Uuid)
  | prune
  | done

/-- A call in progress, between two of its critical sections. -/
inductive Task (env : Env)
  | placing (ciphertext proof : Bytes) (caller : Address)
  | prepared (order : PreparedOrder env)
  | dropping (orderIds : List Uuid)
  | folding (queue : List PendingAggregation) (stage : FoldStage) (toSubmit : List Uuid)
  | submitting (batchIds : List Uuid) (stage : SubmitStage) (after : AfterSubmit)
  | settling (batchId : Uuid) (event : Event)

/-- A tick inside `tick_under_lock`: it holds the state lock until its pairs are done. -/
structure TickUnderLock where
  now : Now
  pairs : List String
  pending : List PendingAggregation

/-- The shared state of a running engine. `issued` holds every id `Uuid::new_v4` returned so far. -/
structure World (env : Env) where
  store : Store
  state : EngineState
  secrets : Table Uuid OrderSecrets
  ivcRound : Table String Nat
  finalizeEvery : Nat
  tick : Option TickUnderLock
  tasks : List (Task env)
  issued : List Uuid

/-- One critical section of one call, with everything the code does not decide: the clock, the ids,
the outcome of appends and of the oracle, aggregator and submitter, and hash map iteration order. -/
inductive Action
  | registerPair (pair : String) (config : PairConfig) (now : Now) (clock : DateTime) (ok : Bool)
  | suspendPair (pair : String) (now : Now) (clock : DateTime) (ok : Bool)
  | delistPair (pair : String) (openIds : List Uuid) (now : Now) (clock : DateTime) (ok : Bool)
  | cancelOrder (orderId : Uuid) (reason : Option String) (now : Now) (clock : DateTime) (ok : Bool)
  | placeOrder (ciphertext proof : Bytes) (caller : Address)
  | prepareOrder (i : Nat) (id : Uuid) (now : Now) (oracle : Option (Decimal × Int))
  | persistOrder (i : Nat) (clock : DateTime) (ok : Bool)
  | dropSecret (i : Nat)
  | tickStart (now : Now) (clock : DateTime) (ok : Bool) (expired : List Event)
  | tickPair (auctionId : Uuid) (batchIds : List Uuid) (clock : DateTime) (ok : Bool)
  | tickEnd
  | foldWitness (i : Nat)
  | foldInputs (i : Nat)
  | foldStep (i : Nat) (ok : Bool)
  | foldCount (i : Nat)
  | foldLog (i : Nat) (now : Now) (clock : DateTime) (ok : Bool)
  | foldFinalize (i : Nat) (proof : Option FinalProof)
  | foldRows (i : Nat)
  | foldSubmit (i : Nat) (clock : DateTime) (ok : Bool)
  | foldPayload (i : Nat)
  | foldEnd (i : Nat)
  | submitBatch (batchId : Uuid)
  | resubmitPending (batchIds : List Uuid)
  | submitStart (i : Nat)
  | submitCall (i : Nat) (txHash : Option String)
  | submitLog (i : Nat) (now : Now) (clock : DateTime) (ok : Bool)
  | submitApply (i : Nat)
  | submitFail (i : Nat) (now : Instant)
  | submitEnd (i : Nat) (now : Instant) (batchIds : List Uuid)
  | settleBatch (batchId : Uuid) (blockNumber : Nat) (txHash : String) (now : Now) (clock : DateTime) (ok : Bool)
  | settleApply (i : Nat)
  | setFinalizeEvery (n : Nat)

namespace World

variable {env : Env}

def initial (env : Env) : World env where
  store := Store.empty
  state := EngineState.new
  secrets := ∅
  ivcRound := ∅
  finalizeEvery := 60
  tick := none
  tasks := []
  issued := []

def spawn (w : World env) (t : Task env) : World env := { w with tasks := w.tasks ++ [t] }

def setTask (w : World env) (i : Nat) (t : Task env) : World env := { w with tasks := w.tasks.set i t }

def endTask (w : World env) (i : Nat) : World env := { w with tasks := w.tasks.eraseIdx i }

def withCore (w : World env) (state : EngineState) (store : Store) : World env :=
  { w with state := state, store := store }

def withState (w : World env) (state : EngineState) : World env := { w with state := state }

def withStore (w : World env) (store : Store) : World env := { w with store := store }

def withSecrets (w : World env) (secrets : Table Uuid OrderSecrets) : World env := { w with secrets := secrets }

def withTick (w : World env) (tick : Option TickUnderLock) : World env := { w with tick := tick }

def issue (w : World env) (ids : List Uuid) : World env := { w with issued := ids ++ w.issued }

def Fresh (w : World env) (ids : List Uuid) : Prop := ids.Nodup ∧ ∀ id ∈ ids, id ∉ w.issued

instance (w : World env) (ids : List Uuid) : Decidable (w.Fresh ids) :=
  have : Decidable (∀ id ∈ ids, id ∉ w.issued) := List.decidableBAll _ ids
  inferInstanceAs (Decidable (_ ∧ _))

/-- A call that only takes the state lock and returns. -/
def lockedCall (w : World env) (call : Except EngineError (EngineState × Store)) : World env :=
  match call with
  | .ok (state, store) => w.withCore state store
  | .error _ => w

/-- The sections that take the state lock from the outside, and spawn what runs after it. -/
def stepLocked (w : World env) : Action → Option (World env)
  | .registerPair pair config now clock ok =>
    some (w.lockedCall (registerPairWithEvent w.state w.store now clock ok pair config))
  | .suspendPair pair now clock ok => some (w.lockedCall (DarkPool.suspendPair w.state w.store now clock ok pair))
  | .delistPair pair openIds now clock ok =>
    match Pair.parse pair with
    | .error _ => some w
    | .ok key =>
      if openIds.Perm (w.state.book.orderIdsFor key) then
        match DarkPool.delistPair w.state w.store now clock ok pair openIds with
        | .ok (state, store, dropped) => some ((w.withCore state store).spawn (.dropping dropped))
        | .error _ => some w
      else none
  | .cancelOrder orderId reason now clock ok =>
    match DarkPool.cancelOrder w.state w.store now clock ok orderId reason with
    | .ok (state, store) => some ((w.withCore state store).spawn (.dropping [orderId]))
    | .error _ => some w
  | .placeOrder ciphertext proof caller =>
    if maxEncryptedPayloadBytes < ciphertext.length ∨ ciphertextDigest env ciphertext ∈ w.state.seenCiphertexts
    then some w
    else some (w.spawn (.placing ciphertext proof caller))
  | .tickStart now clock ok expired =>
    if expired.Perm (w.state.book.collectExpired now) then
      let core := expireOrders w.state w.store now clock ok expired
      some ((w.withCore core.1 core.2).withTick (some ⟨now, activePairs core.1, []⟩))
    else none
  | .submitBatch batchId => some (w.spawn (.submitting [batchId] .start .done))
  | .resubmitPending batchIds =>
    if batchIds.Perm w.state.pendingBatches.keys then some (w.spawn (.submitting batchIds .start .done)) else none
  | _ => none

/-- The sections of a tick that holds the lock. -/
def stepTick (w : World env) (t : TickUnderLock) : Action → Option (World env)
  | .tickPair auctionId batchIds clock ok =>
    match t.pairs with
    | [] => none
    | pair :: pairs =>
      if w.Fresh (auctionId :: batchIds) then
        let next : World env :=
          (w.issue (auctionId :: batchIds)).withTick (some ⟨t.now, pairs, t.pending⟩)
        match tickRound w.state pair auctionId with
        | none => some next
        | some result =>
          if batchIds.length = (result.matchList.pieces engineBatchSize).length then
            match recordRound w.state w.store t.now clock ok result batchIds with
            | none => some next
            | some (state, store, pending) =>
              some ((next.withCore state store).withTick (some ⟨t.now, pairs, t.pending ++ pending⟩))
          else none
      else none
  | .tickEnd =>
    match t.pairs with
    | [] => some ((w.withTick none).spawn (.folding t.pending .start []))
    | _ :: _ => none
  | _ => none

/-- The sections of a call in progress that need the state lock. -/
def stepTaskLocked (w : World env) (i : Nat) (task : Task env) : Action → Option (World env)
  | .prepareOrder _ id now oracle =>
    match task with
    | .placing ciphertext proof caller =>
      if w.Fresh [id] then
        match oracle with
        | none => some (w.endTask i)
        | some (balance, position) =>
          match DarkPool.prepareOrder env w.state ciphertext proof caller id now balance position with
          | .ok order => some ((w.issue [id]).setTask i (.prepared order))
          | .error _ => some (w.endTask i)
      else none
    | _ => none
  | .persistOrder _ clock ok =>
    match task with
    | .prepared order =>
      match persistOrderPlaced w.state w.store clock ok env w.secrets order.toPlacement with
      | .ok (state, store, secrets) => some (((w.withCore state store).withSecrets secrets).endTask i)
      | .error _ => some (w.endTask i)
    | _ => none
  | .foldRows _ =>
    match task with
    | .folding (p :: queue) (.proved proof) toSubmit =>
      match buildSettlementMatches p w.state with
      | .ok rows => some (w.setTask i (.folding (p :: queue) (.resolved proof rows) toSubmit))
      | .error _ => some (w.setTask i (.folding queue .start toSubmit))
    | _ => none
  | .foldSubmit _ clock ok =>
    match task with
    | .folding (p :: queue) (.resolved proof rows) toSubmit =>
      match finalizePendingBatch w.state w.store clock ok p proof.proofBytes rows with
      | .ok (state, store) =>
        some ((w.withCore state store).setTask i (.folding (p :: queue) (.submitted proof) toSubmit))
      | .error _ => some (w.setTask i (.folding queue .start toSubmit))
    | _ => none
  | .foldPayload _ =>
    match task with
    | .folding (p :: queue) (.submitted proof) toSubmit =>
      some ((w.withState (storePayload w.state p.batchId proof.payload)).setTask i
        (.folding queue .start (toSubmit ++ [p.batchId])))
    | _ => none
  | .submitStart _ =>
    match task with
    | .submitting (b :: ids) .start after =>
      match acquireSubmit w.state b with
      | (state, .ready batch) => some ((w.withState state).setTask i (.submitting (b :: ids) (.calling batch) after))
      | (state, _) => some ((w.withState state).setTask i (.submitting ids .start after))
    | _ => none
  | .submitApply _ =>
    match task with
    | .submitting (b :: ids) (.confirmed event) after =>
      some ((w.withState (closeBatch w.state b event)).setTask i (.submitting ids .start after))
    | _ => none
  | .submitFail _ now =>
    match task with
    | .submitting (b :: ids) .failed after =>
      some ((w.withState (noteSubmitFailure w.state b now)).setTask i (.submitting ids .start after))
    | _ => none
  | .submitEnd _ now batchIds =>
    match task with
    | .submitting [] .start (.resubmit skip) =>
      if batchIds.Perm (resubmitIdsExcept w.state skip now) then some (w.setTask i (.submitting batchIds .start .prune))
      else none
    | .submitting [] .start .prune => some ((w.withSecrets (pruneDeadSecrets w.secrets w.state)).endTask i)
    | .submitting [] .start .done => some (w.endTask i)
    | _ => none
  | .settleApply _ =>
    match task with
    | .settling b event => some ((w.withState (closeBatch w.state b event)).endTask i)
    | _ => none
  | _ => none

/-- The sections that run without the state lock, and so also beside a tick. -/
def stepTaskFree (w : World env) (i : Nat) (task : Task env) : Action → Option (World env)
  | .dropSecret _ =>
    match task with
    | .dropping [] => some (w.endTask i)
    | .dropping (id :: ids) => some ((w.withSecrets (DarkPool.dropSecret w.secrets id)).setTask i (.dropping ids))
    | _ => none
  | .foldWitness _ =>
    match task with
    | .folding (p :: queue) .start toSubmit =>
      match buildBatchWitness w.secrets p.batchId p.auctionId p.matchList p.orders with
      | .ok witness => some (w.setTask i (.folding (p :: queue) (.witnessed witness) toSubmit))
      | .error _ => some (w.setTask i (.folding queue .start toSubmit))
    | _ => none
  | .foldInputs _ =>
    match task with
    | .folding (p :: queue) (.witnessed witness) toSubmit =>
      match fromWitnessWithAdmitted env witness (p.matchList.map Match.price) (p.matchList.map Match.size)
          engineBatchSize (admittedCommitments w.secrets p.admittedOrderIds) with
      | .ok ext => some (w.setTask i (.folding (p :: queue) (.encoded ext) toSubmit))
      | .error _ => some (w.setTask i (.folding queue .start toSubmit))
    | _ => none
  | .foldStep _ ok =>
    match task with
    | .folding (p :: queue) (.encoded ext) toSubmit =>
      if ok then some (w.setTask i (.folding (p :: queue) (.folded ext.inputRoot) toSubmit))
      else some (w.setTask i (.folding queue .start toSubmit))
    | _ => none
  | .foldCount _ =>
    match task with
    | .folding (p :: queue) (.folded root) toSubmit =>
      let round := (w.ivcRound.lookup p.pair).getD 0 + 1
      some ({ w with ivcRound := w.ivcRound.insert p.pair round }.setTask i
        (.folding (p :: queue) (.counted root round) toSubmit))
    | _ => none
  | .foldLog _ now clock ok =>
    match task with
    | .folding (p :: queue) (.counted root round) toSubmit =>
      let event := Event.unsequenced now (.batchFolded p.batchId round p.pair root)
      -- A failed append is only logged.
      let store :=
        match appendEvents w.store clock ok [event] with
        | .ok (store, _) => store
        | .error _ => w.store
      some ((w.withStore store).setTask i
        (if round % w.finalizeEvery = 0 then .folding (p :: queue) .finalizing toSubmit
        else .folding queue .start toSubmit))
    | _ => none
  | .foldFinalize _ proof =>
    match task with
    | .folding (p :: queue) .finalizing toSubmit =>
      match proof with
      | some proof => some (w.setTask i (.folding (p :: queue) (.proved proof) toSubmit))
      | none => some (w.setTask i (.folding queue .start toSubmit))
    | _ => none
  | .foldEnd _ =>
    match task with
    | .folding [] .start toSubmit => some (w.setTask i (.submitting toSubmit .start (.resubmit toSubmit)))
    | _ => none
  | .submitCall _ txHash =>
    match task with
    | .submitting (b :: ids) (.calling _) after =>
      match txHash with
      | some tx => some (w.setTask i (.submitting (b :: ids) (.sent tx) after))
      | none => some (w.setTask i (.submitting (b :: ids) .failed after))
    | _ => none
  | .submitLog _ now clock ok =>
    match task with
    | .submitting (b :: ids) (.sent tx) after =>
      match appendEvents w.store clock ok [confirmedEvent now b tx] with
      | .ok (store, [event]) => some ((w.withStore store).setTask i (.submitting (b :: ids) (.confirmed event) after))
      | _ => some (w.setTask i (.submitting (b :: ids) .failed after))
    | _ => none
  | _ => none

/-- `on_batch_settled` up to its append, which it makes before it takes the lock. -/
def stepFree (w : World env) : Action → Option (World env)
  | .settleBatch batchId blockNumber txHash now clock ok =>
    match appendEvents w.store clock ok [settledEvent now batchId blockNumber txHash] with
    | .ok (store, [event]) => some ((w.withStore store).spawn (.settling batchId event))
    | _ => some w
  | .setFinalizeEvery n => some (if n = 0 then w else { w with finalizeEvery := n })
  | _ => none

end World

/-- The call in progress a section belongs to. -/
def Action.task : Action → Option Nat
  | .prepareOrder i _ _ _ | .persistOrder i _ _ | .dropSecret i | .foldWitness i | .foldInputs i | .foldStep i _
  | .foldCount i | .foldLog i _ _ _ | .foldFinalize i _ | .foldRows i | .foldSubmit i _ _ | .foldPayload i
  | .foldEnd i | .submitStart i | .submitCall i _ | .submitLog i _ _ _ | .submitApply i | .submitFail i _
  | .submitEnd i _ _ | .settleApply i => some i
  | _ => none

/-- One critical section. The state lock is free unless a tick is inside `tick_under_lock`. -/
def World.step {env : Env} (w : World env) (a : Action) : Option (World env) :=
  match a.task with
  | some i =>
    match w.tasks[i]? with
    | none => none
    | some task =>
      match w.stepTaskFree i task a with
      | some w' => some w'
      | none => if w.tick.isNone then w.stepTaskLocked i task a else none
  | none =>
    match w.stepFree a with
    | some w' => some w'
    | none =>
      match w.tick with
      | some t => w.stepTick t a
      | none => w.stepLocked a

end DarkPool
