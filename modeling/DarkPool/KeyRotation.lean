import DarkPool.MultiKey
import DarkPool.Filing

namespace DarkPool

section Replay

variable {env env' : Env} {ev : Event} {r : Replay}

/-- The ciphertext replay has to decrypt. -/
def EventData.placedCiphertext : EventData → Option Bytes
  | .orderPlaced _ _ _ ciphertext => some ciphertext
  | _ => none

/-- The engines differ in their decrypters only. -/
def Env.SameBut (env env' : Env) : Prop := env' = { env with decrypt := env'.decrypt }

theorem replayEvent_eq (h : env.SameBut env')
    (hdecrypt : ∀ ct ∈ ev.data.placedCiphertext, env'.decrypt ct = env.decrypt ct) :
    replayEvent env' r ev = replayEvent env r ev := by
  rw [h]
  unfold replayEvent
  split
  next id c proof ct hdata =>
    have heq : env'.decrypt ct = env.decrypt ct := hdecrypt ct (by simp [hdata, EventData.placedCiphertext])
    unfold replayOrder
    rw [heq]
    rfl
  all_goals rfl

theorem replayAll_eq (h : env.SameBut env') {events : List Event}
    (hdecrypt : ∀ ev ∈ events, ∀ ct ∈ ev.data.placedCiphertext, env'.decrypt ct = env.decrypt ct) :
    replayAll env' r events = replayAll env r events := by
  unfold replayAll
  induction events generalizing r with
  | nil => rfl
  | cons ev events ih =>
    rw [List.foldlM_cons, List.foldlM_cons, replayEvent_eq h (hdecrypt ev List.mem_cons_self)]
    congr 1
    funext r'
    exact ih (fun ev' hev' => hdecrypt ev' (List.mem_cons_of_mem ev hev'))

/-- Replay gets past an order only by decrypting it. -/
theorem replayAll_decrypts {events : List Event} {r' : Replay} (h : replayAll env r events = .ok r') :
    ∀ ev ∈ events, ∀ ct ∈ ev.data.placedCiphertext, ∃ d, env.decrypt ct = some d := by
  induction events generalizing r with
  | nil => simp
  | cons ev events ih =>
    unfold replayAll at h
    rw [List.foldlM_cons] at h
    obtain ⟨r1, hhead, htail⟩ := bind_eq_ok.mp h
    intro ev' hev' ct hct
    rcases List.mem_cons.mp hev' with rfl | hmem
    · unfold replayEvent at hhead
      split at hhead
      next id c proof ct' hdata =>
        rw [hdata] at hct
        cases Option.some.inj hct
        obtain ⟨p, hp, -⟩ := bind_eq_ok.mp hhead
        unfold replayOrder at hp
        split at hp
        next => simp at hp
        next d hd => exact ⟨d, hd⟩
      all_goals simp_all [EventData.placedCiphertext]
    · exact ih htail ev' hmem ct hct

end Replay

/-- The sequence number after which recovery replays: that of the newest snapshot that decodes. -/
def replayedFrom (decodes : Nat → Bool) (snapshots : Snapshots) : Nat :=
  ((tryRestoreFromSnapshots decodes snapshots).map Prod.fst).getD 0

theorem recoverStart_seq {store : Store} {r start : Replay} {snapshots : Snapshots} {decodes : Nat → Bool} {seq : Nat}
    (h : recoverStart store r (some snapshots) decodes = .ok (start, seq)) : seq = replayedFrom decodes snapshots := by
  unfold recoverStart at h
  cases snapshots with
  | nil =>
    have hseq := (Prod.mk.inj (Except.ok.inj h)).2
    exact hseq.symm
  | cons s ss =>
    simp only at h
    split at h
    next seq' snap hfind =>
      split at h
      next =>
        have hseq := (Prod.mk.inj (Except.ok.inj h)).2
        simp [replayedFrom, hfind, hseq]
      next => simp at h
    next hfind =>
      split at h
      next =>
        have hseq := (Prod.mk.inj (Except.ok.inj h)).2
        simp [replayedFrom, hfind, hseq]
      next => simp at h

theorem lt_seq_of_mem_drop {store : Store} {dropped : List Event} (h : store.Holds dropped) {seq : Nat}
    (hafter : dropped.length ≤ seq) {ev : Event} (hev : ev ∈ store.events.drop (seq - dropped.length)) : seq < ev.seq := by
  have hlast : seq ≤ store.seq := by
    have hlen := List.length_pos_of_mem hev
    have hseq := h.2
    rw [List.length_drop] at hlen
    omega
  exact ((h.numbered_drop hafter hlast).lt_of_mem hev).1

theorem mem_drop_of_lt_seq {store : Store} {dropped : List Event} (h : store.Holds dropped) {seq : Nat}
    (hafter : dropped.length ≤ seq) {ev : Event} (hev : ev ∈ store.events) (hlt : seq < ev.seq) :
    ev ∈ store.events.drop (seq - dropped.length) := by
  rw [← List.take_append_drop (seq - dropped.length) store.events] at hev
  rcases List.mem_append.mp hev with hfront | hrest
  · have hnum := h.numbered
    rw [← List.take_append_drop (seq - dropped.length) store.events, numbered_append] at hnum
    have hle := (hnum.1.lt_of_mem hfront).2
    have hlen := List.length_take_le (seq - dropped.length) store.events
    omega
  · exact hrest

section Recovery

variable {env env' : Env} {dropped : List Event} {store : Store} {snapshots : Snapshots} {decodes : Nat → Bool}
  {choice : Uuid → OrphanChoice} {out : EngineState × Table String Nat × Store}

theorem recover_ok_start
    (h : recover env EngineState.new ∅ store (some snapshots) decodes choice = .ok out) :
    ∃ start seq, recoverStart store (Replay.start EngineState.new ∅) (some snapshots) decodes = .ok (start, seq) := by
  cases hstart : recoverStart store (Replay.start EngineState.new ∅) (some snapshots) decodes with
  | error e =>
    unfold recover at h
    rw [if_neg (by simp [EngineState.new]), hstart] at h
    simp [bind, Except.bind] at h
  | ok sa => exact ⟨sa.1, sa.2, rfl⟩

theorem recover_decrypts (h : Stored env' dropped store snapshots)
    (hout : recover env EngineState.new ∅ store (some snapshots) decodes choice = .ok out) :
    ∀ ev ∈ store.events, replayedFrom decodes snapshots < ev.seq → ∀ ct ∈ ev.data.placedCiphertext,
      ∃ d, env.decrypt ct = some d := by
  obtain ⟨start, seq, hstart⟩ := recover_ok_start hout
  obtain ⟨hafter, -⟩ := recoverStart_cases h.holds h.tail h.covered hstart
  rw [recover_eq rfl h.holds hstart hafter] at hout
  obtain ⟨r, hr, -⟩ := bind_eq_ok.mp hout
  intro ev hev hlt
  exact replayAll_decrypts hr ev (mem_drop_of_lt_seq h.holds hafter hev (recoverStart_seq hstart ▸ hlt))

/-- Recovery does the same with either decrypter if they agree on what it replays. -/
theorem recover_congr (h : Stored env dropped store snapshots) (hsame : env.SameBut env')
    (hdecrypt : ∀ ev ∈ store.events, replayedFrom decodes snapshots < ev.seq → ∀ ct ∈ ev.data.placedCiphertext,
      env'.decrypt ct = env.decrypt ct) :
    recover env' EngineState.new ∅ store (some snapshots) decodes choice =
      recover env EngineState.new ∅ store (some snapshots) decodes choice := by
  cases hstart : recoverStart store (Replay.start EngineState.new ∅) (some snapshots) decodes with
  | error e =>
    have hnew : EngineState.new.recovered = false := rfl
    unfold recover
    rw [hstart, hnew]
    simp [bind, Except.bind]
  | ok sa =>
    obtain ⟨hafter, -⟩ := recoverStart_cases h.holds h.tail h.covered hstart
    have hreplay : replayAll env' sa.1 (store.events.drop (sa.2 - dropped.length)) =
        replayAll env sa.1 (store.events.drop (sa.2 - dropped.length)) := by
      refine replayAll_eq hsame (fun ev hev => ?_)
      have hlt := lt_seq_of_mem_drop h.holds hafter hev
      exact hdecrypt ev (List.mem_of_mem_drop hev) (recoverStart_seq hstart ▸ hlt)
    rw [recover_eq rfl h.holds hstart hafter, recover_eq rfl h.holds hstart hafter, hreplay]

/-- A recovery that finds a place to start from and whose appends are stored succeeds. -/
theorem recover_succeeds (h : Stored env dropped store snapshots) {start : Replay × Nat}
    (hstart : recoverStart store (Replay.start EngineState.new ∅) (some snapshots) decodes = .ok start)
    (hok : ∀ a, (choice a).ok = true) :
    ∃ out, recover env EngineState.new ∅ store (some snapshots) decodes choice = .ok out := by
  obtain ⟨hafter, hsource⟩ := recoverStart_cases h.holds h.tail h.covered hstart
  have hle : start.2 ≤ store.seq ∧ start.1.state.book.seq ≤ start.2 := by
    rcases hsource with ⟨hr, hseq⟩ | ⟨snap, hmem, hr⟩
    · rw [hr, hseq]
      exact ⟨Nat.zero_le _, le_rfl⟩
    · rw [hr]
      exact (h.envelopes _ hmem).symm
  have hplay : ∀ ev ∈ store.events, Replayable env ev := fun ev hev => h.replayable ev (List.mem_append_right _ hev)
  obtain ⟨r, -, -, hsucceeds⟩ := recover_refines rfl h.holds hstart hafter hle.1 hle.2 hplay
  exact hsucceeds hok

end Recovery

/-- A running engine and the keys it holds; `all` are the keys it ever held. -/
structure Rotation (env : Env) (all : MultiKeyDecrypter) where
  system : System (env.withKeys all)
  keys : MultiKeyDecrypter

/-- A move of the engine or a call of the key admin, with the time of a removal. -/
inductive RotationMove
  | engine (m : Move)
  | insert (entry : KeyEntry)
  | setStatus (id : String) (status : KeyStatus)
  | remove (id : String) (now : DateTime)

def RotationMove.inserted : RotationMove → Option KeyEntry
  | .insert entry => some entry
  | _ => none

/-- The keys of a run: those it starts with and those it inserts. -/
def everHeld (keys : MultiKeyDecrypter) (moves : List RotationMove) : MultiKeyDecrypter :=
  ⟨keys.entries ++ moves.filterMap RotationMove.inserted⟩

namespace Rotation

variable {env : Env} {all : MultiKeyDecrypter}

def initial (env : Env) (all keys : MultiKeyDecrypter) : Rotation env all := ⟨System.initial (env.withKeys all), keys⟩

/-- The keys held now decrypt what the admission in progress was sent. -/
def decryptsPlacing (ρ : Rotation env all) (i : Nat) : Bool :=
  match ρ.system.world.tasks[i]? with
  | some (.placing ciphertext _ _) => (ρ.keys.decrypt ciphertext).isOk
  | _ => true

/-- The engine decrypts with the keys it holds now, in admission and in recovery. An admission that cannot
decrypt ends as one that the oracle does not answer. -/
def engineMove (ρ : Rotation env all) : Move → Option (System (env.withKeys all))
  | .op (.prepareOrder i id now oracle) =>
    ρ.system.step (.op (.prepareOrder i id now (if ρ.decryptsPlacing i then oracle else none)))
  | .restart decodes choice =>
    match recover (env.withKeys ρ.keys) EngineState.new ∅ ρ.system.world.store (some ρ.system.snapshots) decodes
      choice with
    | .error _ => none
    | .ok (state, ivcRound, store) =>
      if ρ.system.world.Fresh (drawnIds ρ.system.world.store store) then
        some ((ρ.system.withCaptured none).withWorld (ρ.system.world.restarted state ivcRound store))
      else none
  | m => ρ.system.step m

def step (ρ : Rotation env all) : RotationMove → Option (Rotation env all)
  | .engine m => (ρ.engineMove m).map (fun σ => ⟨σ, ρ.keys⟩)
  | .insert entry => some ⟨ρ.system, ρ.keys.insert entry⟩
  | .setStatus id status => some ⟨ρ.system, (ρ.keys.setStatus id status).1⟩
  | .remove id _ => some ⟨ρ.system, (ρ.keys.remove id).1⟩

/-- A key is removed when no order encrypted to it rests in the book and none was admitted for the maximal
time to live of an order. -/
def Drained (ρ : Rotation env all) : RotationMove → Prop
  | .remove id now => ∀ e ∈ ρ.keys.entries, e.id = id →
    (∀ o ∈ ρ.system.world.state.book.iterAll, e.opens o.encryptedPayload = false) ∧
    ∀ ev ∈ ρ.system.log, ∀ ct ∈ ev.data.placedCiphertext, e.opens ct = true →
      ev.timestamp + maxTtlSeconds * 1000000000 ≤ now
  | _ => True

instance (ρ : Rotation env all) (m : RotationMove) : Decidable (ρ.Drained m) := by
  unfold Drained
  split <;> infer_instance

/-- Every order that recovery replays is encrypted to a key that is still held. -/
def Covered (ρ : Rotation env all) (decodes : Nat → Bool) : Prop :=
  ∀ ev ∈ ρ.system.world.store.events, replayedFrom decodes ρ.system.snapshots < ev.seq →
    ∀ ct ∈ ev.data.placedCiphertext, ∃ e ∈ ρ.keys.entries, e.opens ct = true

instance (ρ : Rotation env all) (decodes : Nat → Bool) : Decidable (ρ.Covered decodes) := by
  unfold Covered
  infer_instance

variable {ρ ρ' : Rotation env all}

theorem sameBut_withKeys (env : Env) (keys all : MultiKeyDecrypter) : (env.withKeys all).SameBut (env.withKeys keys) := rfl

theorem decrypts_withKeys {keys : MultiKeyDecrypter} {ct : Bytes} :
    (∃ d, (env.withKeys keys).decrypt ct = some d) ↔ ∃ e ∈ keys.entries, e.opens ct = true := by
  constructor
  · rintro ⟨d, hd⟩
    cases hdecrypt : keys.decrypt ct with
    | error err => simp [Env.withKeys, hdecrypt, Except.toOption] at hd
    | ok d' =>
      obtain ⟨e, he, hopen⟩ := MultiKeyDecrypter.decrypt_ok hdecrypt
      exact ⟨e, he, by simp [KeyEntry.opens, hopen, Except.isOk, Except.toBool]⟩
  · rintro ⟨e, he, hopens⟩
    obtain ⟨d, hd⟩ := MultiKeyDecrypter.decrypt_of_opens he hopens
    exact ⟨d, by simp [Env.withKeys, hd, Except.toOption]⟩

theorem decrypt_withKeys_eq (hall : all.Consistent) {keys : MultiKeyDecrypter} (hkeys : keys.Within all) {ct : Bytes}
    {d : DecryptedOrder} (h : (env.withKeys keys).decrypt ct = some d) :
    (env.withKeys keys).decrypt ct = (env.withKeys all).decrypt ct := by
  cases hdecrypt : keys.decrypt ct with
  | error err => simp [Env.withKeys, hdecrypt, Except.toOption] at h
  | ok d' => simp [Env.withKeys, hdecrypt, hkeys.decrypt hall hdecrypt]

/-- What recovery reaches with the keys held it reaches with all keys. -/
theorem recover_all (hall : all.Consistent) (hkeys : ρ.keys.Within all) (hkept : System.Kept ρ.system)
    {decodes : Nat → Bool} {choice : Uuid → OrphanChoice} {out : EngineState × Table String Nat × Store}
    (h : recover (env.withKeys ρ.keys) EngineState.new ∅ ρ.system.world.store (some ρ.system.snapshots) decodes choice =
      .ok out) :
    recover (env.withKeys all) EngineState.new ∅ ρ.system.world.store (some ρ.system.snapshots) decodes choice = .ok out := by
  have hdecrypts := recover_decrypts hkept.stored h
  rw [← h]
  refine (recover_congr hkept.stored (sameBut_withKeys env ρ.keys all) (fun ev hev hlt ct hct => ?_)).symm
  obtain ⟨d, hd⟩ := hdecrypts ev hev hlt ct hct
  exact decrypt_withKeys_eq hall hkeys hd

/-- Whatever keys are held, the engine moves as one that holds all of them. -/
theorem engineMove_step (hall : all.Consistent) (hkeys : ρ.keys.Within all) (hkept : System.Kept ρ.system) {m : Move}
    {σ : System (env.withKeys all)} (h : ρ.engineMove m = some σ) : ∃ m', ρ.system.step m' = some σ := by
  unfold engineMove at h
  split at h
  next => exact ⟨_, h⟩
  next decodes choice =>
    split at h
    next => simp at h
    next state ivcRound store hrecover =>
      refine ⟨.restart decodes choice, ?_⟩
      simp only [System.step, System.restart, recover_all hall hkeys hkept hrecover]
      exact h
  next => exact ⟨_, h⟩

theorem kept_step (hall : all.Consistent) {m : RotationMove}
    (hm : ∀ entry, m.inserted = some entry → ∃ e ∈ all.entries, e.decrypter = entry.decrypter)
    (h : System.Kept ρ.system ∧ ρ.keys.Within all) (hstep : ρ.step m = some ρ') :
    System.Kept ρ'.system ∧ ρ'.keys.Within all := by
  obtain ⟨hkept, hkeys⟩ := h
  cases m with
  | engine m =>
    obtain ⟨σ, hσ, rfl⟩ := Option.map_eq_some_iff.mp hstep
    obtain ⟨m', hm'⟩ := engineMove_step hall hkeys hkept hσ
    exact ⟨hkept.step hm', hkeys⟩
  | insert entry =>
    cases Option.some.inj hstep
    exact ⟨hkept, hkeys.insert (hm entry rfl)⟩
  | setStatus id status =>
    cases Option.some.inj hstep
    exact ⟨hkept, hkeys.setStatus id status⟩
  | remove id now =>
    cases Option.some.inj hstep
    exact ⟨hkept, hkeys.remove id⟩

theorem kept_run (hall : all.Consistent) {keys : MultiKeyDecrypter} (hkeys : keys.Within all) {moves : List RotationMove}
    (hmoves : ∀ m ∈ moves, ∀ entry, m.inserted = some entry → ∃ e ∈ all.entries, e.decrypter = entry.decrypter)
    (hrun : Transition.run step (initial env all keys) moves = some ρ) :
    System.Kept ρ.system ∧ ρ.keys.Within all := by
  have hinitial : System.Kept (initial env all keys).system ∧ (initial env all keys).keys.Within all :=
    ⟨System.kept_initial _, hkeys⟩
  refine Transition.run_invariant (I := fun ρ : Rotation env all => System.Kept ρ.system ∧ ρ.keys.Within all)
    (fun _ _ _ h hm hstep => ?_) hinitial (Transition.meets_of_mem hmoves) hrun
  exact kept_step hall hm h hstep

end Rotation

/-- After every run, and wherever recovery finds its start: with all keys the engine boots, and with the keys it holds
it boots into the same state exactly if every order that is replayed is encrypted to one of them. -/
theorem recover_rotated_iff (env : Env) (keys : MultiKeyDecrypter) (moves : List RotationMove)
    (hall : (everHeld keys moves).Consistent) (ρ : Rotation env (everHeld keys moves))
    (hrun : Transition.run Rotation.step (Rotation.initial env (everHeld keys moves) keys) moves = some ρ)
    (decodes : Nat → Bool) (choice : Uuid → OrphanChoice) :
    (∀ out, recover (env.withKeys (everHeld keys moves)) EngineState.new ∅ ρ.system.world.store
        (some ρ.system.snapshots) decodes choice = .ok out →
      (recover (env.withKeys ρ.keys) EngineState.new ∅ ρ.system.world.store (some ρ.system.snapshots) decodes choice =
        .ok out ↔ ρ.Covered decodes)) ∧
    ((∃ start, recoverStart ρ.system.world.store (Replay.start EngineState.new ∅) (some ρ.system.snapshots) decodes =
        .ok start) → (∀ a, (choice a).ok = true) →
      ∃ out, recover (env.withKeys (everHeld keys moves)) EngineState.new ∅ ρ.system.world.store
        (some ρ.system.snapshots) decodes choice = .ok out) := by
  have hkeys : keys.Within (everHeld keys moves) := fun e he => ⟨e, List.mem_append_left _ he, rfl⟩
  have hmoves : ∀ m ∈ moves, ∀ entry, m.inserted = some entry →
      ∃ e ∈ (everHeld keys moves).entries, e.decrypter = entry.decrypter := by
    intro m hm entry hentry
    exact ⟨entry, List.mem_append_right _ (List.mem_filterMap.mpr ⟨m, hm, hentry⟩), rfl⟩
  obtain ⟨hkept, hwithin⟩ := Rotation.kept_run hall hkeys hmoves hrun
  refine ⟨fun out hout => ⟨fun hnow => ?_, fun hcovered => ?_⟩, fun hstart hok => ?_⟩
  · intro ev hev hlt ct hct
    exact Rotation.decrypts_withKeys.mp (recover_decrypts hkept.stored hnow ev hev hlt ct hct)
  · rw [← hout]
    refine recover_congr hkept.stored (Rotation.sameBut_withKeys env ρ.keys _) (fun ev hev hlt ct hct => ?_)
    obtain ⟨d, hd⟩ := Rotation.decrypts_withKeys.mpr (hcovered ev hev hlt ct hct)
    exact Rotation.decrypt_withKeys_eq hall hwithin hd
  · obtain ⟨start, hstart⟩ := hstart
    exact recover_succeeds hkept.stored hstart hok

namespace Scenario

/-- The key both orders are encrypted to. -/
def oldKey : KeyEntry where
  id := "old"
  status := .active
  decrypter := fun ct => (env.decrypt ct).elim (.error (.decryptionFailed "aead")) .ok

def newKey : KeyEntry := ⟨"new", .active, fun _ => .error (.decryptionFailed "aead")⟩

/-- An order is placed and cancelled. -/
def placedAndCancelled : List RotationMove :=
  [.registerPair "ETH-USDC" (PairConfig.new 100 200) now 0 true, .placeOrder [1] [] 1,
    .prepareOrder 0 11 now (some (50, 0)), .persistOrder 0 0 true, .cancelOrder 11 none now 0 true,
    .dropSecret 0].map (fun a => .engine (.op a))

/-- The key is replaced, and removed when the order is older than any that may still be live. -/
def rotating : List RotationMove :=
  [.insert newKey, .setStatus "old" .sunset, .remove "old" (now.val + maxTtlSeconds * 1000000000)]

def snapshotted : List RotationMove := [.engine .capture, .engine (.publish ⟨0, 1⟩ true true true)]

theorem consistent_oldKey {moves : List RotationMove} (h : moves.filterMap RotationMove.inserted = [newKey]) :
    (everHeld ⟨[oldKey]⟩ moves).Consistent := by
  intro e he e' he' ct d d' hd hd'
  simp only [everHeld, h, List.cons_append, List.nil_append, List.mem_cons, List.not_mem_nil, or_false] at he he'
  rcases he with rfl | rfl
  · rcases he' with rfl | rfl
    · exact Except.ok.inj (hd.symm.trans hd')
    · simp [newKey] at hd'
  · simp [newKey] at hd

/-- The end of a run that starts with the old key. -/
def rotated (moves : List RotationMove) : Option (Rotation env (everHeld ⟨[oldKey]⟩ moves)) :=
  Transition.run Rotation.step (Rotation.initial env (everHeld ⟨[oldKey]⟩ moves) ⟨[oldKey]⟩) moves

end Scenario

open Scenario in
/-- The order is gone from the book and older than any order may be, and the engine does not boot without its key. -/
theorem recover_rotated_fails :
    ∃ ρ, rotated (placedAndCancelled ++ rotating) = some ρ ∧
      Transition.Meets Rotation.step Rotation.Drained (Rotation.initial Scenario.env (everHeld ⟨[oldKey]⟩
        (placedAndCancelled ++ rotating)) ⟨[oldKey]⟩) (placedAndCancelled ++ rotating) ∧
      (recover (Scenario.env.withKeys (everHeld ⟨[oldKey]⟩ (placedAndCancelled ++ rotating))) EngineState.new ∅
        ρ.system.world.store (some ρ.system.snapshots) (fun _ => true) choice).isOk = true ∧
      recover (Scenario.env.withKeys ρ.keys) EngineState.new ∅ ρ.system.world.store (some ρ.system.snapshots)
        (fun _ => true) choice = .error (.recoverDecrypt 11) := by
  have hrun : (rotated (placedAndCancelled ++ rotating)).any (fun ρ =>
      (recover (Scenario.env.withKeys (everHeld ⟨[oldKey]⟩ (placedAndCancelled ++ rotating))) EngineState.new ∅
        ρ.system.world.store (some ρ.system.snapshots) (fun _ => true) choice).isOk &&
      match recover (Scenario.env.withKeys ρ.keys) EngineState.new ∅ ρ.system.world.store (some ρ.system.snapshots)
        (fun _ => true) choice with
      | .error e => decide (e = .recoverDecrypt 11)
      | .ok _ => false) = true := by
    decide +kernel
  obtain ⟨ρ, hρ, hrun⟩ := (Option.any_eq_true _ _).mp hrun
  obtain ⟨hall, hnow⟩ := (Bool.and_eq_true _ _).mp hrun
  refine ⟨ρ, hρ, by decide +kernel, hall, ?_⟩
  split at hnow
  next e he =>
    rw [of_decide_eq_true hnow] at he
    exact he
  next => simp at hnow

open Scenario in
theorem recover_rotated_snapshot :
    ∃ ρ out, rotated (placedAndCancelled ++ snapshotted ++ rotating) = some ρ ∧
      recover (Scenario.env.withKeys ρ.keys) EngineState.new ∅ ρ.system.world.store (some ρ.system.snapshots)
        (fun _ => true) choice = .ok out ∧
      recover (Scenario.env.withKeys (everHeld ⟨[oldKey]⟩ (placedAndCancelled ++ snapshotted ++ rotating)))
        EngineState.new ∅ ρ.system.world.store (some ρ.system.snapshots) (fun _ => true) choice = .ok out := by
  have hrun : (rotated (placedAndCancelled ++ snapshotted ++ rotating)).any (fun ρ =>
      decide (ρ.Covered (fun _ => true)) && (recoverStart ρ.system.world.store (Replay.start EngineState.new ∅)
        (some ρ.system.snapshots) (fun _ => true)).isOk) = true := by
    decide +kernel
  obtain ⟨ρ, hρ, hrun⟩ := (Option.any_eq_true _ _).mp hrun
  obtain ⟨hcovered, hstart⟩ := (Bool.and_eq_true _ _).mp hrun
  have hsome : ∃ start, recoverStart ρ.system.world.store (Replay.start EngineState.new ∅) (some ρ.system.snapshots)
      (fun _ => true) = .ok start := by
    revert hstart
    cases recoverStart ρ.system.world.store (Replay.start EngineState.new ∅) (some ρ.system.snapshots)
        (fun _ => true) with
    | error e => simp [Except.isOk, Except.toBool]
    | ok start => exact fun _ => ⟨start, rfl⟩
  obtain ⟨hiff, hboots⟩ := recover_rotated_iff Scenario.env ⟨[oldKey]⟩ (placedAndCancelled ++ snapshotted ++ rotating)
    (consistent_oldKey rfl) ρ hρ (fun _ => true) choice
  obtain ⟨out, hout⟩ := hboots hsome (fun _ => rfl)
  exact ⟨ρ, out, hρ, (hiff out hout).mpr (of_decide_eq_true hcovered), hout⟩

end DarkPool
