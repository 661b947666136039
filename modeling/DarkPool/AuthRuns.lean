import DarkPool.Auth
import DarkPool.NonceHistory

namespace DarkPool

/-- A call on the login routes, or the cleanup task. -/
inductive AuthCall
  | challenge (clientKey nonce : String) (instant : Int)
  | evictStale (instant : Int)
  | verify (body : VerifyRequest) (t : SiweState.Clocks)

/-- A token handed out, and the login it was handed out for. -/
structure LoginSession where
  message : SiweMessage
  login : SiweLogin
  t : SiweState.Clocks
  claims : Claims
  token : Bytes

namespace AuthCall

def instant : AuthCall → Int
  | challenge _ _ instant | evictStale instant => instant
  | verify _ t => t.instant

def apply (state : SiweState) (inner : NonceInner) : AuthCall → NonceInner
  | challenge clientKey nonce instant => (inner.generateFor clientKey nonce instant).2
  | evictStale instant => inner.evictStale state.nonceTtl instant
  | verify body t => (state.restAuthVerify inner body t).2

def step (state : SiweState) (s : NonceState) (call : AuthCall) : Option NonceState :=
  if s.clock ≤ call.instant then some ⟨call.apply state s.inner, call.instant⟩ else none

/-- The nonce the call hands out, and when. -/
def issued (s : NonceState) : AuthCall → List (String × Int)
  | challenge clientKey nonce instant => NonceCall.issued s (.generateFor clientKey nonce instant)
  | _ => []

/-- The session a call opens. -/
def session (state : SiweState) (s : NonceState) : AuthCall → List LoginSession
  | verify body t =>
    match SiweState.readSignature body, state.env.parse body.message, (state.restAuthVerify s.inner body t).1 with
    | .ok sig, .ok message, .ok response =>
      [⟨message, state.login body sig, t, state.jwt.claimsFor message.address t.unix, response.token⟩]
    | _, _, _ => []
  | _ => []

end AuthCall

section Calls

variable {state : SiweState} {inner : NonceInner} {body : VerifyRequest} {t : SiweState.Clocks}

/-- The route leaves the store as the check of the message does; it fails earlier only on an unreadable signature. -/
theorem restAuthVerify_inner (state : SiweState) (inner : NonceInner) (body : VerifyRequest) (t : SiweState.Clocks) :
    (state.restAuthVerify inner body t).2 = match SiweState.readSignature body with
      | .error _ => inner
      | .ok sig => (verifySiweMessage state.env state.nonceTtl inner (state.login body sig) t.now t.instant).2 := by
  unfold SiweState.restAuthVerify
  cases SiweState.readSignature body with
  | error e => rfl
  | ok sig =>
    simp only
    split
    next => rfl
    next => split <;> rfl

theorem restAuthVerify_ok {response : VerifyResponse} (h : (state.restAuthVerify inner body t).1 = .ok response) :
    ∃ sig address, SiweState.readSignature body = .ok sig ∧
      (verifySiweMessage state.env state.nonceTtl inner (state.login body sig) t.now t.instant).1 = .ok address ∧
      state.jwt.env.encode (state.jwt.claimsFor address t.unix) = .ok response.token ∧
      response.expiresAt = (state.jwt.claimsFor address t.unix).exp ∧ response.address = formatAddress address := by
  unfold SiweState.restAuthVerify at h
  cases hsig : SiweState.readSignature body with
  | error e => simp [hsig] at h
  | ok sig =>
    simp only [hsig] at h
    split at h
    next => cases h
    next address haddress =>
      split at h
      next => cases h
      next token expiresAt hissue =>
        obtain ⟨token', hencode, hpair⟩ := bind_eq_ok.mp hissue
        cases Except.ok.inj hpair
        cases Except.ok.inj h
        exact ⟨sig, address, rfl, haddress, hencode, rfl, rfl⟩

theorem verifySiweMessage_ok {env : SiweEnv} {ttl : Nat} {login : SiweLogin} {now instant : Int} {address : Address}
    (h : (verifySiweMessage env ttl inner login now instant).1 = .ok address) :
    ∃ message, checkSiweMessage env login now = .ok message ∧ message.address = address := by
  unfold verifySiweMessage at h
  split at h
  next => cases h
  next message hcheck =>
    simp only at h
    split at h
    next => exact ⟨message, hcheck, Except.ok.inj h⟩
    next => cases h

end Calls

/-- The token was signed for the address of a message that passed every check. -/
structure LoginSession.Backed (state : SiweState) (x : LoginSession) : Prop where
  checked : checkSiweMessage state.env x.login x.t.now = .ok x.message
  expected : x.login.expectedChainId = state.chainId ∧ x.login.expectedDomain = state.expectedDomain
  claimed : x.claims = state.jwt.claimsFor x.message.address x.t.unix
  signed : state.jwt.env.encode x.claims = .ok x.token

/-- When a session was opened, and with which nonce. -/
def LoginSession.spent (x : LoginSession) : String × Int := (x.message.nonce, x.t.instant)

section Sessions

variable (state : SiweState) (s : NonceState) {body : VerifyRequest} (t : SiweState.Clocks)

/-- A session stands for an accepted login. -/
theorem session_verify {sig : Bytes} (hsig : SiweState.readSignature body = .ok sig) :
    ((AuthCall.verify body t).session state s = [] ∨
      ∃ x : LoginSession, (AuthCall.verify body t).session state s = [x] ∧ x.Backed state ∧
        NonceCall.accepted state.env state.nonceTtl s (.verify (state.login body sig) t.now t.instant) =
          [x.spent]) := by
  simp only [AuthCall.session, hsig]
  cases hresponse : (state.restAuthVerify s.inner body t).1 with
  | error e => exact Or.inl (by cases state.env.parse body.message <;> rfl)
  | ok response =>
    right
    obtain ⟨sig', address, hsig', hverified, hencode, -, -⟩ := restAuthVerify_ok hresponse
    cases Except.ok.inj (hsig.symm.trans hsig')
    obtain ⟨message, hcheck, rfl⟩ := verifySiweMessage_ok hverified
    have hparse : state.env.parse body.message = .ok message := checkSiweMessage_parse hcheck
    refine ⟨⟨message, state.login body sig, t, state.jwt.claimsFor message.address t.unix, response.token⟩,
      by rw [hparse], ⟨hcheck, ⟨rfl, rfl⟩, rfl, hencode⟩, ?_⟩
    have hparse' : state.env.parse (state.login body sig).messageStr = .ok message := hparse
    simp only [NonceCall.accepted, hverified, hparse']
    rfl

theorem session_unreadable {e : LoginError} (hsig : SiweState.readSignature body = .error e) :
    (AuthCall.verify body t).session state s = [] := by
  simp only [AuthCall.session, hsig]

end Sessions

/-- The store together with the sessions opened so far. -/
structure AuthHistory (state : SiweState) (s : NonceState) (issued : List (String × Int))
    (sessions : List LoginSession) :
    Prop where
  nonces : ∃ accepted consumed, NonceHistory state.nonceTtl s issued accepted consumed ∧
    (sessions.map LoginSession.spent).Sublist accepted
  backed : ∀ x ∈ sessions, x.Backed state

namespace AuthHistory

variable {state : SiweState} {s s' : NonceState} {issued : List (String × Int)} {sessions : List LoginSession}

theorem verify (h : AuthHistory state s issued sessions) {body : VerifyRequest} {t : SiweState.Clocks}
    (hle : s.clock ≤ t.instant) :
    AuthHistory state ⟨(state.restAuthVerify s.inner body t).2, t.instant⟩ issued
      (sessions ++ (AuthCall.verify body t).session state s) := by
  obtain ⟨accepted, consumed, hnonces, hsub⟩ := h.nonces
  rw [restAuthVerify_inner]
  cases hsig : SiweState.readSignature body with
  | error e =>
    rw [session_unreadable state s t hsig, List.append_nil]
    exact ⟨⟨accepted, consumed, hnonces.tick hle, hsub⟩, h.backed⟩
  | ok sig =>
    have hstep : NonceHistory state.nonceTtl
        ⟨(verifySiweMessage state.env state.nonceTtl s.inner (state.login body sig) t.now t.instant).2,
          t.instant⟩ _ _ _ :=
      hnonces.verify hle (state.login body sig) t.now
    rcases session_verify state s t hsig with hnone | ⟨x, hx, hbacked, haccepted⟩
    · rw [hnone, List.append_nil]
      exact ⟨⟨_, _, hstep, hsub.trans (List.sublist_append_left _ _)⟩, h.backed⟩
    · rw [haccepted] at hstep
      rw [hx]
      refine ⟨⟨_, _, hstep, ?_⟩, fun y hy => ?_⟩
      · rw [List.map_append]
        exact hsub.append (List.Sublist.refl _)
      · rcases List.mem_append.mp hy with hy | hy
        · exact h.backed y hy
        · rw [List.mem_singleton.mp hy]
          exact hbacked

theorem step (h : AuthHistory state s issued sessions) {call : AuthCall} (hstep : call.step state s = some s')
    (hnodup : ((issued ++ call.issued s).map Prod.fst).Nodup) :
    AuthHistory state s' (issued ++ call.issued s) (sessions ++ call.session state s) := by
  simp only [AuthCall.step, Option.ite_none_right_eq_some, Option.some.injEq] at hstep
  obtain ⟨hle, rfl⟩ := hstep
  obtain ⟨accepted, consumed, hnonces, hsub⟩ := h.nonces
  cases call with
  | challenge clientKey nonce instant =>
    simp only [AuthCall.session, List.append_nil]
    exact ⟨⟨accepted, consumed, hnonces.generateFor hle hnodup, hsub⟩, h.backed⟩
  | evictStale instant =>
    simp only [AuthCall.session, AuthCall.issued, List.append_nil]
    exact ⟨⟨accepted, consumed, hnonces.evictStale hle, hsub⟩, h.backed⟩
  | verify body t =>
    simp only [AuthCall.issued, List.append_nil]
    exact h.verify hle

theorem run {clock : Int} {calls : List AuthCall}
    (hrun : Transition.run (AuthCall.step state) ⟨NonceInner.empty, clock⟩ calls = some s)
    (hnodup : ((Transition.collect (AuthCall.step state) AuthCall.issued ⟨NonceInner.empty, clock⟩ calls).map
      Prod.fst).Nodup) :
    AuthHistory state s (Transition.collect (AuthCall.step state) AuthCall.issued ⟨NonceInner.empty, clock⟩ calls)
      (Transition.collect (AuthCall.step state) (AuthCall.session state) ⟨NonceInner.empty, clock⟩ calls) := by
  induction calls using List.reverseRecOn generalizing s with
  | nil =>
    cases Option.some.inj hrun
    exact ⟨⟨[], [], NonceHistory.start _ clock, List.Sublist.refl _⟩, fun x hx => absurd hx List.not_mem_nil⟩
  | append_singleton calls call ih =>
    obtain ⟨u, hu, hlast⟩ := Transition.run_append.mp hrun
    obtain ⟨v, hv, hnil⟩ := Transition.run_cons.mp hlast
    cases Option.some.inj hnil
    rw [Transition.collect_concat hu] at hnodup
    rw [Transition.collect_concat hu, Transition.collect_concat hu]
    have hbefore := (List.nodup_append'.mp (List.map_append ▸ hnodup)).1
    exact (ih hu hbefore).step hv hnodup

end AuthHistory

end DarkPool
