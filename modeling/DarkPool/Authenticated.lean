import DarkPool.AuthRuns

namespace DarkPool

/-- The token a request presents. -/
def HeaderMap.bearerToken (headers : HeaderMap) : Option Bytes :=
  ((headers.get "authorization").bind toStr).bind stripBearer

section Checks

variable {core : AuthCore} {headers : HeaderMap} {now : Nat} {a : Address} {sha256 : Bytes → Bytes}

theorem check_of_bearer {token : Bytes} (h : headers.bearerToken = some token) :
    core.check sha256 headers now = core.checkBearer token now := by
  obtain ⟨s, hs, hstrip⟩ := Option.bind_eq_some_iff.mp h
  obtain ⟨v, hv, hstr⟩ := Option.bind_eq_some_iff.mp hs
  simp only [AuthCore.check, hv, hstr, hstrip]

theorem JwtManager.verify_eq_ok {jwt : JwtManager} {token : Bytes} {claims : Claims} :
    jwt.verify token now = .ok claims ↔
      jwt.env.decode token = .ok claims ∧ now ≤ claims.exp + jwtLeeway ∧ claims.iss = jwtIssuer ∧
        claims.aud = jwtIssuer := by
  unfold JwtManager.verify
  cases jwt.env.decode token with
  | error e => simp [mapErr, bind, Except.bind]
  | ok found =>
    have hexp : found.exp < now - jwtLeeway ↔ ¬ now ≤ found.exp + jwtLeeway := by omega
    simp only [mapErr, bind, Except.bind, hexp, ite_not, throw, throwThe, MonadExceptOf.throw, pure, Except.pure,
      Except.ok.injEq]
    constructor
    · intro h
      split at h
      next htime =>
        split at h
        next hiss =>
          split at h
          next haud =>
            cases Except.ok.inj h
            exact ⟨rfl, htime, hiss, haud⟩
          next => cases h
        next => cases h
      next => cases h
    · rintro ⟨rfl, htime, hiss, haud⟩
      rw [if_pos htime, if_pos hiss, if_pos haud]

theorem checkBearer_eq_wallet {token : Bytes} {jwt : JwtManager} (hjwt : core.jwt = some jwt) :
    core.checkBearer token now = .ok (.wallet a) ↔
      ∃ claims, jwt.verify token now = .ok claims ∧ parseAddress claims.sub = some a := by
  simp only [AuthCore.checkBearer, hjwt, bind_eq_ok, mapErr_eq_ok]
  constructor
  · rintro ⟨claims, hclaims, h⟩
    unfold JwtManager.addressFromClaims at h
    split at h
    next address haddress =>
      cases Except.ok.inj h
      exact ⟨claims, hclaims, haddress⟩
    next => cases h
  · rintro ⟨claims, hclaims, haddress⟩
    exact ⟨claims, hclaims, by simp only [JwtManager.addressFromClaims, haddress]⟩

theorem parseAddress_formatAddress (a : Address) : parseAddress (formatAddress a) = some a := by
  have hlt : a.toNat < 16 ^ 40 := a.isLt
  simp [parseAddress, formatAddress, Radix.ofHex_toHex 40 a.toNat hlt]

/-- Claims the server made name the address they were made for, until they expire. -/
theorem checkBearer_claimsFor {jwt : JwtManager} {token : Bytes} {unix : Nat} (hjwt : core.jwt = some jwt)
    (hdecode : jwt.env.decode token = .ok (jwt.claimsFor a unix)) :
    core.checkBearer token now =
      if now ≤ unix + jwt.ttlSecs + jwtLeeway then .ok (.wallet a) else .error (.invalidToken .expiredSignature) := by
  split
  next htime =>
    exact (checkBearer_eq_wallet hjwt).mpr ⟨_, JwtManager.verify_eq_ok.mpr ⟨hdecode, htime, rfl, rfl⟩,
      parseAddress_formatAddress a⟩
  next htime =>
    have hexpired : (jwt.claimsFor a unix).exp < now - jwtLeeway := by
      simp only [JwtManager.claimsFor]
      omega
    simp [AuthCore.checkBearer, hjwt, JwtManager.verify, hdecode, mapErr, bind, Except.bind, hexpired, throw, throwThe,
      MonadExceptOf.throw]

end Checks

/-- The token of a login makes every request that carries it one of the wallet that signed, until it expires. -/
theorem session_authenticates {state : SiweState} {inner : NonceInner} {body : VerifyRequest} {t : SiweState.Clocks}
    {response : VerifyResponse} {core : AuthCore} {headers : HeaderMap} (sha256 : Bytes → Bytes)
    (hlogin : (state.restAuthVerify inner body t).1 = .ok response)
    (hdecode : ∀ claims, state.jwt.env.encode claims = .ok response.token →
      state.jwt.env.decode response.token = .ok claims)
    (hjwt : core.jwt = some state.jwt) (htoken : headers.bearerToken = some response.token) :
    ∃ login message, checkSiweMessage state.env login t.now = .ok message ∧ login.messageStr = body.message ∧
      response.address = formatAddress message.address ∧
      ∀ now, core.check sha256 headers now =
        if now ≤ response.expiresAt + 60 then .ok (.wallet message.address)
        else .error (.invalidToken .expiredSignature) := by
  obtain ⟨sig, address, -, hverified, hencode, hexpires, haddress⟩ := restAuthVerify_ok hlogin
  obtain ⟨message, hcheck, rfl⟩ := verifySiweMessage_ok hverified
  refine ⟨state.login body sig, message, hcheck, rfl, haddress, fun now => ?_⟩
  rw [check_of_bearer htoken, checkBearer_claimsFor hjwt (hdecode _ hencode), hexpires]
  rfl

namespace Scenario

def signatureHex : String := String.ofList (List.replicate 130 '0')

def jwtClaims : Claims := ⟨formatAddress 7, "darkpool", "darkpool", 5, 65⟩

def jwtManager : JwtManager :=
  ⟨⟨fun claims => if claims = jwtClaims then .ok [49] else .error "", fun _ => .ok jwtClaims, fun _ => ""⟩, 60⟩

def siweState : SiweState := ⟨siweEnv, jwtManager, 300, some 1, some "darkpool"⟩

def bearerHeaders : HeaderMap := [("authorization", bearer ++ [49])]

def authCore : AuthCore := AuthCore.newWithJwt id [[1]] jwtManager

theorem bearerToken_bearerHeaders : bearerHeaders.bearerToken = some [49] := by decide

end Scenario

open Scenario in
theorem session_authenticates_seven :
    ∃ response : VerifyResponse, response.token = [49] ∧ ∃ message : SiweMessage,
      ∀ now, authCore.check id bearerHeaders now =
        if now ≤ response.expiresAt + 60 then .ok (.wallet message.address)
        else .error (.invalidToken .expiredSignature) := by
  have hok : ((siweState.restAuthVerify (NonceInner.empty.generateFor "ip" "n" 0).2 ⟨"", signatureHex⟩
      ⟨0, 2, 5⟩).1.toOption.any (fun response => decide (response.token = [49]))) = true := by
    decide +kernel
  obtain ⟨response, hresponse, htoken⟩ := (Option.any_eq_true _ _).mp hok
  have hlogin : (siweState.restAuthVerify (NonceInner.empty.generateFor "ip" "n" 0).2 ⟨"", signatureHex⟩
      ⟨0, 2, 5⟩).1 = .ok response := by
    revert hresponse
    cases (siweState.restAuthVerify (NonceInner.empty.generateFor "ip" "n" 0).2 ⟨"", signatureHex⟩ ⟨0, 2, 5⟩).1 with
    | error e => exact fun h => nomatch h
    | ok found => exact fun h => congrArg Except.ok (Option.some.inj h)
  have hdecode : ∀ claims, jwtManager.env.encode claims = .ok response.token →
      jwtManager.env.decode response.token = .ok claims := by
    intro claims hencode
    simp only [jwtManager] at hencode ⊢
    split at hencode
    next heq => rw [heq]
    next => cases hencode
  have hcarried : bearerHeaders.bearerToken = some response.token :=
    of_decide_eq_true htoken ▸ bearerToken_bearerHeaders
  have hjwt : authCore.jwt = some siweState.jwt := rfl
  obtain ⟨-, message, -, -, -, hcheck⟩ := session_authenticates id hlogin hdecode hjwt hcarried
  exact ⟨response, of_decide_eq_true htoken, message, hcheck⟩

end DarkPool
