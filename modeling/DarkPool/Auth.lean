import DarkPool.ClientIp
import DarkPool.NonceRuns
import DarkPool.Recover

namespace DarkPool

def jwtIssuer : String := "darkpool"

structure Claims where
  sub : String
  iss : String
  aud : String
  iat : Nat
  exp : Nat
  deriving DecidableEq

inductive JwtError
  | malformed (msg : String)
  | expiredSignature
  | invalidIssuer
  | invalidAudience

/-- The token format: `encode` signs, `decode` checks the signature and reads the claims. -/
structure JwtEnv where
  encode : Claims → Except String Bytes
  decode : Bytes → Except String Claims
  showError : JwtError → String

structure JwtManager where
  env : JwtEnv
  ttlSecs : Nat

/-- The leeway `Validation::new` grants to `exp`. -/
def jwtLeeway : Nat := 60

namespace JwtManager

def claimsFor (jwt : JwtManager) (address : Address) (now : Nat) : Claims where
  sub := formatAddress address
  iss := jwtIssuer
  aud := jwtIssuer
  iat := now
  exp := now + jwt.ttlSecs

/-- `now` is in whole seconds since the epoch. -/
def issue (jwt : JwtManager) (address : Address) (now : Nat) : Except String (Bytes × Nat) := do
  let token ← jwt.env.encode (jwt.claimsFor address now)
  return (token, (jwt.claimsFor address now).exp)

def verify (jwt : JwtManager) (token : Bytes) (now : Nat) : Except JwtError Claims := do
  let claims ← mapErr JwtError.malformed (jwt.env.decode token)
  if claims.exp < now - jwtLeeway then throw .expiredSignature
  if claims.iss ≠ jwtIssuer then throw .invalidIssuer
  if claims.aud ≠ jwtIssuer then throw .invalidAudience
  return claims

def addressFromClaims (claims : Claims) : Option Address := parseAddress claims.sub

end JwtManager

inductive AuthenticatedIdentity
  | apiKey
  | wallet (address : Address)
  deriving DecidableEq

/-- The statuses of `check`; all of them are `unauthenticated`. -/
inductive AuthError
  | invalidAuthorizationHeader
  | bearerNotEnabled
  | invalidToken (e : JwtError)
  | invalidAddress
  | missingApiKey
  | invalidApiKey

def AuthError.message (env : JwtEnv) : AuthError → String
  | invalidAuthorizationHeader => "invalid authorization header"
  | bearerNotEnabled => "bearer authentication not enabled"
  | invalidToken e => "invalid token: " ++ env.showError e
  | invalidAddress => "invalid address in token"
  | missingApiKey => "missing api key"
  | invalidApiKey => "invalid api key"

structure AuthCore where
  authDisabled : Bool
  keyDigests : List Bytes
  jwt : Option JwtManager

/-- The bytes of "Bearer ". -/
def bearer : Bytes := [66, 101, 97, 114, 101, 114, 32]

/-- `strip_prefix`. -/
def stripBearer (s : Bytes) : Option Bytes := if bearer <+: s then some (s.drop bearer.length) else none

namespace AuthCore

def digestKeys (sha256 : Bytes → Bytes) (keys : List Bytes) : List Bytes :=
  (keys.filter (fun k => !k.isEmpty)).map sha256

def newWithJwt (sha256 : Bytes → Bytes) (keys : List Bytes) (jwt : JwtManager) : AuthCore :=
  ⟨keys.isEmpty, digestKeys sha256 keys, some jwt⟩

/-- Every digest is compared; none ends the loop. -/
def verifyKey (sha256 : Bytes → Bytes) (core : AuthCore) (key : Bytes) : Bool :=
  core.keyDigests.foldl (fun matched digest => matched || sha256 key == digest) false

def checkBearer (core : AuthCore) (token : Bytes) (now : Nat) : Except AuthError AuthenticatedIdentity :=
  match core.jwt with
  | none => .error .bearerNotEnabled
  | some jwt => do
    let claims ← mapErr AuthError.invalidToken (jwt.verify token now)
    match JwtManager.addressFromClaims claims with
    | some address => .ok (.wallet address)
    | none => .error .invalidAddress

def checkApiKey (sha256 : Bytes → Bytes) (core : AuthCore) (headers : HeaderMap) :
    Except AuthError AuthenticatedIdentity :=
  if core.authDisabled then .ok .apiKey
  else
    match headers.get "x-api-key" with
    | none => .error .missingApiKey
    | some v =>
      match toStr v with
      | none => .error .invalidApiKey
      | some key =>
        if key.isEmpty then .error .missingApiKey
        else if core.verifyKey sha256 key then .ok .apiKey
        else .error .invalidApiKey

def check (sha256 : Bytes → Bytes) (core : AuthCore) (headers : HeaderMap) (now : Nat) :
    Except AuthError AuthenticatedIdentity :=
  match headers.get "authorization" with
  | none => core.checkApiKey sha256 headers
  | some v =>
    match toStr v with
    | none => .error .invalidAuthorizationHeader
    | some s =>
      match stripBearer s with
      | some token => core.checkBearer token now
      | none => core.checkApiKey sha256 headers

end AuthCore

structure VerifyRequest where
  message : String
  signature : String

structure VerifyResponse where
  token : Bytes
  expiresAt : Nat
  address : String

/-- The statuses of the login route, each with what its message reports. -/
inductive LoginError
  | invalidSignatureHex
  | signatureLength
  | unauthenticated (e : SiweError)
  | jwtIssue (msg : String)

/-- What the login routes share. -/
structure SiweState where
  env : SiweEnv
  jwt : JwtManager
  nonceTtl : Nat
  chainId : Option Nat
  expectedDomain : Option String

/-- `strip_prefix("0x")`, or the text as it is. -/
def without0x : List Char → List Char
  | '0' :: 'x' :: cs => cs
  | cs => cs

namespace SiweState

/-- The 65 bytes of the signature. -/
def readSignature (body : VerifyRequest) : Except LoginError Bytes :=
  match hexDecode (without0x body.signature.toList) with
  | none => .error .invalidSignatureHex
  | some sig => if sig.length = 65 then .ok sig else .error .signatureLength

def login (state : SiweState) (body : VerifyRequest) (sig : Bytes) : SiweLogin :=
  ⟨body.message, sig, state.chainId, state.expectedDomain⟩

/-- The three clocks: the time of day, the reading under the lock of the store, and the second the token is issued. -/
structure Clocks where
  now : Int
  instant : Int
  unix : Nat

def restAuthVerify (state : SiweState) (inner : NonceInner) (body : VerifyRequest) (t : Clocks) :
    Except LoginError VerifyResponse × NonceInner :=
  match readSignature body with
  | .error e => (.error e, inner)
  | .ok sig =>
    let (verified, inner) := verifySiweMessage state.env state.nonceTtl inner (state.login body sig) t.now t.instant
    match verified with
    | .error e => (.error (.unauthenticated e), inner)
    | .ok address =>
      match state.jwt.issue address t.unix with
      | .error msg => (.error (.jwtIssue msg), inner)
      | .ok (token, expiresAt) => (.ok ⟨token, expiresAt, formatAddress address⟩, inner)

end SiweState

end DarkPool
