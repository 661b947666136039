import DarkPool.Error
import DarkPool.Lib.Table

namespace DarkPool

def maxNonces : Nat := 10000

/-- Ceiling on the outstanding nonces of one source address. -/
def maxNoncesPerIp : Nat := 128

/-- Times are counted in nanoseconds. -/
structure NonceEntry where
  created : Int
  owner : String
  deriving DecidableEq

structure NonceInner where
  nonces : Table String NonceEntry
  perIp : Table String Nat

/-- Drops the entry at zero. No stored count is zero, so the subtraction never underflows. -/
def decrementOwner (perIp : Table String Nat) (owner : String) : Table String Nat :=
  match perIp.lookup owner with
  | some count => if count - 1 = 0 then perIp.erase owner else perIp.insert owner (count - 1)
  | none => perIp

namespace NonceInner

def empty : NonceInner := ⟨∅, ∅⟩

/-- `nonce` is what `siwe::generate_nonce` draws. -/
def generateFor (inner : NonceInner) (clientKey nonce : String) (now : Int) : Option String × NonceInner :=
  if maxNonces ≤ inner.nonces.entries.length then (none, inner)
  else if maxNoncesPerIp ≤ (inner.perIp.lookup clientKey).getD 0 then (none, inner)
  else (some nonce,
    ⟨inner.nonces.insert nonce ⟨now, clientKey⟩,
      inner.perIp.insert clientKey ((inner.perIp.lookup clientKey).getD 0 + 1)⟩)

def consume (ttl : Nat) (inner : NonceInner) (nonce : String) (now : Int) : Bool × NonceInner :=
  match inner.nonces.lookup nonce with
  | some entry =>
    (decide (now - entry.created ≤ ttl), ⟨inner.nonces.erase nonce, decrementOwner inner.perIp entry.owner⟩)
  | none => (false, inner)

/-- The test of the `retain` closure. -/
def keeps (ttl : Nat) (now : Int) (entry : NonceEntry) : Bool := decide (now - entry.created ≤ ttl)

/-- `retain` visits the nonces one by one; the closure credits the owners of those it drops. -/
def evictStale (ttl : Nat) (inner : NonceInner) (now : Int) : NonceInner where
  nonces := inner.nonces.retain (fun _ entry => keeps ttl now entry)
  perIp := inner.nonces.values.foldl
    (fun perIp entry => if keeps ttl now entry then perIp else decrementOwner perIp entry.owner) inner.perIp

end NonceInner

/-- The fields of a message that the server reads. -/
structure SiweMessage where
  domain : String
  address : Address
  chainId : Nat
  nonce : String
  issuedAt : Int
  expirationTime : Option Int
  notBefore : Option Int

inductive SiweError
  | parse (msg : String)
  | nonceInvalid
  | expired
  | expirationRequired
  | expiryTooFar
  | notYetValid
  | issuedInFuture
  | domainMismatch (expected got : String)
  | chainMismatch (expected got : Nat)
  | verification (msg : String)
  deriving DecidableEq

/-- The parser and the signature check of the message format. -/
structure SiweEnv where
  parse : String → Except String SiweMessage
  verifyEip191 : SiweMessage → Bytes → Except String Unit

def second : Int := 1000000000

def nonceTtlSecs : Nat := 300

def issuedAtLeeway : Int := 120 * second

def maxExpiryWindow : Int := 2 * nonceTtlSecs * second

/-- What a client presents, and what the server expects of it. -/
structure SiweLogin where
  messageStr : String
  signature : Bytes
  expectedChainId : Option Nat
  expectedDomain : Option String

/-- The checks of domain, chain, times and signature. -/
def checkSiweFields (env : SiweEnv) (login : SiweLogin) (now : Int) (message : SiweMessage) : Except SiweError Unit := do
  match login.expectedDomain with
  | some domain => if message.domain ≠ domain then throw (.domainMismatch domain message.domain)
  | none => pure ()
  match login.expectedChainId with
  | some expected => if message.chainId ≠ expected then throw (.chainMismatch expected message.chainId)
  | none => pure ()
  if message.issuedAt > now + issuedAtLeeway then throw .issuedInFuture
  match message.expirationTime with
  | none => throw .expirationRequired
  | some exp =>
    if exp < now then throw .expired
    if exp > now + maxExpiryWindow then throw .expiryTooFar
  match message.notBefore with
  | some nbf => if nbf > now then throw .notYetValid
  | none => pure ()
  mapErr SiweError.verification (env.verifyEip191 message login.signature)

/-- Everything `verify_siwe_message` does before it turns to the nonce. -/
def checkSiweMessage (env : SiweEnv) (login : SiweLogin) (now : Int) : Except SiweError SiweMessage := do
  let message ← mapErr SiweError.parse (env.parse login.messageStr)
  checkSiweFields env login now message
  return message

/-- `now` is the time of day, `instant` the reading of the monotonic clock under the lock. -/
def verifySiweMessage (env : SiweEnv) (ttl : Nat) (inner : NonceInner) (login : SiweLogin) (now instant : Int) :
    Except SiweError Address × NonceInner :=
  match checkSiweMessage env login now with
  | .error e => (.error e, inner)
  | .ok message =>
    let (fresh, inner) := inner.consume ttl message.nonce instant
    if fresh then (.ok message.address, inner) else (.error .nonceInvalid, inner)

theorem checkSiweMessage_parse {env : SiweEnv} {login : SiweLogin} {now : Int} {message : SiweMessage}
    (h : checkSiweMessage env login now = .ok message) : env.parse login.messageStr = .ok message := by
  obtain ⟨parsed, hparsed, h⟩ := bind_eq_ok.mp h
  obtain ⟨-, -, h⟩ := bind_eq_ok.mp h
  cases Except.ok.inj h
  exact mapErr_eq_ok.mp hparsed

end DarkPool
