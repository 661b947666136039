import Mathlib.Data.List.Basic
import DarkPool.Types

namespace DarkPool

inductive IpAddr
  | v4 (bits : BitVec 32)
  | v6 (bits : BitVec 128)
  deriving DecidableEq

structure SocketAddr where
  ip : IpAddr
  port : Nat

structure IpNet where
  addr : IpAddr
  prefixLen : Nat

def IpNet.contains (net : IpNet) (ip : IpAddr) : Bool :=
  match net.addr, ip with
  | .v4 a, .v4 b => a >>> (32 - net.prefixLen) == b >>> (32 - net.prefixLen)
  | .v6 a, .v6 b => a >>> (128 - net.prefixLen) == b >>> (128 - net.prefixLen)
  | _, _ => false

structure TrustedProxies where
  nets : List IpNet

namespace TrustedProxies

def isEmpty (trusted : TrustedProxies) : Bool := trusted.nets.isEmpty

def contains (trusted : TrustedProxies) (ip : IpAddr) : Bool := trusted.nets.any (fun net => net.contains ip)

theorem isEmpty_of_contains {trusted : TrustedProxies} {ip : IpAddr} (h : trusted.contains ip = true) :
    trusted.isEmpty = false := by
  unfold contains at h
  unfold isEmpty
  cases hnets : trusted.nets with
  | nil => simp [hnets] at h
  | cons => rfl

end TrustedProxies

/-- The parsers and the printer of the standard library. -/
structure IpEnv where
  parseIpAddr : Bytes → Option IpAddr
  parseSocketAddr : Bytes → Option SocketAddr
  toString : IpAddr → String

/-- Header names and values, in the order of the request. -/
abbrev HeaderMap := List (String × Bytes)

def HeaderMap.getAll (headers : HeaderMap) (name : String) : List Bytes :=
  headers.filterMap (fun h => if h.1 = name then some h.2 else none)

def HeaderMap.get (headers : HeaderMap) (name : String) : Option Bytes := (headers.getAll name).head?

def isVisibleAscii (b : UInt8) : Bool := (32 ≤ b && b < 127) || b = 9

/-- `HeaderValue::to_str`. -/
def toStr (v : Bytes) : Option Bytes := if v.all isVisibleAscii then some v else none

def isAsciiSpace (b : UInt8) : Bool := b = 32 || (9 ≤ b && b ≤ 13)

def trimAscii (s : Bytes) : Bytes := ((s.dropWhile isAsciiSpace).reverse.dropWhile isAsciiSpace).reverse

def comma : UInt8 := 44

def colon : UInt8 := 58

/-- The part before the last colon. -/
def hostBeforeColon (s : Bytes) : Option Bytes :=
  match s.reverse.dropWhile (fun b => b ≠ colon) with
  | [] => none
  | _ :: host => some host.reverse

def parseForwardedIp (env : IpEnv) (s : Bytes) : Option IpAddr :=
  let s := trimAscii s
  if s = [] then none
  else
    match env.parseIpAddr s with
    | some ip => some ip
    | none =>
      match env.parseSocketAddr s with
      | some sa => some sa.ip
      | none => (hostBeforeColon s).bind env.parseIpAddr

/-- The addresses a line of the header adds to the chain. -/
def forwardedLine (env : IpEnv) (v : Bytes) : List IpAddr :=
  match toStr v with
  | none => []
  | some s => (s.splitOn comma).filterMap (parseForwardedIp env)

def forwardedForClient (env : IpEnv) (trusted : TrustedProxies) (headers : HeaderMap) : Option IpAddr :=
  let chain := (headers.getAll "x-forwarded-for").flatMap (forwardedLine env)
  if chain = [] then none else (chain.reverse.find? (fun ip => !trusted.contains ip)).or chain.head?

def realIp (env : IpEnv) (headers : HeaderMap) : Option IpAddr :=
  ((headers.get "x-real-ip").bind toStr).bind (parseForwardedIp env)

def resolveClientIp (env : IpEnv) (trusted : TrustedProxies) (headers : HeaderMap) (peer : Option SocketAddr) :
    Option IpAddr :=
  match peer with
  | none => none
  | some peer =>
    if trusted.isEmpty ∨ ¬trusted.contains peer.ip then some peer.ip
    else
      match forwardedForClient env trusted headers with
      | some ip => some ip
      | none =>
        match realIp env headers with
        | some ip => some ip
        | none => some peer.ip

/-- The bucket key of the routes without authentication. -/
def ipClientKey (env : IpEnv) (trusted : TrustedProxies) (headers : HeaderMap) (peer : Option SocketAddr) : String :=
  match resolveClientIp env trusted headers peer with
  | some ip => env.toString ip
  | none => "anonymous"

end DarkPool
