import DarkPool.ClientIp

namespace DarkPool

/-- A forwarding header behind proxies that append: lines of the client, then the line in which the outermost proxy
has written the client's address, behind what the client has put there itself or in a line of its own, with the hops
added to that line, and the hops added in lines of their own. -/
structure Forwarding where
  earlier : List Bytes
  inline : Option Bytes
  client : Bytes
  hops : List Bytes
  later : List (List Bytes)

namespace Forwarding

def joinTokens (tokens : List Bytes) : Bytes := [comma].intercalate tokens

def line (f : Forwarding) : Bytes :=
  match f.inline with
  | none => joinTokens (f.client :: f.hops)
  | some chosen => chosen ++ comma :: joinTokens (f.client :: f.hops)

def lines (f : Forwarding) : List Bytes := f.earlier ++ f.line :: f.later.map joinTokens

end Forwarding

/-- What a proxy writes for an address. -/
structure IsToken (env : IpEnv) (token : Bytes) (ip : IpAddr) : Prop where
  visible : token.all isVisibleAscii = true
  single : comma ∉ token
  parses : parseForwardedIp env token = some ip

/-- The proxies have appended the client's address and trusted hops. -/
structure Forwarding.Appended (env : IpEnv) (trusted : TrustedProxies) (c : IpAddr) (f : Forwarding) : Prop where
  client : IsToken env f.client c
  hops : ∀ token ∈ f.hops, ∃ ip, IsToken env token ip ∧ trusted.contains ip = true
  later : ∀ l ∈ f.later, ∀ token ∈ l, ∃ ip, IsToken env token ip ∧ trusted.contains ip = true

theorem parseForwardedIp_nil (env : IpEnv) : parseForwardedIp env [] = none := by
  simp [parseForwardedIp, trimAscii]

theorem splitOn_joinTokens (env : IpEnv) {tokens : List Bytes} (h : ∀ token ∈ tokens, comma ∉ token) :
    ((Forwarding.joinTokens tokens).splitOn comma).filterMap (parseForwardedIp env) =
      tokens.filterMap (parseForwardedIp env) := by
  cases tokens with
  | nil => simp [Forwarding.joinTokens, List.intercalate, parseForwardedIp_nil]
  | cons token tokens => rw [Forwarding.joinTokens, List.splitOn_intercalate comma h (List.cons_ne_nil _ _)]

theorem joinTokens_visible {tokens : List Bytes} (h : ∀ token ∈ tokens, token.all isVisibleAscii = true) :
    (Forwarding.joinTokens tokens).all isVisibleAscii = true := by
  unfold Forwarding.joinTokens
  induction tokens with
  | nil => rfl
  | cons token tokens ih =>
    have hfirst := h token List.mem_cons_self
    have hrest := ih (fun t ht => h t (List.mem_cons_of_mem token ht))
    cases tokens with
    | nil => simpa [List.intercalate] using hfirst
    | cons next tokens =>
      rw [List.intercalate_cons_cons, List.all_append, List.all_append, hfirst, hrest]
      rfl

/-- A line the proxies wrote alone. -/
theorem forwardedLine_joinTokens (env : IpEnv) {tokens : List Bytes}
    (hvisible : ∀ token ∈ tokens, token.all isVisibleAscii = true) (hsingle : ∀ token ∈ tokens, comma ∉ token) :
    forwardedLine env (Forwarding.joinTokens tokens) = tokens.filterMap (parseForwardedIp env) := by
  rw [forwardedLine, toStr, if_pos (joinTokens_visible hvisible)]
  exact splitOn_joinTokens env hsingle

namespace Forwarding

section

variable {env : IpEnv} {trusted : TrustedProxies} {c : IpAddr} {f : Forwarding}

/-- The hops of a list of tokens are trusted. -/
theorem trusted_of_tokens {tokens : List Bytes}
    (h : ∀ token ∈ tokens, ∃ ip, IsToken env token ip ∧ trusted.contains ip = true) :
    ∀ ip ∈ tokens.filterMap (parseForwardedIp env), trusted.contains ip = true := by
  intro ip hip
  obtain ⟨token, htoken, hparse⟩ := List.mem_filterMap.mp hip
  obtain ⟨ip', hip', htrusted⟩ := h token htoken
  rw [hip'.parses] at hparse
  exact Option.some.inj hparse ▸ htrusted

namespace Appended

theorem visible (h : f.Appended env trusted c) : ∀ token ∈ f.client :: f.hops, token.all isVisibleAscii = true := by
  intro token htoken
  rcases List.mem_cons.mp htoken with rfl | htoken
  · exact h.client.visible
  · obtain ⟨ip, hip, -⟩ := h.hops token htoken
    exact hip.visible

theorem single (h : f.Appended env trusted c) : ∀ token ∈ f.client :: f.hops, comma ∉ token := by
  intro token htoken
  rcases List.mem_cons.mp htoken with rfl | htoken
  · exact h.client.single
  · obtain ⟨ip, hip, -⟩ := h.hops token htoken
    exact hip.single

/-- The line with the client's address, where it can be decoded. -/
theorem forwardedLine_visible (h : f.Appended env trusted c)
    (hinline : ∀ chosen, f.inline = some chosen → chosen.all isVisibleAscii = true) :
    ∃ forged, forwardedLine env f.line = forged ++ c :: f.hops.filterMap (parseForwardedIp env) := by
  have hclient : (f.client :: f.hops).filterMap (parseForwardedIp env) =
      c :: f.hops.filterMap (parseForwardedIp env) := List.filterMap_cons_some h.client.parses
  unfold Forwarding.line
  split
  next => exact ⟨[], by rw [forwardedLine_joinTokens env h.visible h.single, hclient, List.nil_append]⟩
  next chosen hchosen =>
    refine ⟨(chosen.splitOn comma).filterMap (parseForwardedIp env), ?_⟩
    have hvisible : (chosen ++ comma :: joinTokens (f.client :: f.hops)).all isVisibleAscii = true := by
      rw [List.all_append, hinline chosen hchosen, List.all_cons, joinTokens_visible h.visible]
      rfl
    rw [forwardedLine, toStr, if_pos hvisible]
    simp only
    rw [List.splitOn_append_cons_self, List.filterMap_append, splitOn_joinTokens env h.single, hclient]

theorem forwardedLine_hidden {chosen : Bytes} (hchosen : f.inline = some chosen)
    (hhidden : chosen.all isVisibleAscii = false) : forwardedLine env f.line = [] := by
  simp [forwardedLine, toStr, Forwarding.line, hchosen, List.all_append, hhidden]

/-- The lines of the hops add trusted addresses only. -/
theorem later_trusted (h : f.Appended env trusted c) :
    ∀ ip ∈ (f.later.map joinTokens).flatMap (forwardedLine env), trusted.contains ip = true := by
  intro ip hip
  rw [List.flatMap_map] at hip
  obtain ⟨l, hl, hip⟩ := List.mem_flatMap.mp hip
  have htokens := h.later l hl
  rw [forwardedLine_joinTokens env (fun t ht => (htokens t ht).elim (fun _ h => h.1.visible))
    (fun t ht => (htokens t ht).elim (fun _ h => h.1.single))] at hip
  exact trusted_of_tokens htokens ip hip

end Appended

end

end Forwarding

/-- The search from the right stops at the address behind which all are trusted. -/
theorem find?_untrusted {trusted : TrustedProxies} {c : IpAddr} (hc : trusted.contains c = false)
    (front back : List IpAddr) (hback : ∀ ip ∈ back, trusted.contains ip = true) :
    (front ++ c :: back).reverse.find? (fun ip => !trusted.contains ip) = some c := by
  have hnone : back.reverse.find? (fun ip => !trusted.contains ip) = none := by
    rw [List.find?_eq_none]
    intro ip hip
    simp [hback ip (List.mem_reverse.mp hip)]
  rw [List.reverse_append, List.reverse_cons, List.append_assoc, List.find?_append, hnone]
  simp [hc]

section

variable {env : IpEnv} {trusted : TrustedProxies} {c : IpAddr} {f : Forwarding} {headers : HeaderMap}
  {peer : SocketAddr}

theorem resolveClientIp_trusted (hpeer : trusted.contains peer.ip = true) :
    resolveClientIp env trusted headers (some peer) =
      some (((forwardedForClient env trusted headers).or (realIp env headers)).getD peer.ip) := by
  simp only [resolveClientIp, TrustedProxies.isEmpty_of_contains hpeer, hpeer, Bool.false_eq_true, not_true_eq_false,
    or_self, if_false]
  cases forwardedForClient env trusted headers with
  | some ip => rfl
  | none =>
    cases realIp env headers with
    | some ip => rfl
    | none => rfl

/-- The appended address is found, whatever stands before it. -/
theorem resolveClientIp_of_visible (hpeer : trusted.contains peer.ip = true) (hc : trusted.contains c = false)
    (happ : f.Appended env trusted c) (hlines : headers.getAll "x-forwarded-for" = f.lines)
    (hinline : ∀ chosen, f.inline = some chosen → chosen.all isVisibleAscii = true) :
    resolveClientIp env trusted headers (some peer) = some c := by
  obtain ⟨forged, hline⟩ := happ.forwardedLine_visible hinline
  have hchain : f.lines.flatMap (forwardedLine env) = (f.earlier.flatMap (forwardedLine env) ++ forged) ++
      c :: (f.hops.filterMap (parseForwardedIp env) ++
        (f.later.map Forwarding.joinTokens).flatMap (forwardedLine env)) := by
    rw [Forwarding.lines, List.flatMap_append, List.flatMap_cons, hline]
    simp only [List.append_assoc, List.cons_append]
  have hback : ∀ ip ∈ f.hops.filterMap (parseForwardedIp env) ++
      (f.later.map Forwarding.joinTokens).flatMap (forwardedLine env), trusted.contains ip = true := by
    intro ip hip
    rcases List.mem_append.mp hip with hip | hip
    · exact Forwarding.trusted_of_tokens happ.hops ip hip
    · exact happ.later_trusted ip hip
  have hfound : forwardedForClient env trusted headers = some c := by
    simp only [forwardedForClient, hlines, hchain, find?_untrusted hc _ _ hback]
    simp
  rw [resolveClientIp_trusted hpeer, hfound]
  rfl

/-- Where the line cannot be decoded, a request with no other header resolves to one of the proxies. -/
theorem resolveClientIp_of_hidden (hpeer : trusted.contains peer.ip = true) (happ : f.Appended env trusted c)
    {chosen : Bytes} (hchosen : f.inline = some chosen) (hhidden : chosen.all isVisibleAscii = false)
    (hearlier : f.earlier = []) (hlines : headers.getAll "x-forwarded-for" = f.lines)
    (hreal : headers.getAll "x-real-ip" = []) :
    ∃ ip, resolveClientIp env trusted headers (some peer) = some ip ∧ trusted.contains ip = true := by
  have hchain : f.lines.flatMap (forwardedLine env) =
      (f.later.map Forwarding.joinTokens).flatMap (forwardedLine env) := by
    rw [Forwarding.lines, hearlier, List.nil_append, List.flatMap_cons,
      Forwarding.Appended.forwardedLine_hidden hchosen hhidden, List.nil_append]
  have hnoreal : realIp env headers = none := by simp [realIp, HeaderMap.get, hreal]
  rw [resolveClientIp_trusted hpeer, hnoreal, Option.or_none]
  refine ⟨_, rfl, ?_⟩
  cases hclient : forwardedForClient env trusted headers with
  | none => exact hpeer
  | some ip =>
    have hmem : ip ∈ (f.later.map Forwarding.joinTokens).flatMap (forwardedLine env) := by
      simp only [forwardedForClient, hlines, hchain] at hclient
      split at hclient
      next => simp at hclient
      next =>
        rcases Option.or_eq_some_iff.mp hclient with hfind | ⟨-, hhead⟩
        · exact List.mem_reverse.mp (List.mem_of_find?_eq_some hfind)
        · exact List.mem_of_head? hhead
    exact happ.later_trusted ip hmem

end

/-- Behind proxies that append, the client cannot choose its bucket exactly where the line its address is appended to
can be decoded: what it sends there is visible ASCII. -/
theorem resolveClientIp_unforgeable_iff (env : IpEnv) (trusted : TrustedProxies) (peer : SocketAddr) (c : IpAddr)
    (f : Forwarding) (hpeer : trusted.contains peer.ip = true) (hc : trusted.contains c = false)
    (happ : f.Appended env trusted c) :
    (∀ (earlier : List Bytes) (headers : HeaderMap),
      headers.getAll "x-forwarded-for" = { f with earlier := earlier }.lines →
      resolveClientIp env trusted headers (some peer) = some c ∧
        ipClientKey env trusted headers (some peer) = env.toString c) ↔
      ∀ chosen, f.inline = some chosen → chosen.all isVisibleAscii = true := by
  constructor
  · intro h chosen hchosen
    by_contra hhidden
    let bare : Forwarding := { f with earlier := [] }
    let headers : HeaderMap := bare.lines.map (fun v => ("x-forwarded-for", v))
    have hlines : headers.getAll "x-forwarded-for" = bare.lines := by
      simp [headers, HeaderMap.getAll, List.filterMap_map]
    have hreal : headers.getAll "x-real-ip" = [] := by
      simp [headers, HeaderMap.getAll, List.filterMap_map]
    obtain ⟨ip, hip, htrusted⟩ := resolveClientIp_of_hidden (f := bare) hpeer
      ⟨happ.client, happ.hops, happ.later⟩ hchosen (Bool.eq_false_iff.mpr hhidden) rfl hlines hreal
    obtain rfl : ip = c := Option.some.inj (hip.symm.trans (h [] headers hlines).1)
    rw [hc] at htrusted
    exact absurd htrusted (by simp)
  · intro hinline earlier headers hlines
    have hresolved := resolveClientIp_of_visible (f := { f with earlier := earlier }) hpeer hc
      ⟨happ.client, happ.hops, happ.later⟩ hlines hinline
    refine ⟨hresolved, ?_⟩
    rw [ipClientKey, hresolved]

namespace Scenario

/-- The text `1.2.3.4`. -/
def clientText : Bytes := [49, 46, 50, 46, 51, 46, 52]

/-- The text `9.9.9.9`. -/
def forgedText : Bytes := [57, 46, 57, 46, 57, 46, 57]

def ipEnv : IpEnv where
  parseIpAddr s := if s = clientText then some (.v4 0x01020304) else if s = forgedText then some (.v4 0x09090909) else none
  parseSocketAddr _ := none
  toString _ := ""

/-- `10.0.0.0/8`. -/
def proxies : TrustedProxies := ⟨[⟨.v4 0x0a000000, 8⟩]⟩

def proxy : SocketAddr := ⟨.v4 0x0a000001, 443⟩

/-- What the client sends in the header, with its address appended, and what it sends as its real address. -/
def forwarded (chosen : Bytes) : HeaderMap :=
  [("x-forwarded-for", chosen ++ comma :: clientText), ("x-real-ip", forgedText)]

end Scenario

open Scenario in
/-- One byte beyond ASCII hides the appended address, and the key is what the client says it is. -/
theorem resolveClientIp_forged :
    resolveClientIp ipEnv proxies (forwarded [120]) (some proxy) = some (.v4 0x01020304) ∧
      resolveClientIp ipEnv proxies (forwarded [255]) (some proxy) = some (.v4 0x09090909) := by decide

open Scenario in
theorem resolveClientIp_unforgeable_iff_visible :
    resolveClientIp ipEnv proxies (forwarded [120]) (some proxy) = some (.v4 0x01020304) :=
  ((resolveClientIp_unforgeable_iff ipEnv proxies proxy (.v4 0x01020304) ⟨[], some [120], clientText, [], []⟩
    (by decide) (by decide) ⟨⟨by decide, by decide, by decide⟩, by simp, by simp⟩).mpr
      (by rintro chosen h; cases h; decide) [] (forwarded [120]) (by decide)).1

end DarkPool
