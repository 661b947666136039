import DarkPool.Lib.Radix
import DarkPool.Types

namespace DarkPool

def commitmentCircuitVersion : String := "v3-poseidon-commitment-nullifier"

/-- "DPCMTKEY". -/
def keyEnvelopeMagic : Bytes := [68, 80, 67, 77, 84, 75, 69, 89]

/-- `str::from_utf8`. -/
def fromUtf8 (b : Bytes) : Option String := String.fromUTF8? ⟨b.toArray⟩

/-- `str::as_bytes`. -/
def asBytes (s : String) : Bytes := s.toUTF8.data.toList

theorem fromUtf8_eq_some {b : Bytes} {s : String} : fromUtf8 b = some s ↔ b = asBytes s := by
  unfold fromUtf8 asBytes String.fromUTF8?
  constructor
  · intro h
    split at h
    next => rw [← Option.some.inj h]; rfl
    next => cases h
  · rintro rfl
    exact dif_pos s.isValidUTF8

/-- `u32::to_le_bytes`. -/
def toLeBytes32 (n : Nat) : Bytes := (Radix.toBytes 4 n).reverse

/-- `u32::from_le_bytes`. -/
def ofLeBytes (b : Bytes) : Nat := Radix.ofBytes b.reverse

inductive KeyBlobError
  | serialize (msg : String)
  | setup (msg : String)
  deriving DecidableEq

def wrapKeyEnvelope (body : Bytes) : Bytes :=
  keyEnvelopeMagic ++ toLeBytes32 (asBytes commitmentCircuitVersion).length ++ asBytes commitmentCircuitVersion ++ body

def unwrapKeyEnvelope (bytes : Bytes) : Except KeyBlobError Bytes :=
  let header := keyEnvelopeMagic.length + 4
  if bytes.length < header ∨ bytes.take keyEnvelopeMagic.length ≠ keyEnvelopeMagic then
    .error (.serialize ("commitment key blob: missing or invalid envelope magic (regenerate via " ++
      "`dp-zk-cli setup-commitment-circuit`)"))
  else
    let verLen := ofLeBytes ((bytes.drop keyEnvelopeMagic.length).take 4)
    let verEnd := header + verLen
    if bytes.length < verEnd then .error (.serialize "commitment key blob: truncated version field")
    else
      match fromUtf8 ((bytes.drop header).take verLen) with
      | none => .error (.serialize "commitment key blob: non-utf8 version")
      | some ver =>
        if ver ≠ commitmentCircuitVersion then
          .error (.setup ("commitment key version mismatch: expected " ++ commitmentCircuitVersion ++ ", found " ++
            ver ++ " (regenerate keys via `dp-zk-cli setup-commitment-circuit`)"))
        else .ok (bytes.drop verEnd)

theorem ofLeBytes_toLeBytes32 {n : Nat} (h : n < 2 ^ 32) : ofLeBytes (toLeBytes32 n) = n := by
  rw [ofLeBytes, toLeBytes32, List.reverse_reverse, Radix.ofBytes_toBytes 4 n h]

theorem toLeBytes32_ofLeBytes {b : Bytes} (h : b.length = 4) : toLeBytes32 (ofLeBytes b) = b := by
  have hround := Radix.toBytes_ofBytes b.reverse
  rw [List.length_reverse, h] at hround
  rw [toLeBytes32, ofLeBytes, hround, List.reverse_reverse]

theorem length_version : (asBytes commitmentCircuitVersion).length = 32 := by decide

/-- Every check of the header, in turn. -/
theorem unwrapKeyEnvelope_eq_ok {bytes body : Bytes} :
    unwrapKeyEnvelope bytes = .ok body ↔
      12 ≤ bytes.length ∧ bytes.take 8 = keyEnvelopeMagic ∧
        12 + ofLeBytes ((bytes.drop 8).take 4) ≤ bytes.length ∧
        (bytes.drop 12).take (ofLeBytes ((bytes.drop 8).take 4)) = asBytes commitmentCircuitVersion ∧
        bytes.drop (12 + ofLeBytes ((bytes.drop 8).take 4)) = body := by
  have hmagic : keyEnvelopeMagic.length = 8 := rfl
  simp only [unwrapKeyEnvelope, hmagic, Nat.reduceAdd]
  constructor
  · intro h
    split at h
    next => cases h
    next hhead =>
      obtain ⟨hlen, htag⟩ := not_or.mp hhead
      split at h
      next => cases h
      next hroom =>
        split at h
        next => cases h
        next ver hver =>
          split at h
          next => cases h
          next hsame =>
            rw [not_not.mp hsame, fromUtf8_eq_some] at hver
            exact ⟨not_lt.mp hlen, not_not.mp htag, not_lt.mp hroom, hver, Except.ok.inj h⟩
  · rintro ⟨hlen, htag, hroom, hver, rfl⟩
    have hread := fromUtf8_eq_some.mpr hver
    simp only [htag, ne_eq, not_true_eq_false, or_false, not_lt.mpr hlen, not_lt.mpr hroom, if_false, hread]

/-- Key material is read back as it was wrapped, and nothing that another version, or nobody, wrapped is read. -/
theorem unwrapKeyEnvelope_iff (bytes body : Bytes) :
    unwrapKeyEnvelope bytes = .ok body ↔ bytes = wrapKeyEnvelope body := by
  rw [unwrapKeyEnvelope_eq_ok]
  constructor
  · rintro ⟨hlen, htag, hroom, hver, rfl⟩
    have hwidth : ((bytes.drop 8).take 4).length = 4 := by
      rw [List.length_take, List.length_drop]
      omega
    -- The declared length is that of the version found.
    have hverLen : ofLeBytes ((bytes.drop 8).take 4) = (asBytes commitmentCircuitVersion).length := by
      rw [← hver, List.length_take, List.length_drop]
      omega
    have hcut : ∀ n m, (bytes.drop n).take m ++ bytes.drop (n + m) = bytes.drop n := by
      intro n m
      rw [← List.drop_drop, List.take_append_drop]
    rw [wrapKeyEnvelope, ← hverLen, toLeBytes32_ofLeBytes hwidth, ← hver, ← htag, List.append_assoc, hcut 12,
      List.append_assoc, hcut 8 4, List.take_append_drop]
  · rintro rfl
    have hmagic : keyEnvelopeMagic.length = 8 := rfl
    have hwidth : (toLeBytes32 32).length = 4 := rfl
    have hlaid : wrapKeyEnvelope body =
        keyEnvelopeMagic ++ (toLeBytes32 32 ++ (asBytes commitmentCircuitVersion ++ body)) := by
      rw [wrapKeyEnvelope, length_version, List.append_assoc, List.append_assoc]
    have hdrop8 := @List.drop_left' _ _ (toLeBytes32 32 ++ (asBytes commitmentCircuitVersion ++ body)) _ hmagic
    have hdrop12 : (wrapKeyEnvelope body).drop 12 = asBytes commitmentCircuitVersion ++ body := by
      rw [hlaid, show 12 = 8 + 4 from rfl, ← List.drop_drop, hdrop8, List.drop_left' hwidth]
    have hdeclared : ofLeBytes (((wrapKeyEnvelope body).drop 8).take 4) = 32 := by
      rw [hlaid, hdrop8, List.take_left' hwidth, ofLeBytes_toLeBytes32 (by decide)]
    have hlength : (wrapKeyEnvelope body).length = 44 + body.length := by
      simp only [hlaid, List.length_append, hmagic, hwidth, length_version]
      omega
    rw [hdeclared, ← List.drop_drop, hdrop12, hlength]
    refine ⟨by omega, ?_, by omega, List.take_left' length_version, List.drop_left' length_version⟩
    rw [hlaid, List.take_left' hmagic]

end DarkPool
