import DarkPool.MultiKey

namespace DarkPool

/-- XChaCha20-Poly1305 under one key. -/
structure SnapshotCipher where
  encrypt : (nonce msg aad : Bytes) → Except String Bytes
  decrypt : (nonce ciphertext aad : Bytes) → Except String Bytes

/-- The `Display` text. -/
def CryptoError.message : CryptoError → String
  | decryptionFailed reason => "decryption failed: " ++ reason
  | encryptionFailed reason => "encryption failed: " ++ reason
  | invalidKeyFile reason => "invalid key file: " ++ reason
  | deserializationFailed reason => "deserialization failed: " ++ reason
  | io reason => "io error: " ++ reason
  | hexDecode reason => "hex decode error: " ++ reason
  | keySource reason => "key source error: " ++ reason

def snapshotNonceLen : Nat := 24

/-- The nonce a seal draws. -/
abbrev SealNonce := { b : Bytes // b.length = snapshotNonceLen }

namespace SnapshotCipher

def sealBlob (cipher : SnapshotCipher) (nonce : SealNonce) (plaintext aad : Bytes) : Except CryptoError Bytes := do
  let ciphertext ← mapErr (fun e => CryptoError.encryptionFailed ("snapshot seal: " ++ e))
    (cipher.encrypt nonce.val plaintext aad)
  return nonce.val ++ ciphertext

def openBlob (cipher : SnapshotCipher) (sealedBlob aad : Bytes) : Except CryptoError Bytes :=
  if sealedBlob.length < snapshotNonceLen then
    .error (.decryptionFailed ("snapshot blob too short: " ++ toString sealedBlob.length ++
      " bytes (need at least 24)"))
  else
    mapErr (fun e => CryptoError.decryptionFailed ("snapshot open: " ++ e))
      (cipher.decrypt (sealedBlob.take snapshotNonceLen) (sealedBlob.drop snapshotNonceLen) aad)

/-- For each nonce and header the cipher is a bijection between messages and the ciphertexts it opens. -/
def Tidy (cipher : SnapshotCipher) : Prop :=
  ∀ nonce msg aad ciphertext, cipher.encrypt nonce msg aad = .ok ciphertext ↔
    cipher.decrypt nonce ciphertext aad = .ok msg

end SnapshotCipher

inductive SnapshotError
  | truncated (len : Nat)
  | badMagic
  | unsupportedVersion (version : Nat)
  | lengthMismatch (declared actual : Nat)
  | decrypt
  | encrypt (msg : String)
  | bincode (msg : String)

/-- `bincode` at the type of the state. -/
structure StateCodec (α : Type) where
  serialize : α → Except String Bytes
  deserialize : Bytes → Except String α

/-- "DPS2". -/
def envelopeMagic : Bytes := [68, 80, 83, 50]

def envelopeVersion : Nat := 3

def aadLen : Nat := 16

def headerLen : Nat := 20

/-- Magic, version and sequence number; also the associated data. -/
def envelopeHeader (seq : Nat) : Bytes := envelopeMagic ++ Radix.toBytes 4 envelopeVersion ++ Radix.toBytes 8 seq

section Envelope

variable {α : Type} (codec : StateCodec α) (cipher : SnapshotCipher)

def encodeEnvelope (nonce : SealNonce) (state : α) (seq : Nat) : Except SnapshotError Bytes := do
  let blob ← mapErr SnapshotError.bincode (codec.serialize state)
  let sealedBlob ← mapErr (fun e : CryptoError => SnapshotError.encrypt e.message)
    (cipher.sealBlob nonce blob (envelopeHeader seq))
  if 2 ^ 32 ≤ sealedBlob.length then throw (.lengthMismatch (2 ^ 32 - 1) sealedBlob.length)
  return envelopeHeader seq ++ Radix.toBytes 4 sealedBlob.length ++ sealedBlob

def decodeEnvelope (bytes : Bytes) : Except SnapshotError (Nat × α) :=
  if bytes.length < headerLen then .error (.truncated bytes.length)
  else if bytes.take 4 ≠ envelopeMagic then .error .badMagic
  else if Radix.ofBytes ((bytes.drop 4).take 4) ≠ envelopeVersion then
    .error (.unsupportedVersion (Radix.ofBytes ((bytes.drop 4).take 4)))
  else
    let seq := Radix.ofBytes ((bytes.drop 8).take 8)
    let sealedLen := Radix.ofBytes ((bytes.drop 16).take 4)
    let payload := bytes.drop headerLen
    if payload.length ≠ sealedLen then .error (.lengthMismatch sealedLen payload.length)
    else do
      let blob ← mapErr (fun _ => SnapshotError.decrypt) (cipher.openBlob payload (bytes.take aadLen))
      let state ← mapErr SnapshotError.bincode (codec.deserialize blob)
      return (seq, state)

end Envelope

section Layout

@[simp] theorem length_envelopeHeader (seq : Nat) : (envelopeHeader seq).length = aadLen := by
  simp [envelopeHeader, envelopeMagic, aadLen]

/-- The fields of an envelope, as bytes. -/
structure Laid (bytes : Bytes) (seq : Nat) (payload : Bytes) : Prop where
  bytes_eq : bytes = envelopeHeader seq ++ Radix.toBytes 4 payload.length ++ payload
  seq_lt : seq < 2 ^ 64
  payload_lt : payload.length < 2 ^ 32

variable {bytes payload : Bytes} {seq : Nat}

/-- Cutting a text at the offsets of its fields and joining the pieces. -/
theorem fields_append (bytes : Bytes) :
    bytes = bytes.take 4 ++ (bytes.drop 4).take 4 ++ (bytes.drop 8).take 8 ++ (bytes.drop 16).take 4 ++
      bytes.drop headerLen := by
  have hcut : ∀ n m, (bytes.drop n).take m ++ bytes.drop (n + m) = bytes.drop n := by
    intro n m
    rw [← List.drop_drop, List.take_append_drop]
  have h16 := hcut 16 4
  have h8 := hcut 8 8
  have h4 := hcut 4 4
  simp only [Nat.reduceAdd] at h16 h8 h4
  rw [headerLen, List.append_assoc, h16, List.append_assoc, h8, List.append_assoc, h4, List.take_append_drop]

theorem fields_of_append {a b c d : Bytes} (ha : a.length = 4) (hb : b.length = 4) (hc : c.length = 8)
    (hd : d.length = 4) (e : Bytes) :
    let bytes := a ++ b ++ c ++ d ++ e
    bytes.take 4 = a ∧ (bytes.drop 4).take 4 = b ∧ (bytes.drop 8).take 8 = c ∧ (bytes.drop 16).take 4 = d ∧
      bytes.drop headerLen = e := by
  have hgone : ∀ {x : Bytes} {n m : Nat}, x.length = n → n ≤ m → x.drop m = [] :=
    fun hx hle => List.drop_eq_nil_of_le (hx ▸ hle)
  simp [ha, hb, hc, hd, headerLen, List.drop_append, hgone ha, hgone hb, hgone hc]

/-- The bytes of a field are those of the number they spell. -/
theorem toBytes_field {n m : Nat} (hlen : n + m ≤ bytes.length) :
    Radix.toBytes m (Radix.ofBytes ((bytes.drop n).take m)) = (bytes.drop n).take m := by
  have hwidth : ((bytes.drop n).take m).length = m := by
    rw [List.length_take, List.length_drop]
    omega
  have hround := Radix.toBytes_ofBytes ((bytes.drop n).take m)
  rwa [hwidth] at hround

theorem ofBytes_field_lt (bytes : Bytes) (n m : Nat) : Radix.ofBytes ((bytes.drop n).take m) < 256 ^ m := by
  have hlt := Radix.ofBytes_lt ((bytes.drop n).take m)
  have hwidth : ((bytes.drop n).take m).length ≤ m := List.length_take_le m _
  exact hlt.trans_le (Nat.pow_le_pow_right (by omega) hwidth)

/-- The checks of `decode_envelope` on the header pass exactly on what `encode_envelope` lays out. -/
theorem laid_iff : Laid bytes seq payload ↔
    ¬ bytes.length < headerLen ∧ bytes.take 4 = envelopeMagic ∧
      Radix.ofBytes ((bytes.drop 4).take 4) = envelopeVersion ∧ Radix.ofBytes ((bytes.drop 8).take 8) = seq ∧
      payload = bytes.drop headerLen ∧ payload.length = Radix.ofBytes ((bytes.drop 16).take 4) := by
  constructor
  · rintro ⟨rfl, hseq, hpayload⟩
    obtain ⟨hmagic, hversion, hseq', hlen, hrest⟩ := fields_of_append (a := envelopeMagic) rfl
      (Radix.length_toBytes 4 envelopeVersion) (Radix.length_toBytes 8 seq) (Radix.length_toBytes 4 payload.length)
      payload
    unfold envelopeHeader
    refine ⟨?_, hmagic, ?_, ?_, hrest.symm, ?_⟩
    · simp only [List.length_append, Radix.length_toBytes, headerLen, envelopeMagic, List.length_cons]
      omega
    · rw [hversion, Radix.ofBytes_toBytes 4 _ (by decide)]
    · rw [hseq', Radix.ofBytes_toBytes 8 _ hseq]
    · rw [hlen, Radix.ofBytes_toBytes 4 _ hpayload]
  · rintro ⟨hlen, hmagic, hversion, hseq, rfl, hpayload⟩
    rw [headerLen, not_lt] at hlen
    refine ⟨?_, ?_, ?_⟩
    · conv_lhs => rw [fields_append bytes]
      rw [hmagic, ← toBytes_field (n := 4) (m := 4) (by omega), ← toBytes_field (n := 8) (m := 8) (by omega),
        ← toBytes_field (n := 16) (m := 4) hlen, hversion, hseq, ← hpayload, envelopeHeader]
    · rw [← hseq]
      exact ofBytes_field_lt bytes 8 8
    · rw [hpayload]
      exact ofBytes_field_lt bytes 16 4

end Layout

section Results

variable {α : Type} {codec : StateCodec α} {cipher : SnapshotCipher} {bytes : Bytes} {seq : Nat} {state : α}

theorem Laid.take_aadLen {payload : Bytes} (h : Laid bytes seq payload) : bytes.take aadLen = envelopeHeader seq := by
  rw [h.bytes_eq, List.append_assoc, List.take_left' (length_envelopeHeader seq)]

theorem openBlob_eq_ok (htidy : cipher.Tidy) {payload aad blob : Bytes} :
    cipher.openBlob payload aad = .ok blob ↔ ∃ nonce, cipher.sealBlob nonce blob aad = .ok payload := by
  unfold SnapshotCipher.openBlob SnapshotCipher.sealBlob
  constructor
  · intro h
    obtain ⟨hlen, h⟩ := guard_eq_ok.mp h
    have hnonce : (payload.take snapshotNonceLen).length = snapshotNonceLen := by
      rw [List.length_take]
      omega
    refine ⟨⟨payload.take snapshotNonceLen, hnonce⟩, bind_eq_ok.mpr ⟨payload.drop snapshotNonceLen, ?_, ?_⟩⟩
    · exact mapErr_eq_ok.mpr ((htidy _ _ _ _).mpr (mapErr_eq_ok.mp h))
    · exact congrArg Except.ok (List.take_append_drop snapshotNonceLen payload)
  · rintro ⟨nonce, h⟩
    obtain ⟨ciphertext, hencrypt, h⟩ := bind_eq_ok.mp h
    cases Except.ok.inj h
    have hlen : ¬ (nonce.val ++ ciphertext).length < snapshotNonceLen := by
      rw [List.length_append, nonce.property]
      omega
    rw [if_neg hlen, List.take_left' nonce.property, List.drop_left' nonce.property]
    exact mapErr_eq_ok.mpr ((htidy _ _ _ _).mp (mapErr_eq_ok.mp hencrypt))

theorem decodeEnvelope_eq_ok :
    decodeEnvelope codec cipher bytes = .ok (seq, state) ↔
      ∃ payload blob, Laid bytes seq payload ∧ cipher.openBlob payload (envelopeHeader seq) = .ok blob ∧
        codec.deserialize blob = .ok state := by
  simp only [decodeEnvelope, guard_eq_ok, bind_eq_ok, mapErr_eq_ok, ne_eq, not_not]
  constructor
  · rintro ⟨hlen, hmagic, hversion, hpayload, blob, hopen, found, hstate, h⟩
    cases Except.ok.inj h
    have hlaid := laid_iff.mpr ⟨hlen, hmagic, hversion, rfl, rfl, hpayload⟩
    exact ⟨_, blob, hlaid, hlaid.take_aadLen ▸ hopen, hstate⟩
  · rintro ⟨payload, blob, hlaid, hopen, hstate⟩
    obtain ⟨hlen, hmagic, hversion, hseq, rfl, hpayload⟩ := laid_iff.mp hlaid
    refine ⟨hlen, hmagic, hversion, hpayload, blob, hlaid.take_aadLen ▸ hopen, state, hstate, ?_⟩
    rw [hseq]
    rfl

theorem encodeEnvelope_eq_ok {nonce : SealNonce} (hseq : seq < 2 ^ 64) :
    encodeEnvelope codec cipher nonce state seq = .ok bytes ↔
      ∃ blob payload, codec.serialize state = .ok blob ∧ cipher.sealBlob nonce blob (envelopeHeader seq) = .ok payload ∧
        Laid bytes seq payload := by
  simp only [encodeEnvelope, bind_eq_ok, mapErr_eq_ok]
  constructor
  · rintro ⟨blob, hblob, payload, hsealed, h⟩
    split at h
    next => cases h
    next hlt =>
      cases Except.ok.inj h
      exact ⟨blob, payload, hblob, hsealed, rfl, hseq, not_le.mp hlt⟩
  · rintro ⟨blob, payload, hblob, hsealed, hlaid⟩
    refine ⟨blob, hblob, payload, hsealed, ?_⟩
    rw [if_neg (not_le.mpr hlaid.payload_lt), hlaid.bytes_eq]
    rfl

theorem Laid.unique {payload payload' : Bytes} {seq' : Nat} (h : Laid bytes seq payload)
    (h' : Laid bytes seq' payload') : seq' = seq ∧ payload' = payload := by
  obtain ⟨-, -, -, rfl, rfl, -⟩ := laid_iff.mp h
  obtain ⟨-, -, -, rfl, rfl, -⟩ := laid_iff.mp h'
  exact ⟨rfl, rfl⟩

theorem decode_encoded (htidy : cipher.Tidy) {nonce : SealNonce} (hseq : seq < 2 ^ 64)
    (h : encodeEnvelope codec cipher nonce state seq = .ok bytes) :
    ∃ blob, codec.serialize state = .ok blob ∧
      ∀ seq' state', decodeEnvelope codec cipher bytes = .ok (seq', state') ↔
        seq' = seq ∧ codec.deserialize blob = .ok state' := by
  obtain ⟨blob, payload, hblob, hsealed, hlaid⟩ := (encodeEnvelope_eq_ok hseq).mp h
  have hopen := (openBlob_eq_ok htidy).mpr ⟨nonce, hsealed⟩
  refine ⟨blob, hblob, fun seq' state' => ?_⟩
  rw [decodeEnvelope_eq_ok]
  constructor
  · rintro ⟨payload', blob', hlaid', hopen', hstate⟩
    obtain ⟨rfl, rfl⟩ := hlaid.unique hlaid'
    cases Except.ok.inj (hopen'.symm.trans hopen)
    exact ⟨rfl, hstate⟩
  · rintro ⟨rfl, hstate⟩
    exact ⟨payload, blob, hlaid, hopen, hstate⟩

/-- Whatever `bincode` makes of the state comes out as it went in, with its sequence number, and nothing else is
opened: what decodes was sealed in this layout. -/
theorem envelope_round_trip (htidy : cipher.Tidy) :
    (∀ nonce state seq bytes, seq < 2 ^ 64 → encodeEnvelope codec cipher nonce state seq = .ok bytes →
      ∃ blob, codec.serialize state = .ok blob ∧
        ∀ seq' state', decodeEnvelope codec cipher bytes = .ok (seq', state') ↔
          seq' = seq ∧ codec.deserialize blob = .ok state') ∧
    ∀ bytes seq state, decodeEnvelope codec cipher bytes = .ok (seq, state) →
      seq < 2 ^ 64 ∧ ∃ nonce blob payload, codec.deserialize blob = .ok state ∧
        cipher.sealBlob nonce blob (envelopeHeader seq) = .ok payload ∧
        bytes = envelopeHeader seq ++ Radix.toBytes 4 payload.length ++ payload := by
  refine ⟨fun nonce state seq bytes hseq h => decode_encoded htidy hseq h, ?_⟩
  intro bytes seq state h
  obtain ⟨payload, blob, hlaid, hopen, hstate⟩ := decodeEnvelope_eq_ok.mp h
  obtain ⟨nonce, hsealed⟩ := (openBlob_eq_ok htidy).mp hopen
  exact ⟨hlaid.seq_lt, nonce, blob, payload, hstate, hsealed, hlaid.bytes_eq⟩

namespace Scenario

def bareCipher : SnapshotCipher := ⟨fun _ msg _ => .ok msg, fun _ ciphertext _ => .ok ciphertext⟩

def bareCodec : StateCodec Bytes := ⟨.ok, .ok⟩

def zeroNonce : SealNonce := ⟨List.replicate 24 0, rfl⟩

theorem bareCipher_tidy : bareCipher.Tidy := fun _ _ _ _ => ⟨Eq.symm, Eq.symm⟩

def barePayload : Bytes := List.replicate 24 0 ++ [7]

def bareEnvelope : Bytes := envelopeHeader 5 ++ Radix.toBytes 4 barePayload.length ++ barePayload

theorem encodeEnvelope_bare : encodeEnvelope bareCodec bareCipher zeroNonce [7] 5 = .ok bareEnvelope := rfl

end Scenario

open Scenario in
theorem envelope_round_trip_bare : decodeEnvelope bareCodec bareCipher bareEnvelope = .ok (5, [7]) :=
  have ⟨_, hblob, hround⟩ :=
    (envelope_round_trip bareCipher_tidy).1 zeroNonce [7] 5 bareEnvelope (by decide) encodeEnvelope_bare
  (hround 5 [7]).mpr ⟨rfl, hblob.symm⟩

/-- No envelope is a part of another: the length it declares is its own. -/
theorem decodeEnvelope_append {rest : Bytes} {seq' : Nat} {state' : α}
    (h : decodeEnvelope codec cipher bytes = .ok (seq, state))
    (h' : decodeEnvelope codec cipher (bytes ++ rest) = .ok (seq', state')) : rest = [] := by
  obtain ⟨payload, _, hlaid, -, -⟩ := decodeEnvelope_eq_ok.mp h
  obtain ⟨payload', _, hlaid', -, -⟩ := decodeEnvelope_eq_ok.mp h'
  obtain ⟨hwhole, -, -, -, rfl, hlen⟩ := laid_iff.mp hlaid
  obtain ⟨-, -, -, -, rfl, hlen'⟩ := laid_iff.mp hlaid'
  have hfield : ((bytes ++ rest).drop 16).take 4 = (bytes.drop 16).take 4 := by
    rw [headerLen, not_lt] at hwhole
    rw [List.drop_append_of_le_length (by omega), List.take_append_of_le_length (by rw [List.length_drop]; omega)]
  rw [hfield, ← hlen, List.length_drop, List.length_drop, List.length_append] at hlen'
  exact List.eq_nil_of_length_eq_zero (by omega)

/-- An envelope that lost its end, or has bytes behind it, is not read. -/
theorem envelope_torn (h : decodeEnvelope codec cipher bytes = .ok (seq, state)) :
    (∀ torn rest, bytes = torn ++ rest → rest ≠ [] → ∀ r, decodeEnvelope codec cipher torn ≠ .ok r) ∧
      ∀ rest ≠ [], ∀ r, decodeEnvelope codec cipher (bytes ++ rest) ≠ .ok r := by
  constructor
  · rintro torn rest rfl hrest ⟨seq', state'⟩ htorn
    exact hrest (decodeEnvelope_append htorn h)
  · rintro rest hrest ⟨seq', state'⟩ hlonger
    exact hrest (decodeEnvelope_append h hlonger)

theorem Scenario.decodeEnvelope_bare : decodeEnvelope bareCodec bareCipher bareEnvelope = .ok (5, [7]) := by
  have hlaid : Laid bareEnvelope 5 barePayload := ⟨rfl, by decide, by decide⟩
  exact decodeEnvelope_eq_ok.mpr ⟨barePayload, [7], hlaid, rfl, rfl⟩

open Scenario in
theorem envelope_torn_bare :
    decodeEnvelope bareCodec bareCipher bareEnvelope = .ok (5, [7]) ∧
      ∀ r, decodeEnvelope bareCodec bareCipher (bareEnvelope ++ [0]) ≠ .ok r :=
  ⟨decodeEnvelope_bare, (envelope_torn decodeEnvelope_bare).2 [0] (by decide)⟩

end Results

end DarkPool
