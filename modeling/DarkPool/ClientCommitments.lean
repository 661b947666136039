import Mathlib.Data.List.TakeWhile
import DarkPool.Converge
import DarkPool.OrderClients

namespace DarkPool

/-- The element a decimal is encoded as, where it has at most eight places. -/
def encoded (d : Decimal) : Fr := ((d * scaleFactor).num.toNat : Fr)

def saltScalar (saltHex : String) : Fr := ((Radix.ofHex saltHex.toList).getD 0 : Nat)

/-- The commitment to an order whose trader id is the hash of the given element. -/
def commitmentFor (env : Env) (identity : Fr) (d : DecryptedOrder) : Fr :=
  env.poseidon [env.poseidon [identity], (d.side.code : Fr), encoded d.price, encoded d.size, saltScalar d.salt]

theorem commitNative_eq (env : Env) (identity : Fr) (d : DecryptedOrder) :
    commitNative env ⟨env.poseidon [identity], (d.side.code : Fr), encoded d.price, encoded d.size, saltScalar d.salt⟩ =
      commitmentFor env identity d := rfl

/-- What the three clients are given of an order, with the keys of the operator and of the circuit. -/
structure ClientInputs where
  operatorPubkey : Bytes
  payload : OrderPayload
  price : String
  size : String
  witnessJson : String
  pkBytes : Bytes

/-- The inputs are the fields of the order, in texts that the libraries read back; the operator's key
encrypts and the proving key proves what the circuit allows. -/
structure ClientInputs.Of (env : Env) (libs : ClientLibs) (i : ClientInputs) (d : DecryptedOrder) : Prop where
  trader : isAddressText i.payload.trader = true ∧ parseAddress i.payload.trader = some d.trader
  payload : i.payload =
    ⟨i.payload.trader, d.pair, d.side, d.price, d.size, d.commitmentKey, d.salt, d.nonce, d.expiresAtUnixNanos, i.payload.ttl⟩
  price : libs.decimalFromStr i.price = some d.price
  size : libs.decimalFromStr i.size = some d.size
  witness : libs.readWitness i.witnessJson = some ⟨i.payload.trader, d.side.code, i.price, i.size, d.salt⟩
  encrypts : ∃ ciphertext, Client.encryptOrder libs i.operatorPubkey i.payload = .ok ciphertext
  proves : ∃ prove, libs.deserializePk i.pkBytes = some prove ∧
    ∀ c : CommitmentPreimageCircuit, c.Satisfied env → ∃ proof, prove c = some proof

/-- All three clients succeed, and with these bytes. -/
structure ClientsCommit (env : Env) (libs : ClientLibs) (i : ClientInputs) (d : DecryptedOrder) (commitment : Bytes) :
    Prop where
  prepareOrder : ∃ sub, Client.prepareOrder env libs i.operatorPubkey i.payload = .ok sub ∧ sub.commitment = commitment
  computeCommitment :
    computeCommitmentWasm env libs d.commitmentKey d.side.code i.price i.size d.salt = .ok (hexEncode commitment)
  proveOrder : ∃ r, ZkWasm.proveOrder env libs i.witnessJson i.pkBytes = .ok r ∧ r.commitment = commitment

theorem ok_bind {ε α β : Type} (a : α) (f : α → Except ε β) : ((Except.ok a : Except ε α) >>= f) = f a := rfl

theorem exists_ok_and {ε α : Type} {a : α} {P : α → Prop} : (∃ x, (Except.ok a : Except ε α) = .ok x ∧ P x) ↔ P a := by
  simp

theorem encoded_of_ok {x : Decimal} {f : Fr} (h : decimalToScalar x = .ok f) : f = encoded x := by
  obtain ⟨n, -, hx, rfl⟩ := decimalToScalar_eq_ok.mp h
  rw [encoded, hx]
  simp

theorem encoded_val_lt {x : Decimal} (h : decimalToScalar x = .ok (encoded x)) : (encoded x).val < 2 ^ 60 := by
  obtain ⟨n, hn, -, hf⟩ := decimalToScalar_eq_ok.mp h
  have hlt : n < scalarModulus := lt_trans hn (by decide)
  rw [hf, ZMod.val_natCast_of_lt hlt]
  exact hn

theorem bytesToScalar_addressBytes (a : Address) : bytesToScalar (addressBytes a) = .ok (a.toNat : Fr) := by
  have hlt : a.toNat < 256 ^ 20 := by have := a.isLt; omega
  simp [bytesToScalar, addressBytes, Radix.ofBytes_toBytes 20 _ hlt]

/-- The clients write a scalar as the engine does. -/
theorem scalarToBeBytes_eq (f : Fr) : Client.scalarToBeBytes f = (frToBytes32 f).toVec := by
  rw [Client.scalarToBeBytes, Bytes32.toVec, frToBytes32_toNat]

theorem parseLowercaseHex32_ok {s : String} {err : DarkPoolError} {b : Bytes32}
    (h : parseLowercaseHex32 s err = .ok b) :
    (s.toList.length = 64 ∧ s.toList.all isLowercaseHexDigit = true) ∧ hexDecode s.toList = some b.toVec ∧
      Radix.ofHex s.toList = some b.toNat := by
  simp only [parseLowercaseHex32, guard_eq_ok, not_or, not_not] at h
  obtain ⟨hform, h⟩ := h
  split at h
  next n hn =>
    cases Except.ok.inj h
    have hlt : n < 2 ^ 256 := by
      have hbound := Radix.ofHex_lt hn
      rw [hform.1] at hbound
      exact lt_of_lt_of_eq hbound (by norm_num)
    have htoNat : (BitVec.ofNat 256 n).toNat = n := by rw [BitVec.toNat_ofNat, Nat.mod_eq_of_lt hlt]
    refine ⟨hform, ?_, by rw [hn, htoNat]⟩
    simp [hexDecode, hform.1, hn, Bytes32.toVec, htoNat]
  next => simp at h

theorem client_parseLowercaseHex32 {s name : String} {err : DarkPoolError} {b : Bytes32}
    (h : parseLowercaseHex32 s err = .ok b) : Client.parseLowercaseHex32 s name = .ok b.toVec := by
  obtain ⟨hform, hdecode, -⟩ := parseLowercaseHex32_ok h
  simp only [Client.parseLowercaseHex32, guard_eq_ok, not_or, not_not, bind_eq_ok, orError_eq_ok]
  exact ⟨hform, b.toVec, hdecode, by simp⟩

/-- An address text is read to the bytes of its address by both provers. -/
theorem hexDecode_of_address {s : String} {a : Address} (htext : isAddressText s = true)
    (h : parseAddress s = some a) : ∃ digits, s.toList = '0' :: 'x' :: digits ∧ hexDecode digits = some (addressBytes a) := by
  unfold isAddressText at htext
  split at htext
  next digits hs =>
    simp only [Bool.and_eq_true, decide_eq_true_eq] at htext
    simp only [parseAddress, hs, htext.1, if_true, Option.map_eq_some_iff] at h
    obtain ⟨n, hn, rfl⟩ := h
    have hlt : n < 2 ^ 160 := by
      have hbound := Radix.ofHex_lt hn
      rw [htext.1] at hbound
      exact lt_of_lt_of_eq hbound (by norm_num)
    have htoNat : (BitVec.ofNat 160 n).toNat = n := by rw [BitVec.toNat_ofNat, Nat.mod_eq_of_lt hlt]
    refine ⟨digits, hs, ?_⟩
    simp [hexDecode, htext.1, hn, addressBytes, htoNat]
  next => simp at htext

/-- What admission has checked of the fields that the clients encode. -/
structure Encodable (d : DecryptedOrder) : Prop where
  price : decimalToScalar d.price = .ok (encoded d.price)
  size : decimalToScalar d.size = .ok (encoded d.size)
  salt : ∃ b : Bytes32, parseLowercaseHex32 d.salt .saltInvalid = .ok b ∧
    bytes32ToScalar b.toVec = .ok (saltScalar d.salt)
  nonce : ∃ b : Bytes32, parseOrderNonce d.nonce = .ok b
  expiry : 0 < d.expiresAtUnixNanos

section Accepted

variable {env : Env} {p : Placement} {d : DecryptedOrder}

theorem saltScalar_of_ok {b : Bytes32} {f : Fr} (h : parseLowercaseHex32 d.salt .saltInvalid = .ok b)
    (hf : bytes32ToScalar b.toVec = .ok f) : f = saltScalar d.salt := by
  obtain ⟨-, -, hhex⟩ := parseLowercaseHex32_ok h
  rw [bytes32ToScalar_toVec] at hf
  split at hf
  next => rw [← Except.ok.inj hf, saltScalar, hhex, Option.getD_some]
  next => simp at hf

theorem deriveOrderSecrets_commitment {balance : Decimal} {position : Int} {salt : Bytes32} {s : OrderSecrets}
    (hsalt : parseLowercaseHex32 d.salt .saltInvalid = .ok salt)
    (h : deriveOrderSecrets env (addressBytes d.trader) d.side.code d.price d.size balance position salt = .ok s) :
    decimalToScalar d.price = .ok (encoded d.price) ∧ decimalToScalar d.size = .ok (encoded d.size) ∧
      bytes32ToScalar salt.toVec = .ok (saltScalar d.salt) ∧
      s.commitment = frToBytes32 (commitmentFor env (d.trader.toNat : Fr) d) := by
  simp only [deriveOrderSecrets, deriveTraderIdBytes, deriveTraderId, computePoseidonCommitmentFr,
    OrderCommitmentInput.fromDecimals, bind_eq_ok, mapErr_eq_ok, bytesToScalar_addressBytes] at h
  obtain ⟨traderId, ⟨id, ⟨scalar, hscalar, hid⟩, htraderId⟩, commitment, hcommit, saltFr, hsaltFr, h⟩ := h
  obtain ⟨traderFr, htraderFr, saltFr', hsaltFr', input, ⟨price, hprice, size, hsize, hinput⟩, hcommit⟩ := hcommit
  cases Except.ok.inj hscalar
  cases Except.ok.inj hid
  cases Except.ok.inj htraderId
  rw [bytes32ToScalar_frToBytes32] at htraderFr
  cases Except.ok.inj htraderFr
  obtain rfl := encoded_of_ok hprice
  obtain rfl := encoded_of_ok hsize
  obtain rfl := saltScalar_of_ok hsalt hsaltFr'
  cases Except.ok.inj hinput
  cases Except.ok.inj hcommit
  cases Except.ok.inj h
  refine ⟨hprice, hsize, hsaltFr', ?_⟩
  have hside : (if d.side.code = 0 then (0 : Fr) else 1) = (d.side.code : Fr) := by
    cases d.side with
    | buy => simp [Side.code]
    | sell => simp [Side.code]
  simp only [commitNative, OrderCommitmentInput.asFieldElements, commitmentFor, hside]

theorem Placement.From.encodable (h : p.From env d) :
    Encodable d ∧ p.secrets.commitment = frToBytes32 (commitmentFor env (d.trader.toNat : Fr) d) := by
  have hsalt := h.salt
  simp only [parseOrderSalt, bind_eq_ok, mapErr_eq_ok] at hsalt
  obtain ⟨salt, hhex, -, -, hsalt⟩ := hsalt
  have hsecrets := h.secrets
  rw [← Except.ok.inj hsalt] at hsecrets
  obtain ⟨hprice, hsize, hscalar, hcommitment⟩ := deriveOrderSecrets_commitment hhex hsecrets
  obtain ⟨nonce, hnonce, -⟩ := h.nonce
  have hexpiry := h.expiry
  simp only [orderExpiryFromUnixNanos, guard_eq_ok, not_le] at hexpiry
  exact ⟨⟨hprice, hsize, ⟨salt, hhex, hscalar⟩, ⟨nonce, hnonce⟩, hexpiry.1⟩, hcommitment⟩

end Accepted

section Clients

variable {env : Env} {libs : ClientLibs} {i : ClientInputs} {d : DecryptedOrder}

theorem Client.fromDecimals_eq (h : Encodable d) (traderId salt : Fr) :
    Client.fromDecimals traderId d.side.code d.price d.size salt =
      .ok ⟨traderId, (d.side.code : Fr), encoded d.price, encoded d.size, salt⟩ := by
  have hside : Client.sideScalar d.side.code = .ok (d.side.code : Fr) := by
    cases d.side with
    | buy => simp [Side.code, Client.sideScalar]
    | sell => simp [Side.code, Client.sideScalar]
  simp only [Client.fromDecimals, Client.decimalToScalar, hside, h.price, h.size, mapErr, ok_bind]
  rfl

theorem Client.parseTraderAddress_eq (hi : i.Of env libs d) :
    Client.parseTraderAddress i.payload.trader = .ok (addressBytes d.trader) := by
  obtain ⟨digits, hs, hdecode⟩ := hexDecode_of_address hi.trader.1 hi.trader.2
  simp [Client.parseTraderAddress, Client.validateTrader, hi.trader.1, hs, hdecode, orError, ok_bind, addressBytes]

/-- Only a key of white space keeps `prepare_order` from committing as the engine does. -/
theorem Client.prepareOrder_commits (h : Encodable d) (hi : i.Of env libs d) (b : Bytes) :
    (∃ sub, Client.prepareOrder env libs i.operatorPubkey i.payload = .ok sub ∧ sub.commitment = b) ↔
      (trim d.commitmentKey.toList).isEmpty = false ∧
        Client.scalarToBeBytes (commitmentFor env (d.trader.toNat : Fr) d) = b := by
  obtain ⟨salt, hsalt, hscalar⟩ := h.salt
  obtain ⟨nonce, hnonce⟩ := h.nonce
  obtain ⟨ciphertext, hcipher⟩ := hi.encrypts
  have htrader : Client.validateTrader i.payload.trader = .ok () := by simp [Client.validateTrader, hi.trader.1]
  have hsalt' : Client.parsePayloadSalt d.salt = .ok salt.toVec := client_parseLowercaseHex32 hsalt
  have hnonce' : Client.parsePayloadNonce d.nonce = .ok nonce.toVec := client_parseLowercaseHex32 hnonce
  have hid : Client.deriveTraderId env (addressBytes d.trader) = .ok (env.poseidon [(d.trader.toNat : Fr)]) := by
    simp [Client.deriveTraderId, Client.bytesToScalar, bytesToScalar_addressBytes, mapErr]
  have hexpiry : ¬ d.expiresAtUnixNanos ≤ 0 := not_le.mpr h.expiry
  have hkey : i.payload.commitmentKey = d.commitmentKey := by rw [hi.payload]
  have hfields : i.payload.salt = d.salt ∧ i.payload.nonce = d.nonce ∧
      i.payload.expiresAtUnixNanos = d.expiresAtUnixNanos ∧ i.payload.side = d.side ∧ i.payload.price = d.price ∧
      i.payload.size = d.size := by
    rw [hi.payload]
    exact ⟨rfl, rfl, rfl, rfl, rfl, rfl⟩
  obtain ⟨hfsalt, hfnonce, hfexpiry, hfside, hfprice, hfsize⟩ := hfields
  simp only [Client.prepareOrder, hkey, hfsalt, hfnonce, hfexpiry, hfside, hfprice, hfsize, htrader,
    Client.parseTraderAddress_eq hi, hid, hsalt', hnonce', hexpiry, if_false, Client.bytes32ToScalar, hscalar, mapErr,
    Client.fromDecimals_eq h, hcipher, ok_bind]
  cases hblank : (trim d.commitmentKey.toList).isEmpty with
  | true => simp
  | false =>
    simp only [Bool.false_eq_true, if_false, true_and, pure, Except.pure, commitNative_eq, exists_ok_and]

theorem hexEncode_injective {b b' : Bytes} (hb : b.length = 32) (hb' : b'.length = 32) (h : hexEncode b = hexEncode b') :
    b = b' := by
  have hdecode : ∀ c : Bytes, c.length = 32 → hexDecode (hexEncode c).toList = some c := by
    intro c hc
    have hlt : Radix.ofBytes c < 256 ^ 32 := by
      have hbound := Radix.ofDigits_lt (c.map UInt8.toNat) (fun d hd => by
        obtain ⟨u, -, rfl⟩ := List.mem_map.mp hd
        exact u.toNat_lt)
      rwa [List.length_map, hc] at hbound
    have hround := hexDecode_hexEncode 32 _ hlt
    rwa [← hc, Radix.toBytes_ofBytes] at hround
  exact Option.some.inj (by rw [← hdecode b hb, ← hdecode b' hb', h])

/-- `compute_commitment_wasm` commits to the identity that the bytes of the key encode, if they encode one. -/
theorem computeCommitmentWasm_commits (h : Encodable d) (hi : i.Of env libs d) {b : Bytes} (hb : b.length = 32) :
    computeCommitmentWasm env libs d.commitmentKey d.side.code i.price i.size d.salt = .ok (hexEncode b) ↔
      ∃ f, bytesToScalar (utf8Bytes d.commitmentKey) = .ok f ∧ Client.scalarToBeBytes (commitmentFor env f d) = b := by
  obtain ⟨salt, hsalt, hscalar⟩ := h.salt
  obtain ⟨⟨hlength, hdigits⟩, hdecode, -⟩ := parseLowercaseHex32_ok hsalt
  cases hkey : bytesToScalar (utf8Bytes d.commitmentKey) with
  | error e => simp [computeCommitmentWasm, Client.deriveTraderId, Client.bytesToScalar, hkey, mapErr, bind, Except.bind]
  | ok f =>
    have hwasm : computeCommitmentWasm env libs d.commitmentKey d.side.code i.price i.size d.salt =
        .ok (hexEncode (Client.scalarToBeBytes (commitmentFor env f d))) := by
      simp only [computeCommitmentWasm, Client.deriveTraderId, Client.bytesToScalar, Client.bytes32ToScalar, hkey, mapErr,
        ok_bind, hi.price, hi.size, orError, hlength, hdigits, hdecode, Bytes32.length_toVec, hscalar,
        Client.fromDecimals_eq h, ne_eq, not_true_eq_false, or_false, if_false, pure, Except.pure, commitNative_eq]
    rw [hwasm]
    constructor
    · intro heq
      exact ⟨f, rfl, hexEncode_injective (Radix.length_toBytes 32 _) hb (Except.ok.inj heq)⟩
    · rintro ⟨f', hf', rfl⟩
      rw [Except.ok.inj hf']

theorem proveOrder_circuit (h : Encodable d) :
    CommitmentPreimageCircuit.Satisfied env
      ⟨env.poseidon [(d.trader.toNat : Fr)], (d.trader.toNat : Fr), (d.side.code : Fr), encoded d.price, encoded d.size,
        saltScalar d.salt⟩ where
  side := by
    cases d.side with
    | buy => simp [Side.code]
    | sell => simp [Side.code]
  limitPrice := encoded_val_lt h.price
  size := encoded_val_lt h.size
  identity := rfl

theorem ZkWasm.serializeScalar_eq (f : Fr) : ZkWasm.serializeScalar f = (Client.scalarToBeBytes f).reverse := rfl

theorem ZkWasm.decodeHexField_of_notMem {name value : String} (h : 'x' ∉ value.toList) (h' : 'X' ∉ value.toList) :
    ZkWasm.decodeHexField name value = orError (hexDecode value.toList) (.hex name) := by
  unfold ZkWasm.decodeHexField
  split
  next cs hcs => simp [hcs] at h
  next cs hcs => simp [hcs] at h'
  next => rfl

/-- `prove_order` always commits to the engine's element, with its bytes the other way round. -/
theorem ZkWasm.proveOrder_commits (h : Encodable d) (hi : i.Of env libs d) (b : Bytes) :
    (∃ r, ZkWasm.proveOrder env libs i.witnessJson i.pkBytes = .ok r ∧ r.commitment = b) ↔
      (Client.scalarToBeBytes (commitmentFor env (d.trader.toNat : Fr) d)).reverse = b := by
  obtain ⟨salt, hsalt, hscalar⟩ := h.salt
  obtain ⟨⟨hlength, hdigits⟩, hdecode, -⟩ := parseLowercaseHex32_ok hsalt
  obtain ⟨prove, hpk, hprove⟩ := hi.proves
  obtain ⟨proof, hproof⟩ := hprove _ (proveOrder_circuit h)
  have hlower : ∀ c ∈ d.salt.toList, isLowercaseHexDigit c = true := List.all_eq_true.mp hdigits
  have hx : 'x' ∉ d.salt.toList := fun hmem => absurd (hlower _ hmem) (by decide)
  have hX : 'X' ∉ d.salt.toList := fun hmem => absurd (hlower _ hmem) (by decide)
  obtain ⟨digits, hs, haddr⟩ := hexDecode_of_address hi.trader.1 hi.trader.2
  have htrader : ZkWasm.decodeHexField "trader_addr" i.payload.trader = .ok (addressBytes d.trader) := by
    simp [ZkWasm.decodeHexField, hs, haddr, orError]
  have hsaltBytes : ZkWasm.decodeHexField "salt_hex" d.salt = .ok salt.toVec := by
    rw [ZkWasm.decodeHexField_of_notMem hx hX, hdecode, orError]
  have hid : deriveTraderId env (addressBytes d.trader) = .ok (env.poseidon [(d.trader.toNat : Fr)]) := by
    simp [deriveTraderId, bytesToScalar_addressBytes]
  have haddrLength : (addressBytes d.trader).length = 20 := Radix.length_toBytes 20 _
  have hside : ¬ 1 < d.side.code := by
    cases d.side with
    | buy => decide
    | sell => decide
  have hrun : ZkWasm.proveOrder env libs i.witnessJson i.pkBytes =
      .ok ⟨proof, (Client.scalarToBeBytes (commitmentFor env (d.trader.toNat : Fr) d)).reverse⟩ := by
    simp only [ZkWasm.proveOrder, hi.witness, orError, ok_bind, htrader, haddrLength, bytesToScalar_addressBytes, hid,
      mapErr, hside, hi.price, hi.size, h.price, h.size, hsaltBytes, Bytes32.length_toVec, hscalar, hpk, hproof, ne_eq,
      not_true_eq_false, if_false, pure, Except.pure, commitNative_eq, ZkWasm.serializeScalar_eq]
  simp only [hrun, exists_ok_and]

end Clients

/-- The key is not blank, its bytes encode an identity under which the order has the commitment it has under
the address, and that commitment reads the same from both ends. -/
structure CommitsAlike (env : Env) (d : DecryptedOrder) : Prop where
  named : ∃ c ∈ d.commitmentKey.toList, isWhitespace c = false
  identity : ∃ f, bytesToScalar (utf8Bytes d.commitmentKey) = .ok f ∧
    commitmentFor env f d = commitmentFor env (d.trader.toNat : Fr) d
  palindrome : (Client.scalarToBeBytes (commitmentFor env (d.trader.toNat : Fr) d)).reverse =
    Client.scalarToBeBytes (commitmentFor env (d.trader.toNat : Fr) d)

theorem trim_isEmpty_eq_false {cs : List Char} : (trim cs).isEmpty = false ↔ ∃ c ∈ cs, isWhitespace c = false := by
  have hempty : trim cs = [] ↔ ∀ c ∈ cs, isWhitespace c = true := by
    simp only [trim, List.reverse_eq_nil_iff, List.dropWhile_eq_nil_iff, List.mem_reverse]
    constructor
    · intro h
      -- what is left of the text begins with a character that is no white space
      rw [← List.dropWhile_eq_nil_iff]
      by_contra hne
      have hfirst := List.head_dropWhile_not isWhitespace hne
      rw [h _ (List.head_mem hne)] at hfirst
      exact absurd hfirst (by decide)
    · intro h c hc
      exact h c ((List.dropWhile_suffix _).subset hc)
  rw [← Bool.not_eq_true, List.isEmpty_iff, hempty]
  simp

theorem scalarToBeBytes_inj {f g : Fr} : Client.scalarToBeBytes f = Client.scalarToBeBytes g ↔ f = g := by
  constructor
  · intro h
    rw [scalarToBeBytes_eq, scalarToBeBytes_eq] at h
    have hbytes := congrArg BitVec.toNat (Bytes32.toVec_injective h)
    rw [frToBytes32_toNat, frToBytes32_toNat] at hbytes
    exact ZMod.val_injective scalarModulus hbytes
  · rintro rfl
    rfl

/-- The clients commit to an order that passed the checks of the engine as the engine does exactly where the
key stands for the address and the commitment is a palindrome. -/
theorem clients_commit_iff (env : Env) (libs : ClientLibs) (p : PreparedOrder env) (i : ClientInputs)
    (hi : i.Of env libs p.plaintext) :
    ClientsCommit env libs i p.plaintext p.secrets.commitment.toVec ↔ CommitsAlike env p.plaintext := by
  obtain ⟨hencodable, hcommitment⟩ := p.valid.encodable
  rw [hcommitment, ← scalarToBeBytes_eq]
  have hprepare := Client.prepareOrder_commits hencodable hi
  have hcompute := computeCommitmentWasm_commits hencodable hi (b := Client.scalarToBeBytes
    (commitmentFor env (p.plaintext.trader.toNat : Fr) p.plaintext)) (Radix.length_toBytes 32 _)
  have hprove := ZkWasm.proveOrder_commits hencodable hi
  simp only [scalarToBeBytes_inj] at hcompute
  constructor
  · intro h
    exact ⟨trim_isEmpty_eq_false.mp ((hprepare _).mp h.prepareOrder).1, hcompute.mp h.computeCommitment,
      (hprove _).mp h.proveOrder⟩
  · intro h
    exact ⟨(hprepare _).mpr ⟨trim_isEmpty_eq_false.mpr h.named, rfl⟩, hcompute.mpr h.identity,
      (hprove _).mpr h.palindrome⟩

namespace Scenario

/-- A key as the browser draws it: thirty-two bytes, written as sixty-four digits. -/
def webKey : String := randomHex (Vector.replicate 32 171)

def keyed (commitmentKey : String) (poseidon : List Fr → Fr) : Env :=
  { env with
    decrypt := fun _ => some { plaintext 1 .buy 1 with commitmentKey := commitmentKey }
    poseidon := poseidon }

def listing : List Action := [.registerPair "ETH-USDC" (PairConfig.new 100 200) now 0 true]

/-- The checks of the engine on the order, in the state that the listing leaves. -/
def passedChecks (env : Env) : Option (PreparedOrder env) :=
  (Transition.run World.step (World.initial env) listing).bind (fun w =>
    (prepareOrder env w.state [1] [] 1 11 now 50 0).toOption)

/-- The order rests on the book. -/
def admitted (env : Env) : Bool :=
  (Transition.run World.step (World.initial env) (listing ++
    [.placeOrder [1] [] 1, .prepareOrder 0 11 now (some (50, 0)), .persistOrder 0 0 true])).any
    (fun w => (w.state.book.findOrder 11).isSome)

end Scenario

open Scenario in
/-- The engine admits an order with a key of the browser, and with no texts, keys or libraries do all clients
commit to it: `compute_commitment_wasm` takes the sixty-four bytes of the key for a field element. -/
theorem clients_diverge :
    admitted (keyed webKey env.poseidon) = true ∧ ∃ p, passedChecks (keyed webKey env.poseidon) = some p ∧
      ∀ libs i b, ¬ ClientsCommit (keyed webKey env.poseidon) libs i p.plaintext b := by
  refine ⟨by decide +kernel, ?_⟩
  have hchecked : (passedChecks (keyed webKey env.poseidon)).any (fun p => p.plaintext.commitmentKey == webKey) = true := by
    decide +kernel
  obtain ⟨p, hp, hkey⟩ := (Option.any_eq_true _ _).mp hchecked
  refine ⟨p, hp, ?_⟩
  intro libs i b h
  have hlong : bytesToScalar (utf8Bytes webKey) = .error (.fieldElementTooLong 64) := by decide
  have hcompute := h.computeCommitment
  rw [beq_iff_eq.mp hkey] at hcompute
  simp [computeCommitmentWasm, Client.deriveTraderId, Client.bytesToScalar, hlong, mapErr, bind, Except.bind] at hcompute

namespace Scenario

/-- Libraries that read the texts of one order, and keys that work. -/
def libs : ClientLibs where
  decimalFromStr := fun s => if s = "10" then some 10 else if s = "1" then some 1 else none
  encrypt := fun _ _ => some [1]
  readWitness := fun _ => some ⟨formatAddress 1, 0, "10", "1", hex32 1⟩
  deserializePk := fun _ => some (fun _ => some [9])

def inputs : ClientInputs where
  operatorPubkey := List.replicate 33 2
  payload := ⟨formatAddress 1, "ETH-USDC", .buy, 10, 1, "key", hex32 1, hex32 1, 1000, 5⟩
  price := "10"
  size := "1"
  witnessJson := "order"
  pkBytes := []

end Scenario

open Scenario in
/-- Under a hash with one value the clients agree. -/
theorem clients_commit_iff_constant :
    ∃ p, passedChecks (keyed "key" (fun _ => 0)) = some p ∧ inputs.Of (keyed "key" (fun _ => 0)) libs p.plaintext ∧
      ClientsCommit (keyed "key" (fun _ => 0)) libs inputs p.plaintext p.secrets.commitment.toVec := by
  have hchecked : (passedChecks (keyed "key" (fun _ => 0))).any (fun p => decide (p.plaintext = plaintext 1 .buy 1)) = true := by
    decide +kernel
  obtain ⟨p, hp, hplain⟩ := (Option.any_eq_true _ _).mp hchecked
  have hplaintext : p.plaintext = plaintext 1 .buy 1 := of_decide_eq_true hplain
  have hi : inputs.Of (keyed "key" (fun _ => 0)) libs p.plaintext := by
    rw [hplaintext]
    exact ⟨by decide, rfl, rfl, rfl, rfl, ⟨[1], rfl⟩, ⟨fun _ => some [9], rfl, fun _ _ => ⟨[9], rfl⟩⟩⟩
  refine ⟨p, hp, hi, (clients_commit_iff _ libs p inputs hi).mpr ?_⟩
  rw [hplaintext]
  exact ⟨⟨'k', by decide, by decide⟩, ⟨_, rfl, rfl⟩, by decide⟩

end DarkPool
