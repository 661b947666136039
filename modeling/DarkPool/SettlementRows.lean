import DarkPool.Aggregator
import DarkPool.Legs
import DarkPool.Submitter

namespace DarkPool

section Hex

theorem trimStart0x_of_notMem {cs : List Char} (h : 'x' ∉ cs) : trimStart0x cs = cs := by
  unfold trimStart0x
  split
  next => simp at h
  next => rfl

theorem x_notMem_toHex (n x : Nat) : 'x' ∉ Radix.toHex n x := by
  intro hmem
  obtain ⟨d, hd, hchar⟩ := List.mem_map.mp hmem
  have hlt : d < 16 := Radix.lt_of_mem_toDigits (by omega) hd
  have hne : ∀ d < 16, Nat.digitChar d ≠ 'x' := by decide
  exact hne d hlt hchar

theorem hexField_hexEncode (n x : Nat) (h : x < 256 ^ n) :
    hexField (hexEncode (Radix.toBytes n x)) = some (Radix.toBytes n x) := by
  have hdigits : (hexEncode (Radix.toBytes n x)).toList = Radix.toHex (2 * (Radix.toBytes n x).length)
      (Radix.ofBytes (Radix.toBytes n x)) := String.toList_ofList
  rw [hexField, trimStart0x_of_notMem, hexDecode_hexEncode n x h]
  rw [hdigits]
  exact x_notMem_toHex _ _

theorem traderAddrScalar_hexEncode (field : String) (a : Address) :
    traderAddrScalar field (hexEncode (addressBytes a)) = .ok (a.toNat : Fr) := by
  have hlt : a.toNat < 256 ^ 20 := by have := a.isLt; omega
  rw [traderAddrScalar, addressBytes, hexField_hexEncode 20 _ hlt]
  simp [bytesToScalar, Radix.ofBytes_toBytes 20 _ hlt, mapErr]

end Hex

/-- The tuple of a match between the traders of its orders. -/
structure ScalarsOf (orders : Table Uuid Order) (m : Match) (r : SettlementRow) : Prop where
  bidAddr : (orders.lookup m.bid.orderId).map (fun o => (o.trader.toNat : Fr)) = some r.bidAddr
  askAddr : (orders.lookup m.ask.orderId).map (fun o => (o.trader.toNat : Fr)) = some r.askAddr
  price : decimalToScalar m.price = .ok r.price
  size : decimalToScalar m.size = .ok r.size

section Witness

variable {secrets : Table Uuid OrderSecrets} {orders : Table Uuid Order} {m : Match} {mw : MatchWitness}

theorem orderFor_eq_ok {id : Uuid} {o : Order} (h : orderFor orders id = .ok o) : orders.lookup id = some o := by
  unfold orderFor at h
  split at h
  next o' ho =>
    cases Except.ok.inj h
    exact ho
  next => simp at h

/-- A leg witness carries the address of the trader of its order. -/
theorem buildMatchWitness_addr (h : buildMatchWitness secrets orders m = .ok mw) :
    ∃ bid ask, orders.lookup m.bid.orderId = some bid ∧ orders.lookup m.ask.orderId = some ask ∧
      mw.bid.traderAddr = hexEncode (addressBytes bid.trader) ∧ mw.ask.traderAddr = hexEncode (addressBytes ask.trader) := by
  simp only [buildMatchWitness, bind_eq_ok] at h
  obtain ⟨bs, -, as, -, bid, hbid, ask, hask, h⟩ := h
  cases Except.ok.inj h
  exact ⟨bid, ask, orderFor_eq_ok hbid, orderFor_eq_ok hask, rfl, rfl⟩

theorem legRow_addr {field : String} {leg : OrderLegWitness} {trader salt : Fr} {row : CircuitLeg}
    (h : legRow field leg trader salt = .ok row) : traderAddrScalar field leg.traderAddr = .ok row.traderAddr := by
  simp only [legRow, bind_eq_ok] at h
  obtain ⟨lp, -, bal, -, pos, -, addr, haddr, size, -, h⟩ := h
  cases Except.ok.inj h
  exact haddr

/-- A row of the circuit's inputs has the tuple of its match. -/
theorem matchRow_scalars (hwitness : buildMatchWitness secrets orders m = .ok mw) {row : CircuitMatchNative}
    (h : matchRow mw m.price m.size = .ok row) : ScalarsOf orders m row.settlementRow ∧ row.isActive = 1 := by
  obtain ⟨bid, ask, hbid, hask, hbaddr, haaddr⟩ := buildMatchWitness_addr hwitness
  simp only [matchRow, bind_eq_ok, mapErr_eq_ok] at h
  obtain ⟨bt, -, bs, -, at_, -, as, -, bleg, hbleg, aleg, haleg, price, hprice, size, hsize, h⟩ := h
  have hb := legRow_addr hbleg
  have ha := legRow_addr haleg
  rw [hbaddr, traderAddrScalar_hexEncode] at hb
  rw [haaddr, traderAddrScalar_hexEncode] at ha
  cases Except.ok.inj h
  refine ⟨⟨?_, ?_, hprice, hsize⟩, rfl⟩
  · rw [hbid, Option.map_some, Except.ok.inj hb]
    rfl
  · rw [hask, Option.map_some, Except.ok.inj ha]
    rfl

end Witness

section Inputs

variable {env : Env}

theorem attachRow_eq_ok {admitted : List Fr} {row row' : CircuitMatchNative} (h : attachRow env admitted row = .ok row') :
    row'.settlementRow = row.settlementRow ∧ row'.isActive = row.isActive := by
  unfold attachRow at h
  split at h
  next =>
    cases Except.ok.inj h
    exact ⟨rfl, rfl⟩
  next =>
    simp only [bind_eq_ok] at h
    obtain ⟨bp, -, ap, -, h⟩ := h
    cases Except.ok.inj h
    exact ⟨rfl, rfl⟩

/-- The inputs of a fold have the tuples of the aggregation in their active rows, and padding in the others. -/
structure Encodes (p : PendingAggregation) (ext : AuctionExternalInputs) : Prop where
  scalars : List.Forall₂ (ScalarsOf p.orders) p.matchList ext.settlementRows
  active : ∀ r ∈ ext.rows, r.isActive = 0 ∨ r.isActive = 1

theorem buildRows_rows {witness : BatchWitness} {prices sizes : List Decimal} {batchSize : Nat} {ext : AuctionExternalInputs}
    (h : buildRows witness prices sizes batchSize = .ok ext) :
    witness.matchList.length = prices.length ∧ prices.length = sizes.length ∧ ∃ rows,
      (witness.matchList.zip (prices.zip sizes)).mapM (fun r => matchRow r.1 r.2.1 r.2.2) = .ok rows ∧
      ext.rows = rows ++ List.replicate (batchSize - rows.length) CircuitMatchNative.default := by
  simp only [buildRows, guard_eq_ok, bind_eq_ok] at h
  obtain ⟨-, -, hlen, ms, -, mp, -, h⟩ := h
  rw [not_or, not_not, not_not] at hlen
  refine ⟨hlen.1, hlen.2, ?_⟩
  split at h
  next =>
    obtain ⟨pl, hpl, -⟩ := bind_eq_ok.mp h
    simp at hpl
  next limit hlimit =>
    obtain ⟨pl, -, h⟩ := bind_eq_ok.mp h
    obtain ⟨rows, hrows, h⟩ := bind_eq_ok.mp h
    refine ⟨rows, hrows, ?_⟩
    split at h
    next =>
      cases Except.ok.inj h
      rfl
    next p ps =>
      obtain ⟨cp, -, h⟩ := bind_eq_ok.mp h
      cases Except.ok.inj h
      rfl

theorem settlementRows_append {ext : AuctionExternalInputs} {rows pads : List CircuitMatchNative}
    (hrows : ext.rows = rows ++ pads) (hactive : ∀ r ∈ rows, r.isActive = 1) (hpads : ∀ r ∈ pads, r.isActive = 0) :
    ext.settlementRows = rows.map CircuitMatchNative.settlementRow := by
  have hne : (0 : Fr) ≠ 1 := by decide
  rw [AuctionExternalInputs.settlementRows, hrows, List.filter_append,
    List.filter_eq_self.mpr (fun r hr => decide_eq_true (hactive r hr)),
    List.filter_eq_nil_iff.mpr (fun r hr => by rw [hpads r hr]; simpa using hne), List.append_nil]

/-- Attaching the membership paths changes neither the tuples nor which rows are active. -/
theorem settlementRows_attach {ext ext' : AuctionExternalInputs} {admitted : List Fr}
    (h : List.Forall₂ (fun r r' => attachRow env admitted r = .ok r') ext.rows ext'.rows) :
    ext'.settlementRows = ext.settlementRows := by
  unfold AuctionExternalInputs.settlementRows
  generalize ext.rows = xs at h ⊢
  generalize ext'.rows = ys at h ⊢
  induction h with
  | nil => rfl
  | cons hrow hrest ih =>
    obtain ⟨htuple, hactive⟩ := attachRow_eq_ok hrow
    rw [List.filter_cons, List.filter_cons, hactive]
    split
    next => rw [List.map_cons, List.map_cons, htuple, ih]
    next => exact ih

theorem matchRows_scalars {secrets : Table Uuid OrderSecrets} {orders : Table Uuid Order} {ms : List Match}
    {legs : List MatchWitness} {rows : List CircuitMatchNative}
    (hlegs : List.Forall₂ (fun m mw => buildMatchWitness secrets orders m = .ok mw) ms legs)
    (hrows : List.Forall₂ (fun r row => matchRow r.1 r.2.1 r.2.2 = .ok row)
      (legs.zip ((ms.map Match.price).zip (ms.map Match.size))) rows) :
    List.Forall₂ (fun m row => ScalarsOf orders m row.settlementRow ∧ row.isActive = 1) ms rows := by
  induction hlegs generalizing rows with
  | nil =>
    cases hrows
    exact .nil
  | cons hleg hlegs ih =>
    cases hrows with
    | cons hrow hrest => exact .cons (matchRow_scalars hleg hrow) (ih hrest)

/-- What the prover is given for an aggregation encodes its matches. -/
theorem encodes_of_inputs {p : PendingAggregation} {secrets : Table Uuid OrderSecrets} {witness : BatchWitness}
    {admitted : List Fr} {ext : AuctionExternalInputs}
    (hwitness : buildBatchWitness secrets p.batchId p.auctionId p.matchList p.orders = .ok witness)
    (h : fromWitnessWithAdmitted env witness (p.matchList.map Match.price) (p.matchList.map Match.size) engineBatchSize
      admitted = .ok ext) : Encodes p ext := by
  simp only [buildBatchWitness, bind_eq_ok] at hwitness
  obtain ⟨legs, hlegs, hwitness⟩ := hwitness
  cases Except.ok.inj hwitness
  simp only [fromWitnessWithAdmitted, attachMembership, bind_eq_ok] at h
  obtain ⟨ext0, hbuild, root, -, rows', hattach, h⟩ := h
  cases Except.ok.inj h
  obtain ⟨-, -, rows, hrows, hext0⟩ := buildRows_rows hbuild
  have hmatch := matchRows_scalars (mapM_forall₂ hlegs) (mapM_forall₂ hrows)
  have hactive : ∀ r ∈ rows, r.isActive = 1 := by
    intro r hr
    obtain ⟨m, -, hm⟩ := exists_of_mem_right hmatch hr
    exact hm.2
  have hpads : ∀ r ∈ List.replicate (engineBatchSize - rows.length) CircuitMatchNative.default, r.isActive = 0 := by
    intro r hr
    rw [List.eq_of_mem_replicate hr]
    rfl
  refine ⟨?_, ?_⟩
  · rw [settlementRows_attach (mapM_forall₂ hattach), settlementRows_append hext0 hactive hpads]
    exact List.forall₂_map_right_iff.mpr (hmatch.imp (fun _ _ h => h.1))
  · intro r hr
    obtain ⟨r0, hr0, hattached⟩ := exists_of_mem_right (mapM_forall₂ hattach) hr
    rw [(attachRow_eq_ok hattached).2]
    rw [hext0] at hr0
    exact (List.mem_append.mp hr0).elim (fun hr0 => Or.inr (hactive r0 hr0)) (fun hr0 => Or.inl (hpads r0 hr0))

/-- The chain of the circuit is the chain over the tuples of the active rows. -/
theorem foldl_settlementAcc {rows : List CircuitMatchNative} (hactive : ∀ r ∈ rows, r.isActive = 0 ∨ r.isActive = 1) (acc : Fr) :
    rows.foldl (settlementAcc env) acc =
      settlementChainNative env acc ((rows.filter (fun r => r.isActive = 1)).map CircuitMatchNative.settlementRow) := by
  have hne : (0 : Fr) ≠ 1 := by decide
  induction rows generalizing acc with
  | nil => rfl
  | cons r rows ih =>
    have hrest := ih (fun r' hr' => hactive r' (List.mem_cons_of_mem r hr'))
    rw [List.foldl_cons, hrest, List.filter_cons]
    rcases hactive r List.mem_cons_self with hr | hr
    · rw [if_neg (by rw [hr]; simpa using hne), settlementAcc, hr]
      ring_nf
    · rw [if_pos (by rw [hr]; simp), List.map_cons, settlementAcc, hr]
      simp [settlementChainNative]

end Inputs

section Batch

variable {orders : Table Uuid Order} {ms : List Match} {sms : List SettlementMatch} {rows : List SettlementRow}

theorem settlementRow_of_scalars {m : Match} {sm : SettlementMatch} {r : SettlementRow} (hrow : RowOf orders m sm)
    (hscalars : ScalarsOf orders m r) : settlementRow sm = .ok r := by
  obtain ⟨bid, hbid, hbt⟩ := Option.map_eq_some_iff.mp hrow.bidTrader
  obtain ⟨ask, hask, hat⟩ := Option.map_eq_some_iff.mp hrow.askTrader
  have hb := hscalars.bidAddr
  have ha := hscalars.askAddr
  rw [hbid, Option.map_some, hbt, Option.some.injEq] at hb
  rw [hask, Option.map_some, hat, Option.some.injEq] at ha
  rw [settlementRow, hrow.price, hrow.size, hscalars.price, hscalars.size, hb, ha]
  rfl

/-- The tuples that were folded are those of the settlement rows. -/
theorem settlementRows_of_scalars (hrows : List.Forall₂ (RowOf orders) ms sms)
    (hscalars : List.Forall₂ (ScalarsOf orders) ms rows) : sms.mapM settlementRow = .ok rows := by
  induction hrows generalizing rows with
  | nil =>
    cases hscalars
    rfl
  | cons hrow hrest ih =>
    cases hscalars with
    | cons hscalar hscalars =>
      rw [List.mapM_cons, settlementRow_of_scalars hrow hscalar, ih hscalars]
      rfl

end Batch

section Chain

variable {env : Env} {d : Deployment}

/-- The contract hashes the tuples as the prover does, and starts from the prover's domain. -/
structure Deployment.Mirrors (d : Deployment) (env : Env) (settlementDomain : Fr) : Prop where
  domain : d.settlementDomain = settlementDomain.val
  poseidon : ∀ acc bid ask price size : Fr,
    d.poseidon5 acc.val bid.val ask.val price.val size.val = (env.poseidon [acc, bid, ask, price, size]).val

/-- An amount on the circuit's grid is exact in wei. -/
theorem decimalToWei_of_scalar {x : Decimal} {f : Fr} (h : decimalToScalar x = .ok f) :
    decimalToWei x = .ok (f.val * weiToCircuitScale) := by
  obtain ⟨n, hn, hx, rfl⟩ := decimalToScalar_eq_ok.mp h
  have hlt : n < 2 ^ 60 := hn
  have hval : ((n : Fr)).val = n := ZMod.val_natCast_of_lt (hlt.trans (by decide))
  have hscaled : x * 10 ^ 18 = ((n * weiToCircuitScale : Nat) : ℚ) := by
    have hsplit : x * 10 ^ 18 = x * scaleFactor * 10 ^ 10 := by
      norm_num [scaleFactor]
      ring
    rw [hsplit, hx]
    push_cast [weiToCircuitScale]
    ring
  have hpos : ¬ x < 0 := by
    intro hneg
    have hlt := mul_neg_of_neg_of_pos hneg (by norm_num : (0 : ℚ) < 10 ^ 18)
    rw [hscaled] at hlt
    exact absurd hlt (not_lt.mpr (Nat.cast_nonneg _))
  have hbound : n * weiToCircuitScale < 2 ^ 256 := by
    rw [weiToCircuitScale]
    omega
  rw [decimalToWei, if_neg hpos, hval]
  simp only [hscaled, Rat.num_natCast, Rat.den_natCast, Int.toNat_natCast, ne_eq, not_true_eq_false, if_false, if_pos hbound]

theorem toNat_val (a : Address) : ((a.toNat : Fr)).val = a.toNat := by
  have hlt := a.isLt
  have hmod : 2 ^ 160 < scalarModulus := by decide
  exact ZMod.val_natCast_of_lt (hlt.trans hmod)

theorem settlementMatchToSol_of_row {sm : SettlementMatch} {r : SettlementRow} (h : settlementRow sm = .ok r) :
    ∃ m, settlementMatchToSol sm = .ok m ∧ m.bidTrader.toNat = r.bidAddr.val ∧ m.askTrader.toNat = r.askAddr.val ∧
      m.price = r.price.val * weiToCircuitScale ∧ m.size = r.size.val * weiToCircuitScale := by
  simp only [settlementRow, bind_eq_ok] at h
  obtain ⟨price, hprice, size, hsize, h⟩ := h
  cases Except.ok.inj h
  refine ⟨⟨uuidToBytes32 sm.bidOrderId, uuidToBytes32 sm.askOrderId, sm.bidTrader, sm.askTrader, sm.baseToken,
    sm.quoteToken, price.val * weiToCircuitScale, size.val * weiToCircuitScale⟩, ?_, (toNat_val _).symm, (toNat_val _).symm,
    rfl, rfl⟩
  have hgrid : ∀ f : Fr, f.val * weiToCircuitScale % weiToCircuitScale = 0 := fun f => Nat.mul_mod_left _ _
  rw [settlementMatchToSol, decimalToWei_of_scalar hprice, decimalToWei_of_scalar hsize]
  refine bind_eq_ok.mpr ⟨_, rfl, bind_eq_ok.mpr ⟨_, rfl, ?_⟩⟩
  rw [if_neg (by rw [hgrid, hgrid]; exact fun h => h.elim (fun h => h rfl) (fun h => h rfl))]
  rfl

/-- The contract recomputes the chain of the prover. -/
theorem settlementChain_of_rows {domain : Fr} (hd : d.Mirrors env domain) {sms : List SettlementMatch}
    {rows : List SettlementRow} (h : List.Forall₂ (fun sm r => settlementRow sm = .ok r) sms rows) (acc : Fr) :
    ∃ ms, sms.mapM settlementMatchToSol = .ok ms ∧
      settlementChain d acc.val ms = .ok (settlementChainNative env acc rows).val := by
  have hscale : 0 < weiToCircuitScale := by decide
  induction h generalizing acc with
  | nil => exact ⟨[], rfl, rfl⟩
  | @cons sm r sms rows hrow hrest ih =>
    obtain ⟨m, hm, hbid, hask, hprice, hsize⟩ := settlementMatchToSol_of_row hrow
    obtain ⟨ms, hms, hchain⟩ := ih (r.chain env acc)
    refine ⟨m :: ms, by rw [List.mapM_cons, hm, hms]; rfl, ?_⟩
    rw [settlementChain, hprice, hsize, hbid, hask, Nat.mul_mod_left, Nat.mul_mod_left, Nat.mul_div_cancel _ hscale,
      Nat.mul_div_cancel _ hscale, hd.poseidon]
    exact hchain

end Chain

end DarkPool
