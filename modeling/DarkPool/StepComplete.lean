import DarkPool.AdmittedSet
import DarkPool.RowIntegers
import DarkPool.SettlementRows

namespace DarkPool

/-- The rows as the circuit allocates them: always as many as its width, with padding after those given. -/
def AuctionExternalInputs.allocate (ext : AuctionExternalInputs) : AuctionExternalInputs :=
  { ext with rows := ext.rows ++ List.replicate (ivcBatchSize - ext.rows.length) CircuitMatchNative.default }

def OrderLegWitness.positionInt (leg : OrderLegWitness) : ℤ := (parseInt leg.position).getD 0

def Policy.limitInt (policy : Policy) : ℤ := (parseInt policy.positionLimit).getD 0

/-- A match of crossing orders within their sizes, whose legs can pay and stay within the position limit. -/
structure HonestMatch (policy : Policy) (m : MatchWitness) (price size : Decimal) : Prop where
  crosses : m.ask.limitPrice ≤ price ∧ price ≤ m.bid.limitPrice
  atLeastMin : policy.minSize ≤ size
  withinOrders : size ≤ m.bid.orderSize ∧ size ≤ m.ask.orderSize
  solvent : price * size ≤ m.bid.balance ∧ size ≤ m.ask.balance
  bidLimited : |(m.bid.positionInt : ℚ) + size * scaleFactor| ≤ policy.limitInt
  askLimited : |(m.ask.positionInt : ℚ) - size * scaleFactor| ≤ policy.limitInt

structure HonestBatch (w : BatchWitness) (prices sizes : List Decimal) : Prop where
  uniform : ∀ p ∈ prices, ∀ q ∈ prices, p = q
  honest : ∀ x ∈ w.matchList.zip (prices.zip sizes), HonestMatch w.policy x.1 x.2.1 x.2.2

/-- The leg's trader id is that of its address. -/
def OrderLegWitness.Identified (env : Env) (leg : OrderLegWitness) : Prop :=
  ∃ bytes addr idBytes, hexField leg.traderAddr = some bytes ∧ bytesToScalar bytes = .ok addr ∧
    hexField leg.traderId = some idBytes ∧ bytes32ToScalar idBytes = .ok (env.poseidon [addr])

/-- What a match must satisfy besides: the legs are of opposite sides and carry the ids of their addresses,
the bid is not below the price floor, and limit and new positions together stay within 60 bits. -/
structure Provable (env : Env) (policy : Policy) (m : MatchWitness) (size : Decimal) : Prop where
  sides : ((m.bid.side : Fr) = 0 ∨ (m.bid.side : Fr) = 1) ∧ ((m.ask.side : Fr) = 0 ∨ (m.ask.side : Fr) = 1) ∧
    (m.bid.side : Fr) + (m.ask.side : Fr) = 1
  identified : m.bid.Identified env ∧ m.ask.Identified env
  floor : policy.minPrice ≤ m.bid.limitPrice
  bidWindow : (policy.limitInt : ℚ) + |(m.bid.positionInt : ℚ) + size * scaleFactor| < 2 ^ 60
  askWindow : (policy.limitInt : ℚ) + |(m.ask.positionInt : ℚ) - size * scaleFactor| < 2 ^ 60

section Membership

variable {env : Env} {admitted : List Fr}

theorem canonicalLeaves_eq_ok {leaves : List Fr} (h : canonicalLeaves admitted = .ok leaves) :
    Admissible admitted ∧ leaves = padded admitted := by
  simp only [canonicalLeaves, guard_eq_ok] at h
  obtain ⟨hfits, hnone, h⟩ := h
  have hadmissible : Admissible admitted := by
    refine ⟨not_lt.mp hfits, fun c hc hempty => hnone ?_⟩
    exact List.any_eq_true.mpr ⟨c, hc, decide_eq_true hempty⟩
  exact ⟨hadmissible, (Except.ok.inj h).symm⟩

theorem memberPath_eq_ok {leaf root : Fr} {missing : String} {path : MerkleProof}
    (h : memberPath env admitted leaf missing = .ok path) (hroot : admittedSetRoot env admitted = .ok root) :
    path.Allocated ∧ merkleRootVar env leaf path = root := by
  simp only [memberPath, admittedSetProof, bind_eq_ok] at h
  obtain ⟨found, ⟨leaves, hleaves, hfound⟩, h⟩ := h
  obtain ⟨hadmissible, rfl⟩ := canonicalLeaves_eq_ok hleaves
  rw [admittedSetRoot_of_admissible hadmissible] at hroot
  split at hfound
  next =>
    cases Except.ok.inj hfound
    simp at h
  next i hi =>
    cases Except.ok.inj hfound
    cases Except.ok.inj h
    refine ⟨⟨by simp [pathAt], by simp [pathAt]⟩, ?_⟩
    rw [merkleRootVar_eq_rootFromProof, rootFromProof_pathAt hadmissible hi]
    exact Except.ok.inj hroot

/-- An active row gets the paths of its legs, and is otherwise as it was. -/
theorem attachRow_active {root : Fr} {row row' : CircuitMatchNative} (hactive : row.isActive = 1)
    (h : attachRow env admitted row = .ok row') (hroot : admittedSetRoot env admitted = .ok root) :
    row'.bidPath.Allocated ∧ row'.askPath.Allocated ∧ merkleRootVar env (leafOf env row'.bid) row'.bidPath = root ∧
      merkleRootVar env (leafOf env row'.ask) row'.askPath = root ∧ row'.bid = row.bid ∧ row'.ask = row.ask ∧
      row'.matchPrice = row.matchPrice ∧ row'.matchSize = row.matchSize ∧ row'.isActive = 1 := by
  unfold attachRow at h
  rw [if_neg (not_not.mpr hactive)] at h
  simp only [bind_eq_ok] at h
  obtain ⟨bidPath, hbid, askPath, hask, h⟩ := h
  cases Except.ok.inj h
  obtain ⟨hbidAllocated, hbidRoot⟩ := memberPath_eq_ok hbid hroot
  obtain ⟨haskAllocated, haskRoot⟩ := memberPath_eq_ok hask hroot
  exact ⟨hbidAllocated, haskAllocated, hbidRoot, haskRoot, rfl, rfl, rfl, rfl, hactive⟩

end Membership

section Encoding

theorem encodesNat_of_ok {d : Decimal} {f : Fr} (h : decimalToScalar d = .ok f) :
    ∃ n : Nat, EncodesNat f n ∧ d * scaleFactor = n := by
  obtain ⟨n, hn, hd, hf⟩ := decimalToScalar_eq_ok.mp h
  exact ⟨n, ⟨hf, hn⟩, hd⟩

theorem scaleFactor_pos : (0 : ℚ) < scaleFactor := by norm_num [scaleFactor]

theorem le_iff_of_scaled {d d' : Decimal} {n n' : Nat} (h : d * scaleFactor = n) (h' : d' * scaleFactor = n') :
    d ≤ d' ↔ n ≤ n' := by
  rw [← mul_le_mul_iff_left₀ scaleFactor_pos, h, h', Nat.cast_le]

theorem mul_le_iff_of_scaled {price size balance : Decimal} {p q b : Nat} (hp : price * scaleFactor = p)
    (hq : size * scaleFactor = q) (hb : balance * scaleFactor = b) : price * size ≤ balance ↔ p * q ≤ b * 10 ^ 8 := by
  have hnotional : price * size * (scaleFactor * scaleFactor) = ((p * q : Nat) : ℚ) := by
    rw [Nat.cast_mul, ← hp, ← hq]
    ring
  have hbalance : balance * (scaleFactor * scaleFactor) = ((b * 10 ^ 8 : Nat) : ℚ) := by
    rw [Nat.cast_mul, ← hb, show ((10 ^ 8 : Nat) : ℚ) = scaleFactor by norm_num [scaleFactor]]
    ring
  rw [← mul_le_mul_iff_left₀ (mul_pos scaleFactor_pos scaleFactor_pos), hnotional, hbalance, Nat.cast_le]

theorem positionScalar_eq_ok {leg : OrderLegWitness} {f : Fr} (h : positionScalar leg.position = .ok f) :
    EncodesInt f leg.positionInt := by
  unfold positionScalar at h
  split at h
  next => simp at h
  next k hk =>
    rw [OrderLegWitness.positionInt, hk]
    exact signedToScalar_eq_ok h

theorem fieldElement_eq_ok {field value : String} {x : Fr} :
    fieldElement field value = .ok x ↔ ∃ bytes, hexField value = some bytes ∧ bytes32ToScalar bytes = .ok x := by
  unfold fieldElement
  split
  next hnone => simp [hnone]
  next bytes hbytes => simp [hbytes]

theorem traderAddrScalar_eq_ok {field value : String} {x : Fr} :
    traderAddrScalar field value = .ok x ↔ ∃ bytes, hexField value = some bytes ∧ bytesToScalar bytes = .ok x := by
  unfold traderAddrScalar
  split
  next hnone => simp [hnone]
  next bytes hbytes => simp [hbytes]

theorem identified_iff {env : Env} {leg : OrderLegWitness} {idField addrField : String} {trader addr : Fr}
    (htrader : fieldElement idField leg.traderId = .ok trader)
    (haddr : traderAddrScalar addrField leg.traderAddr = .ok addr) :
    leg.Identified env ↔ trader = env.poseidon [addr] := by
  obtain ⟨idBytes, hid, htrader⟩ := fieldElement_eq_ok.mp htrader
  obtain ⟨bytes, hbytes, haddr⟩ := traderAddrScalar_eq_ok.mp haddr
  constructor
  · rintro ⟨bytes', addr', idBytes', hbytes', haddr', hid', htrader'⟩
    cases Option.some.inj (hbytes.symm.trans hbytes')
    cases Option.some.inj (hid.symm.trans hid')
    cases Except.ok.inj (haddr.symm.trans haddr')
    exact Except.ok.inj (htrader.symm.trans htrader')
  · rintro rfl
    exact ⟨bytes, addr, idBytes, hbytes, haddr, hid, htrader⟩

/-- The integers and names that a leg of a row is encoded from. -/
structure LegEncodes (addrField : String) (leg : OrderLegWitness) (row : CircuitLeg) : Prop where
  limitPrice : decimalToScalar leg.limitPrice = .ok row.limitPrice
  balance : decimalToScalar leg.balance = .ok row.balance
  orderSize : decimalToScalar leg.orderSize = .ok row.orderSize
  position : EncodesInt row.position leg.positionInt
  side : row.side = (leg.side : Fr)
  traderAddr : traderAddrScalar addrField leg.traderAddr = .ok row.traderAddr

theorem legRow_eq_ok {field : String} {leg : OrderLegWitness} {trader salt : Fr} {row : CircuitLeg}
    (h : legRow field leg trader salt = .ok row) : LegEncodes field leg row ∧ row.trader = trader := by
  simp only [legRow, bind_eq_ok, mapErr_eq_ok] at h
  obtain ⟨limitPrice, hlimitPrice, balance, hbalance, position, hposition, addr, haddr, orderSize, horderSize, h⟩ := h
  cases Except.ok.inj h
  exact ⟨⟨hlimitPrice, hbalance, horderSize, positionScalar_eq_ok hposition, rfl, haddr⟩, rfl⟩

structure RowEncodes (m : MatchWitness) (price size : Decimal) (row : CircuitMatchNative) : Prop where
  bid : LegEncodes "bid trader_addr" m.bid row.bid
  ask : LegEncodes "ask trader_addr" m.ask row.ask
  bidTrader : fieldElement "bid trader_id" m.bid.traderId = .ok row.bid.trader
  askTrader : fieldElement "ask trader_id" m.ask.traderId = .ok row.ask.trader
  price : decimalToScalar price = .ok row.matchPrice
  size : decimalToScalar size = .ok row.matchSize
  active : row.isActive = 1

theorem matchRow_eq_ok {m : MatchWitness} {price size : Decimal} {row : CircuitMatchNative}
    (h : matchRow m price size = .ok row) : RowEncodes m price size row := by
  simp only [matchRow, bind_eq_ok, mapErr_eq_ok] at h
  obtain ⟨bidTrader, hbidTrader, bidSalt, -, askTrader, haskTrader, askSalt, -, bid, hbid, ask, hask, p, hp, q, hq, h⟩ := h
  cases Except.ok.inj h
  obtain ⟨hbid, hbidId⟩ := legRow_eq_ok hbid
  obtain ⟨hask, haskId⟩ := legRow_eq_ok hask
  exact ⟨hbid, hask, hbidId ▸ hbidTrader, haskId ▸ haskTrader, hp, hq, rfl⟩

end Encoding

/-- The policy as the inputs carry it. -/
structure PolicyEncodes (policy : Policy) (ext : AuctionExternalInputs) : Prop where
  minSize : decimalToScalar policy.minSize = .ok ext.minSize
  minPrice : decimalToScalar policy.minPrice = .ok ext.minPrice
  limit : EncodesInt ext.positionLimit policy.limitInt

/-- The constraints on the row of an honest match hold when the match is provable. -/
theorem honest_row_iff {env : Env} {ext : AuctionExternalInputs} {policy : Policy} {m : MatchWitness}
    {price size : Decimal} {row : CircuitMatchNative} (hpolicy : PolicyEncodes policy ext)
    (hrow : RowEncodes m price size row) (hpaths : row.bidPath.Allocated ∧ row.askPath.Allocated)
    (hmember : merkleRootVar env (leafOf env row.bid) row.bidPath = ext.admittedRoot ∧
      merkleRootVar env (leafOf env row.ask) row.askPath = ext.admittedRoot)
    (hclears : row.matchPrice = ext.clearingPrice) (hhonest : HonestMatch policy m price size) :
    RowConstraints env ext row ↔ Provable env policy m size := by
  obtain ⟨minSize, hminSize, hminSizeEq⟩ := encodesNat_of_ok hpolicy.minSize
  obtain ⟨minPrice, hminPrice, hminPriceEq⟩ := encodesNat_of_ok hpolicy.minPrice
  obtain ⟨p, hp, hpEq⟩ := encodesNat_of_ok hrow.price
  obtain ⟨q, hq, hqEq⟩ := encodesNat_of_ok hrow.size
  obtain ⟨bidPrice, hbidPrice, hbidPriceEq⟩ := encodesNat_of_ok hrow.bid.limitPrice
  obtain ⟨askPrice, haskPrice, haskPriceEq⟩ := encodesNat_of_ok hrow.ask.limitPrice
  obtain ⟨bidOrder, hbidOrder, hbidOrderEq⟩ := encodesNat_of_ok hrow.bid.orderSize
  obtain ⟨askOrder, haskOrder, haskOrderEq⟩ := encodesNat_of_ok hrow.ask.orderSize
  obtain ⟨bidBalance, hbidBalance, hbidBalanceEq⟩ := encodesNat_of_ok hrow.bid.balance
  obtain ⟨askBalance, haskBalance, haskBalanceEq⟩ := encodesNat_of_ok hrow.ask.balance
  let v : RowInts ext row :=
    ⟨minSize, minPrice, policy.limitInt, p, q, bidPrice, askPrice, bidOrder, askOrder, bidBalance, askBalance,
      m.bid.positionInt, m.ask.positionInt, hminSize, hminPrice, hpolicy.limit, hp, hq, hbidPrice, haskPrice,
      hbidOrder, haskOrder, hbidBalance, haskBalance, hrow.bid.position, hrow.ask.position⟩
  have hbidNew : |(m.bid.positionInt : ℚ) + size * scaleFactor| = ((|m.bid.positionInt + q| : ℤ) : ℚ) := by
    rw [hqEq]
    push_cast
    rfl
  have haskNew : |(m.ask.positionInt : ℚ) - size * scaleFactor| = ((|m.ask.positionInt - q| : ℤ) : ℚ) := by
    rw [hqEq]
    push_cast
    rfl
  have hvalid : v.Valid := {
    crosses := ⟨(le_iff_of_scaled haskPriceEq hpEq).mp hhonest.crosses.1,
      (le_iff_of_scaled hpEq hbidPriceEq).mp hhonest.crosses.2⟩
    atLeastMin := (le_iff_of_scaled hminSizeEq hqEq).mp hhonest.atLeastMin
    withinOrders := ⟨(le_iff_of_scaled hqEq hbidOrderEq).mp hhonest.withinOrders.1,
      (le_iff_of_scaled hqEq haskOrderEq).mp hhonest.withinOrders.2⟩
    solvent := ⟨(mul_le_iff_of_scaled hpEq hqEq hbidBalanceEq).mp hhonest.solvent.1,
      (le_iff_of_scaled hqEq haskBalanceEq).mp hhonest.solvent.2⟩
    bidLimited := by
      have hle := hhonest.bidLimited
      rw [hbidNew] at hle
      exact_mod_cast hle
    askLimited := by
      have hle := hhonest.askLimited
      rw [haskNew] at hle
      exact_mod_cast hle }
  have hidentified : Identified env row ↔ m.bid.Identified env ∧ m.ask.Identified env := by
    rw [identified_iff hrow.bidTrader hrow.bid.traderAddr, identified_iff hrow.askTrader hrow.ask.traderAddr]
    rfl
  have hsides : SideBits row ↔ ((m.bid.side : Fr) = 0 ∨ (m.bid.side : Fr) = 1) ∧
      ((m.ask.side : Fr) = 0 ∨ (m.ask.side : Fr) = 1) ∧ (m.bid.side : Fr) + (m.ask.side : Fr) = 1 := by
    rw [← hrow.bid.side, ← hrow.ask.side]
    rfl
  have hfits : v.Fits ↔ policy.minPrice ≤ m.bid.limitPrice ∧
      (policy.limitInt : ℚ) + |(m.bid.positionInt : ℚ) + size * scaleFactor| < 2 ^ 60 ∧
      (policy.limitInt : ℚ) + |(m.ask.positionInt : ℚ) - size * scaleFactor| < 2 ^ 60 := by
    rw [hbidNew, haskNew, le_iff_of_scaled hminPriceEq hbidPriceEq]
    constructor
    · rintro ⟨hfloor, hbid, hask⟩
      exact ⟨hfloor, by exact_mod_cast hbid, by exact_mod_cast hask⟩
    · rintro ⟨hfloor, hbid, hask⟩
      exact ⟨hfloor, by exact_mod_cast hbid, by exact_mod_cast hask⟩
  rw [v.constraints_iff hrow.active hpaths hclears hmember, hsides, hidentified, hfits]
  constructor
  · rintro ⟨hs, hi, -, hfloor, hbid, hask⟩
    exact ⟨hs, hi, hfloor, hbid, hask⟩
  · rintro ⟨hs, hi, hfloor, hbid, hask⟩
    exact ⟨hs, hi, hvalid, hfloor, hbid, hask⟩

section Inputs

variable {env : Env} {w : BatchWitness} {prices sizes : List Decimal} {batchSize : Nat} {admitted : List Fr}
  {ext : AuctionExternalInputs}

/-- What `build_rows` makes of the policy and of the prices. -/
theorem buildRows_policy (h : buildRows w prices sizes batchSize = .ok ext) :
    batchSize ≤ ivcBatchSize ∧ w.matchList.length ≤ batchSize ∧ PolicyEncodes w.policy ext ∧
      ∀ p ∈ prices.head?, decimalToScalar p = .ok ext.clearingPrice := by
  simp only [buildRows, guard_eq_ok, bind_eq_ok, mapErr_eq_ok] at h
  obtain ⟨hwidth, hlength, -, minSize, hminSize, minPrice, hminPrice, h⟩ := h
  refine ⟨not_lt.mp hwidth, not_lt.mp hlength, ?_⟩
  split at h
  next =>
    obtain ⟨limit, hlimit, -⟩ := bind_eq_ok.mp h
    simp at hlimit
  next k hk =>
    obtain ⟨limit, hlimit, h⟩ := bind_eq_ok.mp h
    obtain ⟨rows, -, h⟩ := bind_eq_ok.mp h
    have hlimitInt : EncodesInt limit w.policy.limitInt := by
      rw [Policy.limitInt, hk]
      exact signedToScalar_eq_ok (mapErr_eq_ok.mp hlimit)
    split at h
    next =>
      cases Except.ok.inj h
      exact ⟨⟨hminSize, hminPrice, hlimitInt⟩, by simp⟩
    next p ps =>
      obtain ⟨cp, hcp, h⟩ := bind_eq_ok.mp h
      cases Except.ok.inj h
      exact ⟨⟨hminSize, hminPrice, hlimitInt⟩, by simpa using mapErr_eq_ok.mp hcp⟩

theorem exists_of_mem_left {α β : Type} {R : α → β → Prop} {xs : List α} {ys : List β} (h : List.Forall₂ R xs ys) {x : α}
    (hx : x ∈ xs) : ∃ y ∈ ys, R x y :=
  exists_of_mem_right (R := fun y x => R x y) h.flip hx

/-- The rows of inputs built from an honest batch: one for each match, satisfied when the match is
provable, and padding. -/
structure HonestRows (env : Env) (w : BatchWitness) (prices sizes : List Decimal) (ext : AuctionExternalInputs) : Prop where
  width : ext.rows.length ≤ ivcBatchSize
  rowOf : ∀ x ∈ w.matchList.zip (prices.zip sizes), ∃ row ∈ ext.rows,
    RowConstraints env ext.allocate row ↔ Provable env w.policy x.1 x.2.2
  matchOf : ∀ row ∈ ext.rows, row = CircuitMatchNative.default ∨ ∃ x ∈ w.matchList.zip (prices.zip sizes),
    RowConstraints env ext.allocate row ↔ Provable env w.policy x.1 x.2.2

theorem honestRows_of_ok (hext : fromWitnessWithAdmitted env w prices sizes batchSize admitted = .ok ext)
    (hhonest : HonestBatch w prices sizes) : HonestRows env w prices sizes ext := by
  simp only [fromWitnessWithAdmitted, attachMembership, bind_eq_ok] at hext
  obtain ⟨ext0, hbuild, root, hroot, rows', hattach, hext⟩ := hext
  cases Except.ok.inj hext
  obtain ⟨hwidth, hfits, hpolicy, hclearing⟩ := buildRows_policy hbuild
  obtain ⟨hprices, hsizes, rows, hrows, hext0⟩ := buildRows_rows hbuild
  replace hrows := mapM_forall₂ hrows
  replace hattach := mapM_forall₂ hattach
  -- A row that a match is encoded in, with its paths attached.
  have hrow : ∀ x ∈ w.matchList.zip (prices.zip sizes), ∀ row row', matchRow x.1 x.2.1 x.2.2 = .ok row →
      attachRow env admitted row = .ok row' →
      (RowConstraints env (AuctionExternalInputs.allocate { ext0 with admittedRoot := root, rows := rows' }) row' ↔
        Provable env w.policy x.1 x.2.2) := by
    intro x hx row row' hmatch hrow'
    have hencodes := matchRow_eq_ok hmatch
    obtain ⟨hbidPath, haskPath, hbidRoot, haskRoot, hbid, hask, hprice, hsize, hactive⟩ :=
      attachRow_active hencodes.active hrow' hroot
    have hclears : row'.matchPrice = ext0.clearingPrice := by
      have hmem : x.2.1 ∈ prices := (List.of_mem_zip (List.of_mem_zip hx).2).1
      obtain ⟨p, ps, rfl⟩ := List.exists_cons_of_ne_nil (List.ne_nil_of_mem hmem)
      have hp := hclearing p rfl
      rw [hhonest.uniform p List.mem_cons_self x.2.1 hmem, hencodes.price] at hp
      rw [hprice]
      exact Except.ok.inj hp
    refine honest_row_iff ⟨hpolicy.minSize, hpolicy.minPrice, hpolicy.limit⟩ ?_ ⟨hbidPath, haskPath⟩ ⟨hbidRoot, haskRoot⟩
      hclears (hhonest.honest x hx)
    exact ⟨hbid ▸ hencodes.bid, hask ▸ hencodes.ask, hbid ▸ hencodes.bidTrader, hask ▸ hencodes.askTrader,
      hprice ▸ hencodes.price, hsize ▸ hencodes.size, hactive⟩
  refine ⟨?_, fun x hx => ?_, fun row' hrow' => ?_⟩
  · have hlen := hrows.length_eq
    rw [← hattach.length_eq, hext0, List.length_append, List.length_replicate, ← hlen]
    simp only [List.length_zip, ← hsizes, ← hprices, Nat.min_self]
    omega
  · obtain ⟨row, hmem, hmatch⟩ := exists_of_mem_left hrows hx
    have hmem0 : row ∈ ext0.rows := by
      rw [hext0]
      exact List.mem_append_left _ hmem
    obtain ⟨row', hmem', hrow'⟩ := exists_of_mem_left hattach hmem0
    exact ⟨row', hmem', hrow x hx row row' hmatch hrow'⟩
  · obtain ⟨row, hmem, hattached⟩ := exists_of_mem_right hattach hrow'
    rw [hext0] at hmem
    rcases List.mem_append.mp hmem with hmem | hmem
    · obtain ⟨x, hx, hmatch⟩ := exists_of_mem_right hrows hmem
      exact Or.inr ⟨x, hx, hrow x hx row row' hmatch hattached⟩
    · rw [List.eq_of_mem_replicate hmem, attachRow, if_pos (by decide)] at hattached
      exact Or.inl (Except.ok.inj hattached).symm

/-- Under the policy of the state, the inputs built from an honest batch satisfy the circuit exactly when each
of its matches is provable. -/
theorem stepConstraints_complete_iff (hext : fromWitnessWithAdmitted env w prices sizes batchSize admitted = .ok ext)
    (hhonest : HonestBatch w prices sizes) {z : Vector Fr 5}
    (hz : env.poseidon [ext.minSize, ext.minPrice, ext.positionLimit] = z.get zPolicy) :
    StepConstraints env ext.allocate z ↔
      ∀ x ∈ w.matchList.zip (prices.zip sizes), Provable env w.policy x.1 x.2.2 := by
  have hrows := honestRows_of_ok hext hhonest
  constructor
  · intro h x hx
    obtain ⟨row, hrow, hiff⟩ := hrows.rowOf x hx
    exact hiff.mp (h.rows row (List.mem_append_left _ hrow))
  · intro h
    have hwidth := hrows.width
    refine ⟨hz, ?_, fun row hrow => ?_⟩
    · simp only [AuctionExternalInputs.allocate, List.length_append, List.length_replicate]
      omega
    · rcases List.mem_append.mp hrow with hrow | hrow
      · rcases hrows.matchOf row hrow with rfl | ⟨x, hx, hiff⟩
        · exact CircuitMatchNative.default_constraints _
        · exact hiff.mpr (h x hx)
      · rw [List.eq_of_mem_replicate hrow]
        exact CircuitMatchNative.default_constraints _

/-- Inputs are built when the rows are and every leg is admitted. -/
theorem fromWitnessWithAdmitted_total (hbuild : buildRows w prices sizes batchSize = .ok ext)
    (hadmissible : Admissible admitted)
    (hmem : ∀ r ∈ ext.rows, r.isActive = 1 → leafOf env r.bid ∈ admitted ∧ leafOf env r.ask ∈ admitted) :
    ∃ ext', fromWitnessWithAdmitted env w prices sizes batchSize admitted = .ok ext' := by
  have hpath : ∀ leaf ∈ admitted, ∀ missing, ∃ path, memberPath env admitted leaf missing = .ok path := by
    intro leaf hleaf missing
    obtain ⟨i, -, hproof⟩ := @admittedSetProof_of_mem env admitted hadmissible leaf hleaf
    exact ⟨_, by rw [memberPath, hproof]; rfl⟩
  have hattach : ∀ r ∈ ext.rows, ∃ r', attachRow env admitted r = .ok r' := by
    intro r hr
    unfold attachRow
    split
    next => exact ⟨r, rfl⟩
    next hactive =>
      obtain ⟨hbid, hask⟩ := hmem r hr (not_not.mp hactive)
      obtain ⟨bidPath, hbidPath⟩ := hpath _ hbid "matched bid leg absent from admitted set"
      obtain ⟨askPath, haskPath⟩ := hpath _ hask "matched ask leg absent from admitted set"
      exact ⟨_, by rw [hbidPath, haskPath]; rfl⟩
  obtain ⟨rows, hrows⟩ := mapM_total hattach
  obtain ⟨root, hroot⟩ : ∃ root, admittedSetRoot env admitted = .ok root := ⟨_, admittedSetRoot_of_admissible hadmissible⟩
  refine ⟨{ ext with admittedRoot := root, rows := rows }, ?_⟩
  exact bind_eq_ok.mpr ⟨ext, hbuild, bind_eq_ok.mpr ⟨root, hroot, bind_eq_ok.mpr ⟨rows, hrows, rfl⟩⟩⟩

end Inputs

namespace Fills

/-- The leg of the account `addr` for one unit at one, under the plain hash. -/
def legWitness (addr : Nat) (side : Nat) : OrderLegWitness where
  traderId := hexEncode (Bytes32.toVec (BitVec.ofNat 256 (32 + addr)))
  salt := hexEncode (Bytes32.toVec 0)
  balance := 1
  position := formatInt 0
  limitPrice := 1
  orderSize := 1
  side := side
  traderAddr := hexEncode (addressBytes (BitVec.ofNat 160 addr))

/-- One trade of one unit between two accounts without a position. -/
def unitTrade (limit : ℤ) : BatchWitness :=
  ⟨31, 21, [⟨legWitness 1 0, legWitness (2 : Nat) 1⟩], ⟨1, 1, formatInt limit⟩⟩

/-- One, as the encoder scales it. -/
def unit : Nat := 10 ^ 8

def unitRow : CircuitMatchNative where
  bid := ⟨(33 : Nat), 0, unit, 0, unit, 0, 1, unit⟩
  ask := ⟨(34 : Nat), 0, unit, 1, unit, 0, (2 : Nat), unit⟩
  matchPrice := unit
  matchSize := unit
  isActive := 1
  bidPath := MerkleProof.default
  askPath := MerkleProof.default

def unitAdmitted : List Fr := [leafOf plainEnv unitRow.bid, leafOf plainEnv unitRow.ask]

theorem matchRow_unit : matchRow ⟨legWitness 1 0, legWitness (2 : Nat) 1⟩ 1 1 = .ok unitRow := by decide +kernel

theorem buildRows_unitTrade {limit : ℤ} {x : Fr} (hparse : parseInt (formatInt limit) = some limit)
    (hlimit : signedToScalar limit = .ok x) :
    buildRows (unitTrade limit) [1] [1] 1 = .ok ⟨unit, unit, x, unit, 0, [unitRow]⟩ := by
  have hone : decimalToScalar 1 = .ok (unit : Fr) := by decide +kernel
  simp [buildRows, unitTrade, hparse, hlimit, hone, matchRow_unit, ivcBatchSize, bind, Except.bind, mapErr, pure,
    Except.pure]

theorem unitAdmitted_admissible : Admissible unitAdmitted := by
  have hall : unitAdmitted.all (fun c => c != 0) = true := by decide
  exact ⟨by decide, fun c hc => by simpa [emptyLeaf] using List.all_eq_true.mp hall c hc⟩

theorem unitTrade_built {limit : ℤ} {x : Fr} (hparse : parseInt (formatInt limit) = some limit)
    (hlimit : signedToScalar limit = .ok x) :
    ∃ ext, fromWitnessWithAdmitted plainEnv (unitTrade limit) [1] [1] 1 unitAdmitted = .ok ext :=
  fromWitnessWithAdmitted_total (buildRows_unitTrade hparse hlimit) unitAdmitted_admissible
    (by simp [unitAdmitted])

theorem limitInt_unitTrade {limit : ℤ} (hparse : parseInt (formatInt limit) = some limit) :
    (unitTrade limit).policy.limitInt = limit := by
  simp only [Policy.limitInt, unitTrade, hparse, Option.getD_some]

theorem positionInt_legWitness (addr side : Nat) : (legWitness addr side).positionInt = 0 := by
  have hzero : parseInt (formatInt 0) = some 0 := by decide
  simp only [OrderLegWitness.positionInt, legWitness, hzero, Option.getD_some]

theorem unitTrade_honest {limit : ℤ} (hparse : parseInt (formatInt limit) = some limit) (hle : 10 ^ 8 ≤ limit) :
    HonestBatch (unitTrade limit) [1] [1] := by
  have hle' : (10 ^ 8 : ℚ) ≤ limit := by exact_mod_cast hle
  refine ⟨by simp, fun x hx => ?_⟩
  rw [List.mem_singleton.mp hx]
  constructor
  case bidLimited | askLimited =>
    rw [positionInt_legWitness, limitInt_unitTrade hparse]
    norm_num [scaleFactor]
    linarith
  all_goals norm_num [unitTrade, legWitness]

end Fills

/-- A limit just below the encoder's cap, under which a first trade of one unit is well within the limit and
cannot be proved. -/
theorem honest_batch_unprovable : ∃ ext,
    fromWitnessWithAdmitted Fills.plainEnv (Fills.unitTrade (2 ^ 60 - 1)) [1] [1] 1 Fills.unitAdmitted = .ok ext ∧
      HonestBatch (Fills.unitTrade (2 ^ 60 - 1)) [1] [1] ∧
      ¬ StepConstraints Fills.plainEnv ext.allocate (computeZ0 Fills.plainEnv ext 7) := by
  have hparse : parseInt (formatInt (2 ^ 60 - 1)) = some (2 ^ 60 - 1) := by decide
  obtain ⟨x, hlimit⟩ := signedToScalar_isOk (show |(2 ^ 60 - 1 : ℤ)| < maxEncoded by decide)
  obtain ⟨ext, hext⟩ := Fills.unitTrade_built hparse hlimit
  have hhonest := Fills.unitTrade_honest hparse (by norm_num)
  refine ⟨ext, hext, hhonest, fun h => ?_⟩
  obtain ⟨row, hrow, hiff⟩ := (honestRows_of_ok hext hhonest).rowOf _ List.mem_cons_self
  have hwindow := (hiff.mp (h.rows row (List.mem_append_left _ hrow))).bidWindow
  rw [Fills.limitInt_unitTrade hparse, Fills.positionInt_legWitness] at hwindow
  norm_num [scaleFactor] at hwindow

theorem stepConstraints_complete_default : ∃ ext,
    fromWitnessWithAdmitted Fills.plainEnv (Fills.unitTrade (2 ^ 58)) [1] [1] 1 Fills.unitAdmitted = .ok ext ∧
      HonestBatch (Fills.unitTrade (2 ^ 58)) [1] [1] ∧
      StepConstraints Fills.plainEnv ext.allocate (computeZ0 Fills.plainEnv ext 7) := by
  have hparse : parseInt (formatInt (2 ^ 58)) = some (2 ^ 58) := by decide
  obtain ⟨x, hlimit⟩ := signedToScalar_isOk (show |(2 ^ 58 : ℤ)| < maxEncoded by decide)
  obtain ⟨ext, hext⟩ := Fills.unitTrade_built hparse hlimit
  have hhonest := Fills.unitTrade_honest hparse (by norm_num)
  refine ⟨ext, hext, hhonest, (stepConstraints_complete_iff hext hhonest rfl).mpr (fun y hy => ?_)⟩
  rw [List.mem_singleton.mp hy]
  have hrow := matchRow_eq_ok Fills.matchRow_unit
  refine ⟨⟨Or.inl rfl, Or.inr rfl, by decide⟩, ⟨?_, ?_⟩, le_rfl, ?_, ?_⟩
  · exact (identified_iff hrow.bidTrader hrow.bid.traderAddr).mpr (by decide)
  · exact (identified_iff hrow.askTrader hrow.ask.traderAddr).mpr (by decide)
  all_goals
    rw [Fills.limitInt_unitTrade hparse, Fills.positionInt_legWitness]
    norm_num [scaleFactor]

end DarkPool
