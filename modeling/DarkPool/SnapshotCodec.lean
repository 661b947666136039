import DarkPool.Admission
import DarkPool.Lib.Positional
import DarkPool.SnapshotEnvelope
import Mathlib.Data.Finset.Sort

namespace DarkPool

inductive BincodeError
  | deserializeAnyNotSupported
  | unexpectedEof
  | invalidTagEncoding (tag : UInt8)
  | invalidValue

abbrev Bincode (α : Type) := Codec BincodeError α

/-- The forms of the values that the libraries define, each read back as it was written. `decimal` is the
form of `decimal_bincode`; `text` is the one a `Decimal` has on its own. -/
structure BincodeLeaves where
  u8 : Bincode UInt8
  u32 : Bincode Nat
  u64 : Bincode Nat
  string : Bincode String
  uuid : Bincode Uuid
  address : Bincode Address
  dateTime : Bincode DateTime
  duration : Bincode Duration
  u256 : Bincode (BitVec 256)
  bytes32 : Bincode Bytes32
  decimal : Bincode Decimal
  text : Decimal → Bytes
  exact_u8 : u8.Exact
  exact_u32 : u32.Exact
  exact_u64 : u64.Exact
  exact_string : string.Exact
  exact_uuid : uuid.Exact
  exact_address : address.Exact
  exact_dateTime : dateTime.Exact
  exact_duration : duration.Exact
  exact_u256 : u256.Exact
  exact_bytes32 : bytes32.Exact
  exact_decimal : decimal.Exact

def bincodeOption {α : Type} (c : Bincode α) : Bincode (Option α) :=
  Codec.option .unexpectedEof .invalidTagEncoding c

/-- A `HashMap` is written entry by entry and read by inserting them. -/
def tableOfEntries {K V : Type} [DecidableEq K] (l : List (K × V)) : Table K V :=
  l.foldl (fun t e => t.insert e.1 e.2) ∅

def tableListing {K V : Type} (t : Table K V) : List (K × V) := (t.entries.map (fun e => (e.1, e.2))).reverse

/-- A `HashSet` is written in some order. -/
def setOfItems (l : List Bytes32) : Finset Bytes32 := l.foldl (fun s x => insert x s) ∅

namespace BincodeLeaves

variable (b : BincodeLeaves)

/-- A `Decimal` without `decimal_bincode`: its reader asks for `deserialize_any`. -/
def rawDecimal : Bincode Decimal := Codec.unreadable b.text .deserializeAnyNotSupported

def vec {α : Type} (c : Bincode α) : Bincode (List α) := Codec.list b.u64 c

def hashMap {K V : Type} [DecidableEq K] (k : Bincode K) (v : Bincode V) : Bincode (Table K V) :=
  (b.vec (k.pair v)).imap tableOfEntries tableListing

def hashSet : Bincode (Finset Bytes32) := (b.vec b.bytes32).imap setOfItems (fun s => s.sort (· ≤ ·))

def side : Bincode Side :=
  b.u8.emap (fun n => if n = 0 then .ok .buy else if n = 1 then .ok .sell else .error .invalidValue)
    (fun s => UInt8.ofNat s.code)

def pairStatus : Bincode PairStatus :=
  b.u32.emap
    (fun n => if n = 0 then .ok .active else if n = 1 then .ok .suspended else if n = 2 then .ok .delisted
      else .error .invalidValue)
    (fun s => match s with
      | .active => 0
      | .suspended => 1
      | .delisted => 2)

def order : Bincode Order :=
  (b.uuid.pair (b.address.pair (b.string.pair (b.side.pair (b.decimal.pair (b.decimal.pair (b.decimal.pair
    (b.string.pair ((b.vec b.u8).pair (b.dateTime.pair (b.dateTime.pair b.u64))))))))))).imap
    (fun (id, trader, pair, side, price, size, remainingSize, commitmentKey, encryptedPayload, submittedAt, expiresAt,
      seq) => ⟨id, trader, pair, side, price, size, remainingSize, commitmentKey, encryptedPayload, submittedAt,
        expiresAt, seq⟩)
    (fun o => (o.id, o.trader, o.pair, o.side, o.price, o.size, o.remainingSize, o.commitmentKey, o.encryptedPayload,
      o.submittedAt, o.expiresAt, o.seq))

def perPairBook : Bincode PerPairBook :=
  ((b.hashMap b.uuid b.order).pair (b.hashMap b.uuid b.order)).imap (fun (bids, asks) => ⟨bids, asks⟩)
    (fun book => (book.bids, book.asks))

def bookSnapshot : Bincode OrderBook :=
  ((b.hashMap b.string b.perPairBook).pair b.u64).imap (fun (books, seq) => ⟨books, seq⟩)
    (fun inner => (inner.books, inner.seq))

def pairConfig : Bincode PairConfig :=
  (b.address.pair (b.address.pair (b.u8.pair (b.u8.pair (b.rawDecimal.pair (b.rawDecimal.pair
    ((bincodeOption b.duration).pair b.pairStatus))))))).imap
    (fun (baseToken, quoteToken, baseDecimals, quoteDecimals, minOrderSize, tickSize, auctionInterval, status) =>
      ⟨baseToken, quoteToken, baseDecimals, quoteDecimals, minOrderSize, tickSize, auctionInterval, status⟩)
    (fun c => (c.baseToken, c.quoteToken, c.baseDecimals, c.quoteDecimals, c.minOrderSize, c.tickSize,
      c.auctionInterval, c.status))

def auctionExecutedRecord : Bincode AuctionExecutedRecord :=
  (b.uuid.pair (b.string.pair (b.rawDecimal.pair (b.rawDecimal.pair (b.u32.pair b.dateTime))))).imap
    (fun (auctionId, pair, clearingPrice, matchedVolume, matchCount, timestamp) =>
      ⟨auctionId, pair, clearingPrice, matchedVolume, UInt32.ofNat matchCount, timestamp⟩)
    (fun r => (r.auctionId, r.pair, r.clearingPrice, r.matchedVolume, r.matchCount.toNat, r.timestamp))

def fill : Bincode Fill :=
  (b.uuid.pair b.decimal).imap (fun (orderId, size) => ⟨orderId, size⟩) (fun f => (f.orderId, f.size))

def matched : Bincode Match :=
  (b.fill.pair (b.fill.pair (b.rawDecimal.pair b.rawDecimal))).imap
    (fun (bid, ask, price, size) => ⟨bid, ask, price, size⟩)
    (fun m => (m.bid, m.ask, m.price, m.size))

def settlementMatch : Bincode SettlementMatch :=
  (b.uuid.pair (b.uuid.pair (b.address.pair (b.address.pair (b.address.pair (b.address.pair
    (b.rawDecimal.pair b.rawDecimal))))))).imap
    (fun (bidOrderId, askOrderId, bidTrader, askTrader, baseToken, quoteToken, price, size) =>
      ⟨bidOrderId, askOrderId, bidTrader, askTrader, baseToken, quoteToken, price, size⟩)
    (fun r => (r.bidOrderId, r.askOrderId, r.bidTrader, r.askTrader, r.baseToken, r.quoteToken, r.price, r.size))

/-- The number of the variant comes first. -/
def proofPayload : Bincode ProofPayload :=
  (b.u32.pair ((b.vec b.u8).pair ((Codec.array .unexpectedEof 5 b.bytes32).pair
    ((Codec.array .unexpectedEof 5 b.bytes32).pair (b.u64.pair b.bytes32))))).emap
    (fun (variant, proofBytes, z0, zN, nSteps, policyHash) =>
      if variant = 0 then .ok ⟨proofBytes, z0, zN, nSteps, policyHash⟩ else .error .invalidValue)
    (fun p => (0, p.proofBytes, p.z0, p.zN, p.nSteps, p.policyHash))

/-- An absent `ivc_payload` is not written at all, and read all the same. -/
def pendingBatch : Bincode PendingBatch :=
  (b.uuid.pair (b.uuid.pair ((b.vec b.matched).pair ((b.vec b.settlementMatch).pair ((b.vec b.u8).pair
    ((Codec.array .unexpectedEof 6 b.u256).pair ((bincodeOption b.proofPayload).skipNone.pair (b.u32.pair
      ((Codec.skip none).pair (Codec.skip false)))))))))).imap
    (fun (batchId, auctionId, matchList, settlementMatches, proof, publicInputs, ivcPayload, attempts, nextAttempt,
      submitting) => ⟨batchId, auctionId, matchList, settlementMatches, proof, publicInputs, ivcPayload, attempts,
        nextAttempt, submitting⟩)
    (fun pb => (pb.batchId, pb.auctionId, pb.matchList, pb.settlementMatches, pb.proof, pb.publicInputs, pb.ivcPayload,
      pb.attempts, pb.nextAttempt, pb.submitting))

def serializableState : Bincode SerializableState :=
  (b.bookSnapshot.pair ((b.hashMap b.string b.pairConfig).pair ((b.vec b.auctionExecutedRecord).pair
    ((b.hashMap b.uuid b.pendingBatch).pair (b.hashSet.pair (b.hashSet.pair b.hashSet)))))).imap
    (fun (book, pairTokens, auctionLog, pendingBatches, seenCiphertexts, spentNullifiers, spentOrderNonces) =>
      ⟨book, pairTokens, auctionLog, pendingBatches, seenCiphertexts, spentNullifiers, spentOrderNonces⟩)
    (fun s => (s.book, s.pairTokens, s.auctionLog, s.pendingBatches, s.seenCiphertexts, s.spentNullifiers,
      s.spentOrderNonces))

/-- `bincode::serialize` and `bincode::deserialize`, which leaves trailing bytes unread. -/
def codec (message : BincodeError → String) : StateCodec SerializableState where
  serialize s := .ok (b.serializableState.put s)
  deserialize bytes :=
    match b.serializableState.get bytes with
    | .ok (s, _) => .ok s
    | .error e => .error (message e)

end BincodeLeaves

theorem tableOfEntries_tableListing {K V : Type} [DecidableEq K] (t : Table K V) :
    tableOfEntries (tableListing t) = t := by
  obtain ⟨l, hl⟩ := t
  unfold tableOfEntries tableListing
  rw [List.foldl_reverse]
  induction l with
  | nil => rfl
  | cons e l ih =>
    obtain ⟨hhead, htail⟩ := List.nodupKeys_cons.mp hl
    rw [List.map_cons, List.foldr_cons, ih htail]
    refine AList.ext ?_
    exact AList.entries_insert_of_notMem hhead

theorem setOfItems_eq (l : List Bytes32) : setOfItems l = l.toFinset := by
  have hfold : ∀ s : Finset Bytes32, l.foldl (fun s x => insert x s) s = s ∪ l.toFinset := by
    induction l with
    | nil => simp
    | cons x l ih =>
      intro s
      rw [List.foldl_cons, ih, List.toFinset_cons, Finset.insert_union, Finset.union_insert]
  rw [setOfItems, hfold, Finset.empty_union]

section Reads

variable (b : BincodeLeaves)

namespace BincodeLeaves

theorem exact_vec {α : Type} {c : Bincode α} (h : c.Exact) : (b.vec c).Exact := Codec.Exact.list b.exact_u64 h

theorem exact_hashMap {K V : Type} [DecidableEq K] {k : Bincode K} {v : Bincode V} (hk : k.Exact) (hv : v.Exact) :
    (b.hashMap k v).Exact := (b.exact_vec (hk.pair hv)).imap tableOfEntries_tableListing

theorem exact_hashSet : b.hashSet.Exact :=
  (b.exact_vec b.exact_bytes32).imap (fun s => by rw [setOfItems_eq, Finset.sort_toFinset])

theorem exact_side : b.side.Exact :=
  b.exact_u8.emap (fun s => by cases s <;> rfl)

theorem exact_order : b.order.Exact :=
  (b.exact_uuid.pair (b.exact_address.pair (b.exact_string.pair (b.exact_side.pair (b.exact_decimal.pair
    (b.exact_decimal.pair (b.exact_decimal.pair (b.exact_string.pair ((b.exact_vec b.exact_u8).pair
      (b.exact_dateTime.pair (b.exact_dateTime.pair b.exact_u64))))))))))).imap (fun _ => rfl)

theorem exact_perPairBook : b.perPairBook.Exact :=
  ((b.exact_hashMap b.exact_uuid b.exact_order).pair (b.exact_hashMap b.exact_uuid b.exact_order)).imap (fun _ => rfl)

/-- The resting orders survive: their decimals have a form of their own. -/
theorem exact_bookSnapshot : b.bookSnapshot.Exact :=
  ((b.exact_hashMap b.exact_string b.exact_perPairBook).pair b.exact_u64).imap (fun _ => rfl)

theorem empty_reads {K V : Type} [DecidableEq K] (k : Bincode K) (v : Bincode V) : (b.hashMap k v).Reads ∅ ∅ := by
  refine Codec.Reads.imap_self ?_ rfl
  exact Codec.nil_reads b.exact_u64 (k.pair v)

theorem rawDecimal_refuses (d : Decimal) : b.rawDecimal.Refuses d := Codec.unreadable_refuses _ _ d

theorem pairConfig_refuses (c : PairConfig) : b.pairConfig.Refuses c := by
  refine Codec.Refuses.imap ?_
  exact (b.exact_address _).pair_refuses ((b.exact_address _).pair_refuses ((b.exact_u8 _).pair_refuses
    ((b.exact_u8 _).pair_refuses ((b.rawDecimal_refuses _).pair _))))

/-- A map is given up at its first entry. -/
theorem hashMap_refuses {K V : Type} [DecidableEq K] {k : Bincode K} {v : Bincode V} (hk : k.Exact) {t : Table K V}
    (hv : ∀ key value, t.lookup key = some value → v.Refuses value) (hne : t ≠ ∅) : (b.hashMap k v).Refuses t := by
  refine Codec.Refuses.imap ?_
  cases hlisting : tableListing t with
  | nil =>
    have hempty := tableOfEntries_tableListing t
    rw [hlisting] at hempty
    exact absurd hempty.symm hne
  | cons e l =>
    have hmem : e ∈ tableListing t := hlisting ▸ List.mem_cons_self
    obtain ⟨entry, hentry, rfl⟩ := List.mem_map.mp (List.mem_reverse.mp hmem)
    exact Codec.Refuses.list b.exact_u64 ((hk _).pair_refuses (hv _ _ (Table.mem_entries.mp hentry))) l

/-- Nothing but resting orders and spent keys. -/
def Bare (s : SerializableState) : Prop := s.pairTokens = ∅ ∧ s.auctionLog = [] ∧ s.pendingBatches = ∅

variable {b} {s : SerializableState}

theorem Bare.reads (h : Bare s) : b.serializableState.Reads s s := by
  obtain ⟨hpairs, hlog, hpending⟩ := h
  refine Codec.Reads.imap_self ?_ rfl
  refine (b.exact_bookSnapshot _).pair (Codec.Reads.pair ?_ (Codec.Reads.pair ?_ (Codec.Reads.pair ?_
    ((b.exact_hashSet _).pair ((b.exact_hashSet _).pair (b.exact_hashSet _))))))
  · rw [hpairs]
    exact b.empty_reads _ _
  · rw [hlog]
    exact Codec.nil_reads b.exact_u64 _
  · rw [hpending]
    exact b.empty_reads _ _

theorem refuses_of_pair (hpairs : s.pairTokens ≠ ∅) : b.serializableState.Refuses s := by
  refine Codec.Refuses.imap ((b.exact_bookSnapshot _).pair_refuses (Codec.Refuses.pair ?_ _))
  exact b.hashMap_refuses b.exact_string (fun _ config _ => b.pairConfig_refuses config) hpairs

end BincodeLeaves

end Reads

end DarkPool
