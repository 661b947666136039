import DarkPool.Log
import DarkPool.Lib.RecordLog

namespace DarkPool

def maxRecordBytes : Nat := 16 * 1024 * 1024

/-- An open log file. `written` is what the writer was given, in the file or still in its buffer, of which
the first `synced` bytes are durable. Once a compaction has renamed its file over the log and failed to
switch the handle to it, `renamed` is what the path names. -/
structure FileStore where
  written : Bytes
  synced : Nat
  events : List Event
  seq : Nat
  renamed : Option Bytes

/-- Where the writing of a record fails, and how much of the piece was written by then. -/
inductive RecordFault
  | serialize
  | length (kept : Nat)
  | payload (kept : Nat)

/-- Which steps of an append go through: the write of a record may fail, and so may the flush and the sync. -/
structure AppendOutcome where
  write : Option (Nat × RecordFault)
  flush : Bool
  sync : Bool

def AppendOutcome.success : AppendOutcome := ⟨none, true, true⟩

/-- The fallible steps of a compaction, in order. -/
inductive CompactStep
  | flush
  | sync
  | openTmp
  | writeTmp
  | flushTmp
  | syncTmp
  | rename
  | reopen
  | seek
  | clone
  deriving DecidableEq

/-- The step comes after the rename. -/
def CompactStep.afterRename : CompactStep → Bool
  | .reopen | .seek | .clone => true
  | _ => false

structure AppendCall where
  clock : DateTime
  events : List Event
  outcome : AppendOutcome

namespace FileStore

variable (codec : RecordCodec Event)

/-- The events of a file, the last sequence number and the offset behind the last record. -/
def loadAndTruncate (file : Bytes) : Except Nat (List Event × Nat × Nat) :=
  (codec.load maxRecordBytes file 0).map (fun r => (r.1, r.1.foldl (fun seq e => max seq e.seq) 0, r.2))

def openFile (file : Bytes) : Except Nat FileStore :=
  (loadAndTruncate codec file).map (fun r =>
    { written := file.take r.2.2, synced := r.2.2, events := r.1, seq := r.2.1, renamed := none })

/-- A store on a new file. -/
def fresh : FileStore := ⟨[], 0, [], 0, none⟩

/-- The bytes a failing write leaves behind. -/
def faultBytes (e : Event) : RecordFault → Bytes
  | .serialize => []
  | .length kept => (RecordCodec.lengthBytes (codec.serialize e).length).take kept
  | .payload kept => RecordCodec.lengthBytes (codec.serialize e).length ++ (codec.serialize e).take kept

/-- The loop over the records: what is written, and whether it comes to its end. -/
def writeRecords : Option (Nat × RecordFault) → List Event → Bytes × Bool
  | _, [] => ([], true)
  | some (0, fault), e :: _ => (faultBytes codec e fault, false)
  | some (n + 1, fault), e :: es =>
    let rest := writeRecords (some (n, fault)) es
    (codec.frame e ++ rest.1, rest.2)
  | none, e :: es =>
    let rest := writeRecords none es
    (codec.frame e ++ rest.1, rest.2)

/-- The sequence numbers are assigned before anything is written. The events are returned with them. -/
def append (s : FileStore) (call : AppendCall) : FileStore × Option (List Event) :=
  let stamped := Store.stamp call.clock s.seq call.events
  let loop := writeRecords codec call.outcome.write stamped
  let s' := { s with seq := s.seq + call.events.length, written := s.written ++ loop.1 }
  if loop.2 && call.outcome.flush && call.outcome.sync then
    ({ s' with synced := s'.written.length, events := s.events ++ stamped }, some stamped)
  else (s', none)

def readFrom (s : FileStore) (afterSeq limit : Nat) : Option (List Event) := Store.readFrom ⟨s.events, s.seq⟩ afterSeq limit

def lastSeq (s : FileStore) : Nat := s.seq

/-- The rewritten log replaces the old one by a rename, after which the handle is switched. -/
def compactBefore (s : FileStore) (beforeSeq : Nat) (fault : Option CompactStep) : FileStore × Bool :=
  if beforeSeq = 0 then (s, true)
  else
    let kept := s.events.filter (fun e => beforeSeq ≤ e.seq)
    let durable := { s with synced := s.written.length }
    match fault with
    | none => (⟨codec.frames kept, (codec.frames kept).length, kept, s.seq, none⟩, true)
    | some .flush | some .sync => (s, false)
    | some step =>
      if step.afterRename then ({ durable with renamed := some (codec.frames kept) }, false) else (durable, false)

/-- What the path names. The buffer is flushed when the store is closed or dropped. -/
def onDisk (s : FileStore) : Bytes := s.renamed.getD s.written

def reopen (s : FileStore) : Except Nat FileStore := openFile codec s.onDisk

end FileStore

section Loaded

variable {codec : RecordCodec Event}

theorem maxRecordBytes_lt : maxRecordBytes < 2 ^ 32 := by decide

theorem foldl_max_seq {n : Nat} {events : List Event} (h : Numbered n events) (m : Nat) (hm : m ≤ n) :
    events.foldl (fun seq e => max seq e.seq) m = if events = [] then m else n + events.length := by
  induction events generalizing n m with
  | nil => rfl
  | cons e events ih =>
    obtain ⟨he, hrest⟩ := numbered_cons.mp h
    have hmax : max m e.seq = n + 1 := by omega
    rw [List.foldl_cons, hmax, ih hrest (n + 1) le_rfl, List.length_cons]
    by_cases hnil : events = []
    · simp [hnil]
    · simp only [hnil, if_false, reduceCtorEq]
      omega

end Loaded

end DarkPool
