import Mathlib.Data.Fin.Basic
import Mathlib.Data.List.Sort
import Mathlib.Order.Fin.Basic
import DarkPool.Lib.Radix
import DarkPool.Lib.Table

namespace DarkPool

/-- A `u64`. -/
abbrev SnapSeq := Fin (2 ^ 64)

abbrev Envelope := List UInt8

abbrev FileName := List Char

/-- A directory; the order of its entries stands for the order in which `read_dir` lists them. -/
abbrev SnapDir := Table FileName Envelope

def snapExt : List Char := ['.', 's', 'n', 'a', 'p']

def tmpExt : List Char := ['.', 't', 'm', 'p']

def seqDigits : Nat := 20

/-- A sequence number padded with zeros. -/
def paddedSeq (seq : SnapSeq) : List Char := (Radix.toDigits 10 seqDigits seq.val).map Nat.digitChar

def pathFor (seq : SnapSeq) : FileName := paddedSeq seq ++ snapExt

/-- `with_extension("tmp")`. -/
def tmpFor (seq : SnapSeq) : FileName := paddedSeq seq ++ tmpExt

def boundedSeq (n : Nat) : Option SnapSeq := if h : n < 2 ^ 64 then some ⟨n, h⟩ else none

/-- `parse::<u64>()`: a plus sign is allowed. -/
def parseSeq : List Char → Option SnapSeq
  | '+' :: cs => (Radix.ofDecimal cs).bind boundedSeq
  | cs => (Radix.ofDecimal cs).bind boundedSeq

/-- The length of a text in bytes. -/
def utf8Length (cs : List Char) : Nat := (cs.map Char.utf8Size).sum

def parseSeqFromFilename (name : FileName) : Option SnapSeq :=
  if snapExt <:+ name then
    let stem := name.take (name.length - snapExt.length)
    if utf8Length stem ≠ seqDigits then none else parseSeq stem
  else none

/-- What goes wrong in a write: an error before the rename, or a crash before or after it. Before the rename
the temporary file holds what was written so far, if it could be opened. -/
inductive WriteFault
  | failed (left : Option Envelope)
  | crashed (left : Option Envelope)
  | crashedAfterRename

inductive SnapshotOp
  | write (seq : SnapSeq) (envelope : Envelope) (fault : Option WriteFault)
  | readLatest
  | readAt (seq : SnapSeq)
  | listSeqs
  | deleteBefore (before : SnapSeq) (failing : Option Nat)

inductive SnapshotReply
  | done
  | latest (found : Option (SnapSeq × Envelope))
  | envelope (found : Option Envelope)
  | seqs (found : List SnapSeq)
  | error
  | silence
  deriving DecidableEq

namespace FileSnapshotStore

def keepTmp (dir : SnapDir) (seq : SnapSeq) (left : Option Envelope) : SnapDir :=
  match left with
  | some bytes => dir.insert (tmpFor seq) bytes
  | none => dir

def rename (dir : SnapDir) (seq : SnapSeq) (envelope : Envelope) : SnapDir :=
  let dir : SnapDir := dir.insert (tmpFor seq) envelope
  let dir : SnapDir := dir.erase (tmpFor seq)
  dir.insert (pathFor seq) envelope

def write (dir : SnapDir) (seq : SnapSeq) (envelope : Envelope) : Option WriteFault → SnapshotReply × SnapDir
  | none => (.done, rename dir seq envelope)
  | some (.failed left) => (.error, keepTmp dir seq left)
  | some (.crashed left) => (.silence, keepTmp dir seq left)
  | some .crashedAfterRename => (.silence, rename dir seq envelope)

def listSeqs (dir : SnapDir) : List SnapSeq := (dir.keys.filterMap parseSeqFromFilename).insertionSort (· ≤ ·)

def readLatest (dir : SnapDir) : SnapshotReply :=
  match (listSeqs dir).getLast? with
  | none => .latest none
  | some seq =>
    match dir.lookup (pathFor seq) with
    | some bytes => .latest (some (seq, bytes))
    | none => .error

/-- The removals, up to the one the system refuses. A file that is gone already counts as removed. -/
def removeBefore (before : SnapSeq) : Option Nat → SnapDir → List SnapSeq → SnapshotReply × SnapDir
  | _, dir, [] => (.done, dir)
  | failing, dir, seq :: seqs =>
    if seq < before then
      match failing with
      | some 0 => (.error, dir)
      | some (n + 1) => removeBefore before (some n) (dir.erase (pathFor seq)) seqs
      | none => removeBefore before none (dir.erase (pathFor seq)) seqs
    else removeBefore before failing dir seqs

def step (dir : SnapDir) : SnapshotOp → SnapshotReply × SnapDir
  | .write seq envelope fault => write dir seq envelope fault
  | .readLatest => (readLatest dir, dir)
  | .readAt seq => (.envelope (dir.lookup (pathFor seq)), dir)
  | .listSeqs => (.seqs (listSeqs dir), dir)
  | .deleteBefore before failing => removeBefore before failing dir (listSeqs dir)

end FileSnapshotStore

/-- The snapshots by their sequence number; `BTreeMap` lists its keys in order. -/
abbrev MemSnapshots := Table SnapSeq Envelope

namespace MemSnapshotStore

def listSeqs (snaps : MemSnapshots) : List SnapSeq := snaps.keys.insertionSort (· ≤ ·)

def readLatest (snaps : MemSnapshots) : Option (SnapSeq × Envelope) :=
  (listSeqs snaps).getLast?.bind (fun seq => (snaps.lookup seq).map (fun bytes => (seq, bytes)))

/-- What `split_off` leaves. -/
def deleteBefore (snaps : MemSnapshots) (before : SnapSeq) : MemSnapshots :=
  snaps.retain (fun seq _ => decide (before ≤ seq))

/-- What a durable store may do: every call as the store in memory does it, except that a write that
fails does nothing, one that crashes happens or not, and a sweep that fails has swept a part. -/
inductive May (snaps : MemSnapshots) : SnapshotOp → SnapshotReply → MemSnapshots → Prop
  | written (seq : SnapSeq) (envelope : Envelope) :
    May snaps (.write seq envelope none) .done (snaps.insert seq envelope)
  | failed (seq : SnapSeq) (envelope : Envelope) (left : Option Envelope) :
    May snaps (.write seq envelope (some (.failed left))) .error snaps
  | lost (seq : SnapSeq) (envelope : Envelope) (fault : WriteFault) :
    May snaps (.write seq envelope (some fault)) .silence snaps
  | crashed (seq : SnapSeq) (envelope : Envelope) (fault : WriteFault) :
    May snaps (.write seq envelope (some fault)) .silence (snaps.insert seq envelope)
  | latest : May snaps .readLatest (.latest (readLatest snaps)) snaps
  | found (seq : SnapSeq) : May snaps (.readAt seq) (.envelope (snaps.lookup seq)) snaps
  | seqs : May snaps .listSeqs (.seqs (listSeqs snaps)) snaps
  | deleted (before : SnapSeq) (failing : Option Nat) :
    May snaps (.deleteBefore before failing) .done (deleteBefore snaps before)
  | partly (before upTo : SnapSeq) (failing : Option Nat) (h : upTo ≤ before) :
    May snaps (.deleteBefore before failing) .error (deleteBefore snaps upTo)

inductive Runs : MemSnapshots → List (SnapshotOp × SnapshotReply) → MemSnapshots → Prop
  | nil (snaps : MemSnapshots) : Runs snaps [] snaps
  | cons {snaps next last : MemSnapshots} {op : SnapshotOp} {reply : SnapshotReply}
    {calls : List (SnapshotOp × SnapshotReply)} (first : May snaps op reply next) (rest : Runs next calls last) :
    Runs snaps ((op, reply) :: calls) last

end MemSnapshotStore

namespace FileSnapshotStore

/-- The calls of a run with their answers, and the directory it leaves. -/
def run : SnapDir → List SnapshotOp → List (SnapshotOp × SnapshotReply) × SnapDir
  | dir, [] => ([], dir)
  | dir, op :: ops => ((op, (step dir op).1) :: (run (step dir op).2 ops).1, (run (step dir op).2 ops).2)

end FileSnapshotStore

end DarkPool
