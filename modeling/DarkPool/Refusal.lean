import Mathlib.Data.List.Sort
import Mathlib.Data.List.TakeWhile
import DarkPool.FileFaults

namespace DarkPool

section Errors

variable {α β : Type} {e : EngineError}

end Errors

section Replay

variable {env : Env}

end Replay

/-- What happens to a log, whatever store keeps it, in the order in which the calls return: an append returns
`Ok` with the sequence numbers the store gave its events, or it returns `Err` after the store used up some
numbers for it, or the log is compacted. -/
inductive LogMove
  | append (events : List Event)
  | fail (numbers : List Nat)
  | compact (beforeSeq : Nat)

/-- The sequence numbers that a move uses up. -/
def LogMove.numbers : LogMove → List Nat
  | .append events => events.map Event.seq
  | .fail numbers => numbers
  | .compact _ => []

def LogMove.read (events : List Event) : LogMove → List Event
  | .append more => events ++ more
  | .fail _ => events
  | .compact beforeSeq => events.filter (fun e => beforeSeq ≤ e.seq)

def usedNumbers (moves : List LogMove) : List Nat := moves.flatMap LogMove.numbers

section Log

variable {moves : List LogMove}

instance : Std.Total (fun e e' : Event => e.seq ≤ e'.seq) := ⟨fun e e' => Nat.le_total e.seq e'.seq⟩

instance : IsTrans Event (fun e e' => e.seq ≤ e'.seq) := ⟨fun _ _ _ => Nat.le_trans⟩

end Log

section File

variable {codec : RecordCodec Event} {s : FileStore} {moves : List LogMove}

/-- What an append on a file store is to its log: a failed one has used up a number for each of its events. -/
def FileStore.logMove (codec : RecordCodec Event) (s : FileStore) (call : AppendCall) : LogMove :=
  match (s.append codec call).2 with
  | some stamped => .append stamped
  | none => .fail (List.range' (s.seq + 1) call.events.length)

/-- The file stores that appends, failed ones too, and compactions lead to, with their moves. -/
inductive FileStore.Reached (codec : RecordCodec Event) : FileStore → List LogMove → Prop
  | fresh : Reached codec FileStore.fresh []
  | append {s : FileStore} {moves : List LogMove} (h : Reached codec s moves) (call : AppendCall) :
      Reached codec (s.append codec call).1 (moves ++ [s.logMove codec call])
  | compact {s : FileStore} {moves : List LogMove} (h : Reached codec s moves) (beforeSeq : Nat) :
      Reached codec (s.compactBefore codec beforeSeq none).1 (moves ++ [.compact beforeSeq])

theorem append_cases (codec : RecordCodec Event) (s : FileStore) (call : AppendCall) :
    (s.append codec call).1.seq = s.seq + call.events.length ∧
      (((s.append codec call).2 = some (Store.stamp call.clock s.seq call.events) ∧
          (s.append codec call).1.events = s.events ++ Store.stamp call.clock s.seq call.events) ∨
        ((s.append codec call).2 = none ∧ (s.append codec call).1.events = s.events)) := by
  unfold FileStore.append
  dsimp only
  split
  next => exact ⟨rfl, Or.inl ⟨rfl, rfl⟩⟩
  next => exact ⟨rfl, Or.inr ⟨rfl, rfl⟩⟩

/-- The file store reads the log of its moves, and hands out the numbers one after the other. -/
theorem FileStore.Reached.log (h : FileStore.Reached codec s moves) :
    moves.foldl LogMove.read [] = s.events ∧ usedNumbers moves = List.range' 1 s.seq ∧
      (s.events.map Event.seq).Sublist (List.range' 1 s.seq) := by
  have hgrow : ∀ n k, List.range' 1 (n + k) = List.range' 1 n ++ List.range' (n + 1) k := by
    intro n k
    rw [Nat.add_comm n 1, List.range'_append_1]
  induction h with
  | fresh => exact ⟨rfl, rfl, List.Sublist.refl _⟩
  | @append s moves h call ih =>
    obtain ⟨hread, hnumbers, hsorted⟩ := ih
    obtain ⟨hseq, hcases⟩ := append_cases codec s call
    rw [List.foldl_append, hread, usedNumbers, List.flatMap_append, ← usedNumbers, hnumbers, hseq, hgrow, FileStore.logMove]
    rcases hcases with ⟨hok, hevents⟩ | ⟨herr, hevents⟩
    · have hstamped : (Store.stamp call.clock s.seq call.events).map Event.seq =
          List.range' (s.seq + 1) call.events.length := by
        have hnum := Store.numbered_stamp call.clock s.seq call.events
        rwa [Numbered, Store.length_stamp] at hnum
      rw [hok, hevents, List.map_append, hstamped]
      refine ⟨rfl, ?_, hsorted.append (List.Sublist.refl _)⟩
      simp [LogMove.numbers, hstamped]
    · rw [herr, hevents]
      exact ⟨rfl, by simp [LogMove.numbers], hsorted.trans (List.sublist_append_left _ _)⟩
  | @compact s moves h beforeSeq ih =>
    obtain ⟨hread, hnumbers, hsorted⟩ := ih
    have hcompact : (s.compactBefore codec beforeSeq none).1.events = s.events.filter (fun e => beforeSeq ≤ e.seq) ∧
        (s.compactBefore codec beforeSeq none).1.seq = s.seq := by
      unfold FileStore.compactBefore
      by_cases hzero : beforeSeq = 0
      · simp [hzero]
      · rw [if_neg hzero]
        exact ⟨rfl, rfl⟩
    rw [List.foldl_append, hread, usedNumbers, List.flatMap_append, ← usedNumbers, hnumbers, hcompact.1, hcompact.2]
    refine ⟨rfl, by simp [LogMove.numbers], (List.filter_sublist.map _).trans hsorted⟩

end File

namespace Scenario

end Scenario

end DarkPool
