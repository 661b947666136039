import DarkPool.World

namespace DarkPool

variable {env : Env}

namespace Task

/-- A batch whose closing event is in the log and not yet in the state. -/
def closing : Task env → List (Uuid × Event)
  | .submitting batchIds (.confirmed event) _ => (batchIds.take 1).map (fun b => (b, event))
  | .settling b event => [(b, event)]
  | _ => []

/-- The aggregations whose batch the task has yet to submit. -/
def inflight : Task env → List PendingAggregation
  | .folding queue (.submitted _) _ => queue.tail
  | .folding queue _ _ => queue
  | _ => []

/-- The id of an order that passed admission and is not booked yet. -/
def reserved : Task env → List Uuid
  | .prepared order => [order.order.id]
  | _ => []

def witnessed : Task env → List (PendingAggregation × BatchWitness)
  | .folding queue (.witnessed witness) _ => (queue.take 1).map (fun p => (p, witness))
  | _ => []

def resolved : Task env → List (PendingAggregation × List SettlementMatch)
  | .folding queue (.resolved _ rows) _ => (queue.take 1).map (fun p => (p, rows))
  | _ => []

end Task

namespace World

def closing (w : World env) : List (Uuid × Event) := w.tasks.flatMap Task.closing

/-- What a tick under the lock has collected. -/
def collected (w : World env) : List PendingAggregation := (w.tick.map TickUnderLock.pending).getD []

def inflight (w : World env) : List PendingAggregation := w.collected ++ w.tasks.flatMap Task.inflight

def reserved (w : World env) : List Uuid := w.tasks.flatMap Task.reserved

def witnessed (w : World env) : List (PendingAggregation × BatchWitness) := w.tasks.flatMap Task.witnessed

def resolved (w : World env) : List (PendingAggregation × List SettlementMatch) := w.tasks.flatMap Task.resolved

/-- An id that was drawn and is no longer held back by a placement. -/
def Used (w : World env) (id : Uuid) : Prop := id ∈ w.issued ∧ id ∉ w.reserved

/-- `w'` runs `news` in the place of the tasks `olds` of `w`. -/
def Replaces (w w' : World env) (olds news : List (Task env)) : Prop :=
  ∃ rest, w.tasks.Perm (olds ++ rest) ∧ w'.tasks.Perm (news ++ rest)

variable {w w' : World env} {i : Nat} {task : Task env} {olds news : List (Task env)}

theorem replaces_refl (h : w'.tasks = w.tasks) : w.Replaces w' [] [] := ⟨w.tasks, List.Perm.refl _, h ▸ List.Perm.refl _⟩

theorem replaces_spawn {t : Task env} (h : w'.tasks = w.tasks ++ [t]) : w.Replaces w' [] [t] := by
  refine ⟨w.tasks, List.Perm.refl _, ?_⟩
  rw [h]
  exact List.perm_append_comm

theorem perm_eraseIdx (hi : w.tasks[i]? = some task) : w.tasks.Perm ([task] ++ w.tasks.eraseIdx i) := by
  obtain ⟨hlt, rfl⟩ := List.getElem?_eq_some_iff.mp hi
  exact (List.getElem_cons_eraseIdx_perm hlt).symm

theorem replaces_setTask {t : Task env} (hi : w.tasks[i]? = some task) (h : w'.tasks = w.tasks.set i t) :
    w.Replaces w' [task] [t] := by
  obtain ⟨hlt, -⟩ := List.getElem?_eq_some_iff.mp hi
  exact ⟨w.tasks.eraseIdx i, perm_eraseIdx hi, h ▸ List.set_perm_cons_eraseIdx hlt t⟩

theorem replaces_endTask (hi : w.tasks[i]? = some task) (h : w'.tasks = w.tasks.eraseIdx i) :
    w.Replaces w' [task] [] := ⟨w.tasks.eraseIdx i, perm_eraseIdx hi, h ▸ List.Perm.refl _⟩

theorem mem_flatMap_tasks (hi : w.tasks[i]? = some task) {α : Type} {f : Task env → List α} {x : α} (hx : x ∈ f task) :
    x ∈ w.tasks.flatMap f := List.mem_flatMap.mpr ⟨task, List.mem_of_getElem? hi, hx⟩

theorem mem_inflight (hi : w.tasks[i]? = some task) {p : PendingAggregation} (hp : p ∈ task.inflight) :
    p ∈ w.inflight := List.mem_append_right _ (mem_flatMap_tasks hi hp)

/-- What the tasks hold together changes by what the replaced ones held. -/
theorem Replaces.flatMap (h : w.Replaces w' olds news) {α : Type} (f : Task env → List α) :
    ∃ rest, (w.tasks.flatMap f).Perm (olds.flatMap f ++ rest) ∧ (w'.tasks.flatMap f).Perm (news.flatMap f ++ rest) := by
  obtain ⟨rest, hw, hw'⟩ := h
  refine ⟨rest.flatMap f, ?_, ?_⟩
  · rw [← List.flatMap_append]
    exact hw.flatMap_right f
  · rw [← List.flatMap_append]
    exact hw'.flatMap_right f

end World

end DarkPool
