import Mathlib

/-!
# Wait queues of the scheduler

A wait queue is a list of stack nodes, newest first. A node belongs to one
blocked task, so the queue is the list of its tasks.
-/

namespace MoQiOS.WaitQueue

variable {τ : Type*}

def blockOn (queue : List τ) (t : τ) : List τ := t::queue

def wakeOne (queue : List τ) : Option τ×List τ := (queue.getLast?,queue.dropLast)

def unlink [DecidableEq τ] (queue : List τ) (t : τ) : List τ := queue.erase t

lemma wakeOne_none {queue : List τ} : (wakeOne queue).1 = none ↔ queue = [] :=
  List.getLast?_eq_none_iff

lemma wakeOne_some {queue : List τ} {u : τ} (h : (wakeOne queue).1 = some u) :
    queue = (wakeOne queue).2++[u] := by
  obtain ⟨rest,rfl⟩ := List.getLast?_eq_some_iff.mp h
  simp [wakeOne]

end MoQiOS.WaitQueue
