/-! # Pending items

An unbounded first-in, first-out queue with a flag that says whether somebody is draining it.
Only the outermost drain takes items; whatever is enqueued meanwhile is left to it.

A drain is a scope: **`enter`** raises the flag and **`leave`** lowers it on every way out; a
scope that is left by a failure also drops the items still waiting. -/

namespace FlatMachine

/-- Items that wait, oldest first, and the draining flag. -/
structure Queue (α : Type) where
  items : List α
  draining : Bool
  deriving Inhabited

namespace Queue

variable {α : Type}

/-- Nothing waits and nobody drains. -/
def empty : Queue α := ⟨[], false⟩

/-- Add an item at the back. -/
def enqueue (q : Queue α) (a : α) : Queue α := { q with items := q.items ++ [a] }

/-- Take the oldest item, if there is one. -/
def dequeue (q : Queue α) : Option α × Queue α :=
  match q.items with
  | [] => (none, q)
  | a :: rest => (some a, { q with items := rest })

/-- Drop all items. -/
def clear (q : Queue α) : Queue α := { q with items := [] }

/-- The number of waiting items. -/
def size (q : Queue α) : Nat := q.items.length

/-- Begin a drain. -/
def enter (q : Queue α) : Queue α := { q with draining := true }

/-- End a drain, by a failure or not. -/
def leave (q : Queue α) (failed : Bool) : Queue α :=
  if failed then empty else { q with draining := false }

@[simp] theorem items_enqueue (q : Queue α) (a : α) : (q.enqueue a).items = q.items ++ [a] := rfl

@[simp] theorem draining_enqueue (q : Queue α) (a : α) : (q.enqueue a).draining = q.draining := rfl

@[simp] theorem items_clear (q : Queue α) : q.clear.items = [] := rfl

@[simp] theorem draining_clear (q : Queue α) : q.clear.draining = q.draining := rfl

@[simp] theorem draining_enter (q : Queue α) : q.enter.draining = true := rfl

@[simp] theorem items_enter (q : Queue α) : q.enter.items = q.items := rfl

@[simp] theorem draining_leave (q : Queue α) (failed : Bool) :
    (q.leave failed).draining = false := by
  cases failed <;> rfl

@[simp] theorem draining_dequeue (q : Queue α) : q.dequeue.2.draining = q.draining := by
  unfold dequeue
  split <;> rfl

end Queue
end FlatMachine
