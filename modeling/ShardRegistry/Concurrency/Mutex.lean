/-! Locks that serve tasks in the order of their requests. -/
namespace ShardRegistry

/-- The number of a task in the order in which tasks were started. -/
abbrev TaskId := Nat

/-- A lock: the task that holds it and those that wait, the next one first. -/
structure Mutex where
  holder : Option TaskId := none
  waiting : List TaskId := []
  deriving DecidableEq, Inhabited

namespace Mutex

def isFree (m : Mutex) : Bool := m.holder.isNone

/-- Gives the lock to a task if it is free, and else puts the task at the end of the queue. -/
def request (m : Mutex) (t : TaskId) : Mutex :=
  if m.isFree then { m with holder := some t } else { m with waiting := m.waiting ++ [t] }

def isHeldBy (m : Mutex) (t : TaskId) : Bool := m.holder = some t

/-- Hands the lock to the first task that waits. -/
def release (m : Mutex) : Mutex :=
  match m.waiting with
  | [] => {}
  | t :: ts => ⟨some t, ts⟩

/-- Takes a task out of the queue. -/
def leaveQueue (m : Mutex) (t : TaskId) : Mutex := { m with waiting := m.waiting.erase t }

end Mutex

end ShardRegistry
