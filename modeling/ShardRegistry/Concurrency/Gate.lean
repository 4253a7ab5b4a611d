import ShardRegistry.Concurrency.Mutex

/-! Gates: each passage uses up a permit, and tasks pass in the order in which they came. -/
namespace ShardRegistry

structure Gate where
  permits : Nat := 0
  waiting : List TaskId := []
  deriving DecidableEq, Inhabited

namespace Gate

/-- Lets a task through if there is a permit, and else puts it at the end of the queue. -/
def request (g : Gate) (t : TaskId) : Gate × Bool :=
  match g.permits with
  | n + 1 => ({ g with permits := n }, true)
  | 0 => ({ g with waiting := g.waiting ++ [t] }, false)

/-- Adds permits; the tasks that are let through come first. -/
def add (g : Gate) (n : Nat) : List TaskId × Gate :=
  (g.waiting.take n, ⟨g.permits + (n - g.waiting.length), g.waiting.drop n⟩)

def leaveQueue (g : Gate) (t : TaskId) : Gate := { g with waiting := g.waiting.erase t }

end Gate

end ShardRegistry
