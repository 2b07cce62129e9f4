import LakehouseEngine.Concurrency.Interleaving
import Mathlib.Logic.Function.Basic

/-!
# The states of a statement

Concurrent calls share a map of states by virtual schema.  A call that finds none builds one
outside the lock, so several may build at once; the first that comes back is kept for all.
-/

namespace LakehouseEngine.StatementStates

variable {Name State ε : Type}

variable [DecidableEq Name]

end LakehouseEngine.StatementStates
