/-!
# Effects

An effect on a state gives an answer or fails, and leaves a state behind in both cases: a failed step
may have changed something.
-/

namespace Stockroom

/-- A step on a state that may fail, and may have changed the state when it does. -/
abbrev Effect (σ ε α : Type) := σ → Except ε α × σ

end Stockroom
