/-!
# Closure status

The status of a closure says which of its fields may be used and by whom.
-/

namespace Multicilk

inductive ClosureStatus where
  | running
  | suspended
  | returning
  | ready
  | preInvalid
  | postInvalid
  deriving DecidableEq, Repr

/-- `Closure_status_to_str`. -/
def ClosureStatus.text : ClosureStatus → String
  | .running => "running"
  | .suspended => "suspended"
  | .returning => "returning"
  | .ready => "ready"
  | .preInvalid => "pre-invalid"
  | .postInvalid => "post-invalid"

end Multicilk
