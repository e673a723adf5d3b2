import Mathlib.Data.Nat.Notation

/-!
# Ways in which a reducer operation stops the program

`cilkrts_bug` does not return, a failed `CILK_ASSERT` ends there as well, and
a call through a null key is a crash.  Operations of the model that can end
this way return the reason instead of a result.
-/

namespace Multicilk

inductive Abort where
  | spaFull (spaCap : ℕ)
  | idsExhausted (spaCap : ℕ)
  | unregisteringUnregistered
  | unsyncedReducer
  | usedByAnother
  | referenceToUnregistered
  | assertionFailed
  | nullKey
  deriving DecidableEq, Repr

/-- The text passed to `cilkrts_bug`; pointers are left out. -/
def Abort.text : Abort → String
  | .spaFull spaCap =>
      "SPA resize not supported yet! (vinfo = spa_cap = " ++
        toString spaCap ++ ")"
  | .idsExhausted spaCap =>
      "SPA resize not supported yet! (cap " ++ toString spaCap ++ ")"
  | .unregisteringUnregistered => "unregistering unregistered hyperobject"
  | .unsyncedReducer =>
      "Destroying a reducer while it is visible to unsynced child tasks, or\n" ++
      "calling CILK_C_UNREGISTER_REDUCER() on an unregistered reducer.\n" ++
      "Did you forget a _Cilk_sync or CILK_C_REGISTER_REDUCER()?"
  | .usedByAnother => "User error: hyperobject used by another hyperobject"
  | .referenceToUnregistered =>
      "User error: reference to unregistered hyperobject"
  | .assertionFailed => "cilk assertion failed"
  | .nullKey => "call through a null key"

end Multicilk
