/-!
# Stages of a cleanup

A cleanup goes through stages. It can stop before anything is deleted, and after deletion it is validated;
nothing follows the two last stages.
-/

set_option autoImplicit false
namespace Deadwood

/-- Where a cleanup stands. -/
inductive Stage where
  | idle
  | analyzing
  | reporting
  | awaitingConfirmation
  | backingUp
  | mutating
  | validating
  | done
  | aborted
  deriving Repr, DecidableEq, Inhabited

namespace Stage

def all : List Stage :=
  [idle, analyzing, reporting, awaitingConfirmation, backingUp, mutating, validating, done, aborted]

def label : Stage → String
  | idle => "idle"
  | analyzing => "analyzing"
  | reporting => "reporting"
  | awaitingConfirmation => "awaiting-confirmation"
  | backingUp => "backing-up"
  | mutating => "mutating"
  | validating => "validating"
  | done => "done"
  | aborted => "aborted"

def next : Stage → List Stage
  | idle => [analyzing]
  | analyzing => [reporting, aborted]
  | reporting => [awaitingConfirmation, backingUp, done, aborted]
  | awaitingConfirmation => [backingUp, aborted]
  | backingUp => [mutating, aborted]
  | mutating => [validating, done]
  | validating => [done, aborted]
  | done => []
  | aborted => []

end Stage
end Deadwood
