import ShapeCheck.Validator.Run
/-!
# Assertions

An assertion turns the rejection of a validator into an error. The error says nothing about the
value; the kind of the value is signalled beside it.
-/
namespace ShapeCheck

/-- The error of an assertion whose validator rejected: `AssertionError`. -/
inductive AssertionError where
  | rejected
deriving DecidableEq, Repr

def AssertionError.message : AssertionError → String
  | .rejected => "assertion failed"

namespace Validator

/-- Asserts the validator, as `assert` does: the outcome, and what was signalled on the way. -/
def assert (validator : Validator) (v : Value) : Except AssertionError Unit × Log :=
  let r := (validator.run v).asserted v.kind
  (if r.accepted then .ok () else .error .rejected, r.log)

end Validator

end ShapeCheck
