import Mathlib.Data.String.Basic

/-!
# The error values of the Memory Interface

A host error travels as text until it reaches the interface; two texts have a
meaning of their own there, every other one is an internal error.
-/

set_option autoImplicit false

namespace AndaBrain

inductive KipErrorCode where
  | artifactUnavailable
  | constraintViolation
  | idempotencyConflict
  | internalError
  | invalidRequestEnvelope
  | legalHoldConflict
  | notAuthorized
  | notFoundOrNotVisible
  | outcomeUnknown
  | preconditionFailed
  | resultLimitExceeded
  deriving DecidableEq, Repr

structure KipError where
  code : KipErrorCode
  message : String
  deriving DecidableEq, Repr

def kipError (message : String) : KipError :=
  if message = "source_suppressed" then
    ⟨.notFoundOrNotVisible,"the source is excluded from memory by an earlier forget"⟩
  else if message = "memory_change_pending" then
    ⟨.preconditionFailed,"a managed memory change is reconciling; retry after it finishes"⟩
  else ⟨.internalError,message⟩

/-- `str::starts_with`. -/
def startsWithText (text start : String) : Bool := start.toList.isPrefixOf text.toList

/-- `str::contains`. -/
def containsText (text needle : String) : Bool :=
  text.toList.tails.any fun rest => needle.toList.isPrefixOf rest

end AndaBrain
