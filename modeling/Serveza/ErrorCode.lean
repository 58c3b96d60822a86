import Mathlib.Data.Int.Notation
import Mathlib.Data.Nat.Notation

/-!
# Error codes and exceptions

An error code is a value in a category and reports a failure when its value is not zero.
The named codes carry the values of a POSIX system. An exception pointer is an optional
exception; `exceptionToError` keeps the code of a system error and maps every other
exception to an input/output error.
-/

namespace Serveza

/-- The category of an error code: the two standard ones, or one brought by other code. -/
inductive ErrorCategory where
  | system
  | generic
  | other (tag : ℕ)
  deriving DecidableEq, Repr

/-- An error code; the default value is success. -/
structure ErrorCode where
  category : ErrorCategory := .system
  value : ℤ := 0
  deriving DecidableEq, Repr

namespace ErrorCode

/-- The test `if (ec)`: the code reports a failure. -/
def failed (ec : ErrorCode) : Bool := decide (ec.value ≠ 0)

/-- A default-constructed error code. -/
def success : ErrorCode := {}

/-- The operation was cancelled. -/
def operationAborted : ErrorCode := ⟨.system, 125⟩

/-- The peer gave up before its connection was accepted. -/
def connectionAborted : ErrorCode := ⟨.system, 103⟩

/-- A signal interrupted the call. -/
def interrupted : ErrorCode := ⟨.system, 4⟩

/-- The resource is temporarily unavailable. -/
def tryAgain : ErrorCode := ⟨.system, 11⟩

/-- The call would have blocked; the same value as `tryAgain`. -/
def wouldBlock : ErrorCode := ⟨.system, 11⟩

/-- Too many open descriptors. -/
def noDescriptors : ErrorCode := ⟨.system, 24⟩

/-- No buffer space. -/
def noBufferSpace : ErrorCode := ⟨.system, 105⟩

/-- Out of memory. -/
def noMemory : ErrorCode := ⟨.system, 12⟩

/-- The grace period ran out. -/
def timedOut : ErrorCode := ⟨.generic, 110⟩

/-- The code given to an exception that carries none. -/
def ioError : ErrorCode := ⟨.generic, 5⟩

@[simp] theorem success_failed : success.failed = false := rfl

@[simp] theorem operationAborted_failed : operationAborted.failed = true := rfl

end ErrorCode

/-- An exception that can be in flight: a system error with its code, or anything else. -/
inductive ThrownException where
  | systemError (code : ErrorCode)
  | other (tag : ℕ)
  deriving DecidableEq, Repr

/-- The error code that stands for an exception pointer. -/
def exceptionToError : Option ThrownException → ErrorCode
  | none => .success
  | some (.systemError code) => code
  | some (.other _) => .ioError

/-- An exception whose error code reports a failure. -/
structure FailingException where
  exception : ThrownException
  failed : (exceptionToError (some exception)).failed = true
  deriving DecidableEq

/-- An exception that carries no error code. -/
def FailingException.uncoded : FailingException := ⟨.other 0, rfl⟩

/-- The error code of an exception that reports a failure. -/
def FailingException.error (e : FailingException) : ErrorCode := exceptionToError (some e.exception)

/-- The accept errors a listener retries. -/
def isTransientAcceptError (ec : ErrorCode) : Bool :=
  ec = .connectionAborted || ec = .interrupted || ec = .tryAgain || ec = .wouldBlock ||
    ec = .noDescriptors || ec = .noBufferSpace || ec = .noMemory

end Serveza
