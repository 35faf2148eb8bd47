import Mathlib.Logic.Basic

/-!
# How a call ends

A call returns a value or an error, or it panics. An error is a value that the caller can look
at and handle; a panic goes through every caller above.

> `toOption_bind`: a sequence of calls returns a value exactly if each of them does.
> `unwrap_ne_err`: behind an `unwrap` there is no error left to return.
-/

namespace Rnet.Lib

/-- How a call ends. -/
inductive Ending (ε α : Type)
  | ok (value : α)
  | err (error : ε)
  | panic (message : String)
  deriving DecidableEq, Repr

namespace Ending

variable {ε α β : Type}

/-- The next call, if there was a value. -/
def bind (call : Ending ε α) (next : α → Ending ε β) : Ending ε β :=
  match call with
  | ok a => next a
  | err e => err e
  | panic message => panic message

instance : Monad (Ending ε) where
  pure := ok
  bind := bind

/-- `Option::ok_or_else`, behind it the question mark. -/
def okOr (value : Option α) (error : ε) : Ending ε α :=
  match value with
  | some a => ok a
  | none => err error

/-- `Option::expect`. -/
def expect (value : Option α) (message : String) : Ending ε α :=
  match value with
  | some a => ok a
  | none => panic message

/-- `Result::unwrap` panics on an error. -/
def unwrap {ε' : Type} (call : Ending ε α) : Ending ε' α :=
  match call with
  | ok a => ok a
  | err _ => panic "called `Result::unwrap()` on an `Err` value"
  | panic message => panic message

/-- The value, if there is one. -/
def toOption (call : Ending ε α) : Option α :=
  match call with
  | ok a => some a
  | _ => none

@[simp] theorem pure_eq_ok (a : α) : (pure a : Ending ε α) = ok a := rfl

@[simp] theorem ok_bind (a : α) (next : α → Ending ε β) : (ok a >>= next) = next a := rfl

@[simp] theorem toOption_ok (a : α) : (ok a : Ending ε α).toOption = some a := rfl

theorem toOption_eq_some {call : Ending ε α} {a : α} :
    call.toOption = some a ↔ call = ok a := by
  cases call with
  | ok b => simp [toOption]
  | err e => simp [toOption]
  | panic message => simp [toOption]

/-- A sequence returns what the second call returns on what the first one did. -/
theorem toOption_bind (call : Ending ε α) (next : α → Ending ε β) :
    (call >>= next).toOption = call.toOption.bind fun a => (next a).toOption := by
  cases call with
  | ok a => rfl
  | err e => rfl
  | panic message => rfl

@[simp] theorem toOption_okOr (value : Option α) (error : ε) :
    (okOr value error).toOption = value := by
  cases value with
  | none => rfl
  | some a => rfl

@[simp] theorem toOption_expect (value : Option α) (message : String) :
    (expect value message : Ending ε α).toOption = value := by
  cases value with
  | none => rfl
  | some a => rfl

@[simp] theorem toOption_unwrap {ε' : Type} (call : Ending ε α) :
    (call.unwrap : Ending ε' α).toOption = call.toOption := by
  cases call with
  | ok a => rfl
  | err e => rfl
  | panic message => rfl

/-- Behind an `unwrap` there is no error left to return. -/
theorem unwrap_ne_err {ε' : Type} (call : Ending ε α) (e : ε') : call.unwrap ≠ err e := by
  cases call with
  | ok a => exact nofun
  | err e' => exact nofun
  | panic message => exact nofun

end Ending

end Rnet.Lib
