import Mathlib.Data.List.Basic

/-!
# Go runtime values

The pieces of the Go runtime that the modelled functions hand back to their callers: byte
slices, the error values built with `errors.New` and `fmt.Errorf`, and the three ways a call
ends (a result with a nil error, an error, or a panic).
-/

namespace GoTuf

/-- A Go byte slice; a nil slice and an empty slice are both `[]`. -/
abbrev Bytes := List UInt8

def ascii (s : String) : Bytes :=
  s.toList.map fun c => c.toNat.toUInt8

def asciiText (b : Bytes) : String :=
  String.mk (b.map fun c => Char.ofNat c.toNat)

/-- Package-level error variables (`errors.New`) of the modelled packages and of `io`. -/
inductive Sentinel
  | invalidKey
  | invalidArgument
  | hashUnavailable
  | invalidSignature
  | eof
  | unexpectedEOF
  deriving DecidableEq, Repr

def Sentinel.text : Sentinel -> String
  | .invalidKey => "signer: invalid or unsupported key format"
  | .invalidArgument => "invalid argument"
  | .hashUnavailable => "the required hash function is not available"
  | .invalidSignature => "invalid signature"
  | .eof => "EOF"
  | .unexpectedEOF => "unexpected EOF"

/-- An error value: a sentinel, a `fmt.Errorf` whose format ends in `%w`, or a message. -/
inductive GoError
  | sentinel (s : Sentinel)
  | wrap (context : String) (inner : GoError)
  | message (text : String)
  deriving DecidableEq, Repr

namespace GoError

/-- `errors.Is`: whether the sentinel is on the `%w` chain. -/
def Is : GoError -> Sentinel -> Bool
  | sentinel s, t => s == t
  | wrap _ inner, t => inner.Is t
  | message _, _ => false

def text : GoError -> String
  | sentinel s => s.text
  | wrap context inner => context ++ inner.text
  | message t => t

@[simp] theorem Is_sentinel (s t : Sentinel) : (sentinel s).Is t = (s == t) := rfl

@[simp] theorem Is_wrap (c : String) (e : GoError) (t : Sentinel) :
    (wrap c e).Is t = e.Is t := rfl

@[simp] theorem Is_message (m : String) (t : Sentinel) : (message m).Is t = false := rfl

end GoError

/-- How a Go call ends: a result with a nil error, an error, or a panic with its value. -/
inductive Outcome (α : Type)
  | ok (a : α)
  | error (e : GoError)
  | panic (value : String)
  deriving DecidableEq, Repr

def nilDereference : String :=
  "runtime error: invalid memory address or nil pointer dereference"

namespace Outcome

def errorIs {α : Type} : Outcome α -> Sentinel -> Bool
  | error e, s => e.Is s
  | _, _ => false

def errorsWithin {α : Type} : Outcome α -> List Sentinel -> Bool
  | error e, l => l.any e.Is
  | _, _ => true

def isPanic {α : Type} : Outcome α -> Bool
  | panic _ => true
  | _ => false

@[simp] theorem errorIs_ok {α : Type} (a : α) (s : Sentinel) : (ok a).errorIs s = false := rfl

@[simp] theorem errorIs_error {α : Type} (e : GoError) (s : Sentinel) :
    (error e : Outcome α).errorIs s = e.Is s := rfl

@[simp] theorem errorIs_panic {α : Type} (v : String) (s : Sentinel) :
    (panic v : Outcome α).errorIs s = false := rfl

@[simp] theorem errorsWithin_ok {α : Type} (a : α) (l : List Sentinel) :
    (ok a).errorsWithin l = true := rfl

@[simp] theorem errorsWithin_error {α : Type} (e : GoError) (l : List Sentinel) :
    (error e : Outcome α).errorsWithin l = l.any e.Is := rfl

@[simp] theorem errorsWithin_panic {α : Type} (v : String) (l : List Sentinel) :
    (panic v : Outcome α).errorsWithin l = true := rfl

@[simp] theorem isPanic_ok {α : Type} (a : α) : (ok a).isPanic = false := rfl

@[simp] theorem isPanic_error {α : Type} (e : GoError) : (error e : Outcome α).isPanic = false :=
  rfl

@[simp] theorem isPanic_panic {α : Type} (v : String) : (panic v : Outcome α).isPanic = true :=
  rfl

end Outcome

end GoTuf
