import InternPool.Utf8.Scan

namespace InternPool.Utf8

inductive Error where
  | invalid (validUpTo length : Nat)
  | incomplete (validUpTo : Nat)
deriving Repr, DecidableEq

def Error.validUpTo : Error → Nat
  | .invalid validUpTo _ => validUpTo
  | .incomplete validUpTo => validUpTo

def Error.length? : Error → Option Nat
  | .invalid _ length => some length
  | .incomplete _ => none

def Error.message : Error → String
  | .invalid validUpTo length =>
    "invalid utf-8 sequence of " ++ toString length ++ " bytes from index " ++ toString validUpTo
  | .incomplete validUpTo => "incomplete utf-8 byte sequence from index " ++ toString validUpTo

def Error.inspect : Error → String
  | .invalid validUpTo length =>
    "Invalid \x7b valid_up_to: " ++ toString validUpTo ++ ", len: " ++ toString length ++ " \x7d"
  | .incomplete validUpTo => "Incomplete \x7b valid_up_to: " ++ toString validUpTo ++ " \x7d"

def Fault.toError : Fault → Error
  | ⟨offset, .invalid length⟩ => .invalid offset length
  | ⟨offset, .truncated _⟩ => .incomplete offset

def validate (bytes : Bytes) : Except Error Unit :=
  match nextFault bytes 0 with
  | none => .ok ()
  | some fault => .error fault.toError

end InternPool.Utf8
