import InternPool.Text.Quoted

namespace InternPool

inductive Found where
  | integer (value : Int)
  | floating (digits : String)
  | boolean (value : Bool)
  | text (value : String)
  | null
  | unit
  | sequence
  | map
  | optional
  | wrapped
  | enumerated
deriving Repr, DecidableEq

def Found.describe : Found → String
  | .integer value => "integer `" ++ toString value ++ "`"
  | .floating digits => "floating point `" ++ digits ++ "`"
  | .boolean value => "boolean `" ++ (if value then "true" else "false") ++ "`"
  | .text value => "string " ++ Text.quote value
  | .null => "null"
  | .unit => "unit value"
  | .sequence => "sequence"
  | .map => "map"
  | .optional => "Option value"
  | .wrapped => "newtype struct"
  | .enumerated => "enum"

inductive Expected where
  | text
  | map
deriving Repr, DecidableEq

def Expected.describe : Expected → String
  | .text => "a string"
  | .map => "a map"

structure Mismatch where
  found : Found
  expected : Expected
deriving Repr, DecidableEq

def Mismatch.message (mismatch : Mismatch) : String :=
  "invalid type: " ++ mismatch.found.describe ++ ", expected " ++ mismatch.expected.describe

end InternPool
