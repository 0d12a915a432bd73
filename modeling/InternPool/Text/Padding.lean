namespace InternPool.Text

inductive Alignment where
  | left
  | centre
  | right
deriving Repr, DecidableEq

structure Field where
  fill : Char := ' '
  alignment : Alignment := .left
  width : Nat := 0
  precision : Option Nat := none
deriving Repr, DecidableEq

namespace Field

-- Of an odd number, the greater half goes after a centred text.
def before (alignment : Alignment) (missing : Nat) : Nat :=
  match alignment with
  | .left => 0
  | .centre => missing / 2
  | .right => missing

def fit (field : Field) (text : String) : String :=
  let kept := match field.precision with
    | none => text.toList
    | some count => text.toList.take count
  let missing := field.width - kept.length
  let start := before field.alignment missing
  String.ofList
    (List.replicate start field.fill ++ kept ++ List.replicate (missing - start) field.fill)

end Field

end InternPool.Text
