import InternPool.Text.Hex
import InternPool.Text.Unprintable

namespace InternPool.Text

def quoteChar (scalar : Char) : List Char :=
  match scalar with
  | '\x00' => ['\\', '0']
  | '\t' => ['\\', 't']
  | '\r' => ['\\', 'r']
  | '\n' => ['\\', 'n']
  | '\\' => ['\\', '\\']
  | '"' => ['\\', '"']
  | _ =>
    if isUnprintable scalar then ['\\', 'u', '\x7b'] ++ hexDigits scalar.toNat ++ ['\x7d']
    else [scalar]

def quote (text : String) : String :=
  String.ofList ('"' :: text.toList.flatMap quoteChar ++ ['"'])

end InternPool.Text
