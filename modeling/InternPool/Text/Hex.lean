namespace InternPool.Text

def hexDigits (n : Nat) : List Char :=
  Nat.toDigits 16 n

def hexWord (word : UInt64) : String :=
  let digits := hexDigits word.toNat
  String.ofList (List.replicate (16 - digits.length) '0' ++ digits)

end InternPool.Text
