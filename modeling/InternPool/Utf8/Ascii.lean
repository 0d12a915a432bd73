import InternPool.Utf8.Scalar

namespace InternPool.Utf8

def isAscii (byte : UInt8) : Bool :=
  byte < 0x80

def word (a b c d e f g h : UInt8) : UInt64 :=
  a.toUInt64 ||| b.toUInt64 <<< 8 ||| c.toUInt64 <<< 16 ||| d.toUInt64 <<< 24 |||
    e.toUInt64 <<< 32 ||| f.toUInt64 <<< 40 ||| g.toUInt64 <<< 48 ||| h.toUInt64 <<< 56

def highBits : UInt64 := 0x8080808080808080

def asciiRun : Bytes → Nat
  | a :: b :: c :: d :: e :: f :: g :: h :: rest =>
    if word a b c d e f g h &&& highBits = 0 then asciiRun rest + 8
    else ((a :: b :: c :: d :: e :: f :: g :: h :: rest).takeWhile isAscii).length
  | bytes => (bytes.takeWhile isAscii).length

theorem asciiRun_pos {byte : UInt8} (rest : Bytes) (ascii : isAscii byte = true) :
    0 < asciiRun (byte :: rest) := by
  unfold asciiRun
  split
  · rename_i same
    cases same
    split
    · omega
    · simp [List.takeWhile, ascii]
  · simp [List.takeWhile, ascii]

theorem asciiRun_le (bytes : Bytes) : asciiRun bytes ≤ bytes.length := by
  fun_induction asciiRun bytes with
  | case1 a b c d e f g h rest _ ih => simp only [List.length_cons]; omega
  | case2 => exact List.takeWhile_prefix isAscii |>.length_le
  | case3 => exact List.takeWhile_prefix isAscii |>.length_le

end InternPool.Utf8
