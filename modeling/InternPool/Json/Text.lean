import InternPool.Utf8.Validate

namespace InternPool.Json

def hexValue? (byte : UInt8) : Option Nat :=
  if 0x30 ≤ byte ∧ byte ≤ 0x39 then some (byte.toNat - 0x30)
  else if 0x41 ≤ byte ∧ byte ≤ 0x46 then some (byte.toNat - 0x37)
  else if 0x61 ≤ byte ∧ byte ≤ 0x66 then some (byte.toNat - 0x57)
  else none

def readUnit : Bytes → Option (Nat × Bytes)
  | a :: b :: c :: d :: rest =>
    match hexValue? a, hexValue? b, hexValue? c, hexValue? d with
    | some a, some b, some c, some d => some (((a * 16 + b) * 16 + c) * 16 + d, rest)
    | _, _, _, _ => none
  | _ => none

def readScalar (input : Bytes) : Option (Char × Bytes) :=
  match readUnit input with
  | none => none
  | some (unit, rest) =>
    if 0xDC00 ≤ unit ∧ unit ≤ 0xDFFF then none
    else if 0xD800 ≤ unit ∧ unit ≤ 0xDBFF then
      match rest with
      | slash :: mark :: rest =>
        if slash = 0x5C ∧ mark = 0x75 then
          match readUnit rest with
          | none => none
          | some (low, rest) =>
            if 0xDC00 ≤ low ∧ low ≤ 0xDFFF then
              some (Char.ofNat ((unit - 0xD800) * 0x400 + (low - 0xDC00) + 0x10000), rest)
            else none
        else none
      | _ => none
    else some (Char.ofNat unit, rest)

def shortEscape? (letter : UInt8) : Option UInt8 :=
  if letter = 0x22 ∨ letter = 0x5C ∨ letter = 0x2F then some letter
  else if letter = 0x62 then some 0x08
  else if letter = 0x66 then some 0x0C
  else if letter = 0x6E then some 0x0A
  else if letter = 0x72 then some 0x0D
  else if letter = 0x74 then some 0x09
  else none

def readEscape : Bytes → Option (Bytes × Bytes)
  | [] => none
  | letter :: rest =>
    if letter = 0x75 then
      (readScalar rest).map fun (scalar, rest) => (String.utf8EncodeChar scalar, rest)
    else (shortEscape? letter).map fun byte => ([byte], rest)

theorem readUnit_shorter {input rest : Bytes} {unit : Nat} (read : readUnit input = some (unit, rest)) :
    rest.length < input.length := by
  unfold readUnit at read
  split at read
  · split at read
    · cases read
      simp only [List.length_cons]
      omega
    · cases read
  · cases read

theorem readScalar_shorter {input rest : Bytes} {scalar : Char}
    (read : readScalar input = some (scalar, rest)) : rest.length < input.length := by
  unfold readScalar at read
  split at read
  · cases read
  · rename_i first
    have := readUnit_shorter first
    split at read
    · cases read
    · split at read
      · split at read
        · split at read
          · split at read
            · cases read
            · rename_i second
              have := readUnit_shorter second
              split at read
              · simp only [Option.some.injEq, Prod.mk.injEq] at read
                simp only [List.length_cons, ← read.2] at *
                omega
              · cases read
          · cases read
        · cases read
      · simp only [Option.some.injEq, Prod.mk.injEq] at read
        rw [← read.2]
        omega

theorem readEscape_shorter {input piece rest : Bytes} (read : readEscape input = some (piece, rest)) :
    rest.length < input.length := by
  unfold readEscape at read
  split at read
  · cases read
  · split at read
    · obtain ⟨⟨scalar, after⟩, inner, same⟩ := Option.map_eq_some_iff.mp read
      cases same
      have := readScalar_shorter inner
      simp only [List.length_cons]
      omega
    · obtain ⟨byte, _, same⟩ := Option.map_eq_some_iff.mp read
      cases same
      simp

-- `done` has the pieces read so far, in opposite order.
def readPieces (done : List Bytes) : Bytes → Option (List Bytes × Bytes)
  | [] => none
  | byte :: rest =>
    if byte = 0x22 then some (done, rest)
    else if byte = 0x5C then
      match _ : readEscape rest with
      | none => none
      | some (piece, rest) => readPieces (piece :: done) rest
    else if byte < 0x20 then none
    else readPieces ([byte] :: done) rest
termination_by input => input.length
decreasing_by
  · have := readEscape_shorter ‹_›
    simp only [List.length_cons]
    omega
  · simp

theorem readPieces_shorter {done pieces : List Bytes} {input rest : Bytes}
    (read : readPieces done input = some (pieces, rest)) : rest.length < input.length := by
  fun_induction readPieces done input with
  | case1 => cases read
  | case2 done rest' =>
    cases read
    simp
  | case3 => cases read
  | case4 done rest piece after escape _ ih =>
    have := ih read
    have := readEscape_shorter escape
    simp only [List.length_cons]
    omega
  | case5 => cases read
  | case6 done byte after _ _ _ ih =>
    have := ih read
    simp only [List.length_cons]
    omega

def readText (input : Bytes) : Option (Bytes × Bytes) :=
  match readPieces [] input with
  | none => none
  | some (done, rest) =>
    let content := done.reverse.flatten
    match Utf8.validate content with
    | .ok () => some (content, rest)
    | .error _ => none

end InternPool.Json
