namespace InternPool

abbrev Bytes := List UInt8

namespace Utf8

def encode (scalars : List Char) : Bytes :=
  scalars.flatMap String.utf8EncodeChar

-- `Char` is the type of scalar values: surrogates and values above U+10FFFF have no encoding.
def WellFormed (bytes : Bytes) : Prop :=
  ∃ scalars, encode scalars = bytes

def Opening (bytes : Bytes) : Prop :=
  ∃ scalar rest, rest ≠ [] ∧ String.utf8EncodeChar scalar = bytes ++ rest

def ofText (text : String) : Bytes :=
  text.toByteArray.data.toList

@[simp] theorem encode_nil : encode [] = [] := rfl

@[simp] theorem encode_cons (scalar : Char) (scalars : List Char) :
    encode (scalar :: scalars) = String.utf8EncodeChar scalar ++ encode scalars := rfl

@[simp] theorem encode_append (left right : List Char) :
    encode (left ++ right) = encode left ++ encode right := by
  simp [encode]

theorem WellFormed.nil : WellFormed [] := ⟨[], rfl⟩

theorem WellFormed.append {left right : Bytes} (first : WellFormed left) (second : WellFormed right) :
    WellFormed (left ++ right) := by
  obtain ⟨x, rfl⟩ := first
  obtain ⟨y, rfl⟩ := second
  exact ⟨x ++ y, encode_append x y⟩

theorem ofText_ofList (scalars : List Char) : ofText (String.ofList scalars) = encode scalars := by
  simp [ofText, encode, List.utf8Encode]

theorem ofText_wellFormed (text : String) : WellFormed (ofText text) :=
  ⟨text.toList, by rw [← ofText_ofList, String.ofList_toList]⟩

end Utf8

end InternPool
