import InternPool.Utf8.Scalar

namespace InternPool.Utf8

-- The range is that of the second byte; all later bytes range over `80..BF`.
structure Lead where
  width : Nat
  lower : UInt8
  upper : UInt8
deriving Repr, DecidableEq

-- The narrowed second bytes keep out overlong forms (E0, F0), surrogates (ED) and values above
-- U+10FFFF (F4).
def Lead.of? (byte : UInt8) : Option Lead :=
  if byte < 0xC2 then none
  else if byte ≤ 0xDF then some ⟨2, 0x80, 0xBF⟩
  else if byte = 0xE0 then some ⟨3, 0xA0, 0xBF⟩
  else if byte = 0xED then some ⟨3, 0x80, 0x9F⟩
  else if byte ≤ 0xEF then some ⟨3, 0x80, 0xBF⟩
  else if byte = 0xF0 then some ⟨4, 0x90, 0xBF⟩
  else if byte ≤ 0xF3 then some ⟨4, 0x80, 0xBF⟩
  else if byte = 0xF4 then some ⟨4, 0x80, 0x8F⟩
  else none

inductive Subpart where
  | invalid (length : Nat)
  | truncated (length : Nat)
deriving Repr, DecidableEq

def Subpart.length : Subpart → Nat
  | .invalid length => length
  | .truncated length => length

def follow : (need seen : Nat) → (lower upper : UInt8) → Bytes → Except Subpart Nat
  | 0, seen, _, _, _ => .ok seen
  | _ + 1, seen, _, _, [] => .error (.truncated seen)
  | need + 1, seen, lower, upper, byte :: rest =>
    if lower ≤ byte ∧ byte ≤ upper then follow need (seen + 1) 0x80 0xBF rest
    else .error (.invalid seen)

def readSequence (lead : UInt8) (rest : Bytes) : Except Subpart Nat :=
  match Lead.of? lead with
  | none => .error (.invalid 1)
  | some ⟨width, lower, upper⟩ => follow (width - 1) 1 lower upper rest

theorem Lead.width_bounds {byte : UInt8} {lead : Lead} (announced : Lead.of? byte = some lead) :
    2 ≤ lead.width ∧ lead.width ≤ 4 := by
  unfold Lead.of? at announced
  repeat' split at announced
  all_goals cases announced
  all_goals decide

theorem follow_ok {need seen : Nat} {lower upper : UInt8} {bytes : Bytes} {width : Nat}
    (read : follow need seen lower upper bytes = .ok width) :
    width = seen + need ∧ need ≤ bytes.length := by
  induction need generalizing seen lower upper bytes with
  | zero => simp_all [follow]
  | succ need ih =>
    cases bytes with
    | nil => simp [follow] at read
    | cons byte rest =>
      rw [follow] at read
      split at read
      · have := ih read
        simp only [List.length_cons]
        omega
      · cases read

theorem follow_error {need seen : Nat} {lower upper : UInt8} {bytes : Bytes} {subpart : Subpart}
    (broken : follow need seen lower upper bytes = .error subpart) :
    seen ≤ subpart.length ∧ subpart.length < seen + need ∧ subpart.length ≤ seen + bytes.length := by
  induction need generalizing seen lower upper bytes with
  | zero => simp [follow] at broken
  | succ need ih =>
    cases bytes with
    | nil =>
      simp only [follow, Except.error.injEq] at broken
      subst broken
      simp [Subpart.length]
    | cons byte rest =>
      rw [follow] at broken
      split at broken
      · have := ih broken
        simp only [List.length_cons]
        omega
      · simp only [Except.error.injEq] at broken
        subst broken
        simp [Subpart.length]

theorem readSequence_ok {lead : UInt8} {rest : Bytes} {width : Nat}
    (read : readSequence lead rest = .ok width) :
    2 ≤ width ∧ width ≤ 4 ∧ width ≤ rest.length + 1 := by
  unfold readSequence at read
  split at read
  · cases read
  · rename_i announced
    have := Lead.width_bounds announced
    have := follow_ok read
    simp only at *
    omega

theorem readSequence_error {lead : UInt8} {rest : Bytes} {subpart : Subpart}
    (broken : readSequence lead rest = .error subpart) :
    1 ≤ subpart.length ∧ subpart.length ≤ 3 ∧ subpart.length ≤ rest.length + 1 := by
  unfold readSequence at broken
  split at broken
  · simp only [Except.error.injEq] at broken
    subst broken
    simp [Subpart.length]
  · rename_i announced
    have := Lead.width_bounds announced
    have := follow_error broken
    simp only at *
    omega

end InternPool.Utf8
