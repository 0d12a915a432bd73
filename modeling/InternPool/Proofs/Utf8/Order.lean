import InternPool.Proofs.Utf8.Spelling

namespace InternPool.Utf8

theorem compare_cons_lt {a b : UInt8} {left right : Bytes} :
    compare (a :: left) (b :: right) = .lt ↔
      a.toNat < b.toNat ∨ (a.toNat = b.toNat ∧ compare left right = .lt) := by
  rw [List.compare_cons_cons, Ordering.then_eq_lt, Std.LawfulEqCmp.compare_eq_iff_eq,
    Std.compare_eq_lt, UInt8.toNat_inj, UInt8.lt_iff_toNat_lt]

theorem lt_by_bits {lower upper : Nat} (below : lower < upper) :
    lower / 64 < upper / 64 ∨ (lower / 64 = upper / 64 ∧ lower % 64 < upper % 64) := by
  omega

-- More bits are spelled under a higher lead byte; with as many bytes, the first that differs has the
-- higher bits.
theorem compare_scalars {left right : Char} (below : left.toNat < right.toNat) (x y : Bytes) :
    compare (String.utf8EncodeChar left ++ x) (String.utf8EncodeChar right ++ y) = .lt := by
  have bounded := right.valid
  simp only [UInt32.isValidChar, Nat.isValidChar] at bounded
  change left.val.toNat < right.val.toNat at below
  change (right.val.toNat < 55296 ∨ _) at bounded
  rw [String.utf8EncodeChar, String.utf8EncodeChar]
  generalize left.val.toNat = lower at below ⊢
  generalize right.val.toNat = upper at below bounded ⊢
  have last := lt_by_bits below
  have third := @lt_by_bits (lower / 64) (upper / 64)
  have second := @lt_by_bits (lower / 64 / 64) (upper / 64 / 64)
  simp only [Nat.div_div_eq_div_mul, Nat.reduceMul] at third second
  repeat' split
  all_goals
    simp only [List.cons_append, compare_cons_lt, UInt8.toNat_ofNat']
    simp (disch := omega) only [Nat.mod_eq_of_lt]
    omega

theorem compare_left {same : Char} (x y : Bytes) :
    compare (String.utf8EncodeChar same ++ x) (String.utf8EncodeChar same ++ y) = compare x y := by
  induction String.utf8EncodeChar same with
  | nil => rfl
  | cons byte rest ih =>
    rw [List.cons_append, List.cons_append, List.compare_cons_cons, Std.compare_self, ih]
    rfl

theorem encode_ne_nil (scalar : Char) (scalars : List Char) : encode (scalar :: scalars) ≠ [] := by
  rw [encode_cons]
  exact List.append_ne_nil_of_left_ne_nil String.utf8EncodeChar_ne_nil _

theorem compare_encode (left right : List Char) :
    compare (encode left) (encode right) =
      compare (left.map Char.toNat) (right.map Char.toNat) := by
  induction left generalizing right with
  | nil =>
    cases right with
    | nil => rfl
    | cons second right =>
      obtain ⟨byte, rest, spelled⟩ := List.exists_cons_of_ne_nil (encode_ne_nil second right)
      rw [spelled, encode_nil, List.compare_nil_cons, List.map_nil, List.map_cons,
        List.compare_nil_cons]
  | cons first left ih =>
    cases right with
    | nil =>
      obtain ⟨byte, rest, spelled⟩ := List.exists_cons_of_ne_nil (encode_ne_nil first left)
      rw [spelled, encode_nil, List.compare_cons_nil, List.map_nil, List.map_cons,
        List.compare_cons_nil]
    | cons second right =>
      rw [encode_cons, encode_cons, List.map_cons, List.map_cons, List.compare_cons_cons]
      rcases Nat.lt_trichotomy first.toNat second.toNat with below | same | above
      · rw [compare_scalars below, Nat.compare_eq_lt.mpr below]
        rfl
      · rw [Char.toNat_inj.mp same, compare_left, ih, Std.compare_self]
        rfl
      · rw [Std.OrientedCmp.gt_iff_lt.mpr (compare_scalars above _ _),
          Nat.compare_eq_gt.mpr above]
        rfl

end InternPool.Utf8
