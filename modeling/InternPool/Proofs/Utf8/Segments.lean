import InternPool.Proofs.Utf8.AsciiRun
import InternPool.Proofs.Utf8.Reading

namespace InternPool.Utf8

theorem segments_nil : segments [] = [] := by
  rw [segments]

theorem segments_ok {byte : UInt8} {rest : Bytes} {width : Nat}
    (read : readOne byte rest = .ok width) :
    segments (byte :: rest) =
      .sequence ((byte :: rest).take width) :: segments ((byte :: rest).drop width) := by
  rw [segments]
  split
  · rename_i found
    rw [read] at found
    cases found
    rfl
  · rename_i found
    rw [read] at found
    cases found

theorem segments_error {byte : UInt8} {rest : Bytes} {subpart : Subpart}
    (broken : readOne byte rest = .error subpart) :
    segments (byte :: rest) =
      .malformed ((byte :: rest).take subpart.length) subpart ::
        segments ((byte :: rest).drop subpart.length) := by
  rw [segments]
  split
  · rename_i found
    rw [broken] at found
    cases found
  · rename_i found
    rw [broken] at found
    cases found
    rfl

theorem segments_scalar (scalar : Char) (rest : Bytes) :
    segments (String.utf8EncodeChar scalar ++ rest) =
      .sequence (String.utf8EncodeChar scalar) :: segments rest := by
  cases whole : String.utf8EncodeChar scalar ++ rest with
  | nil => exact absurd (List.append_eq_nil_iff.mp whole).1 String.utf8EncodeChar_ne_nil
  | cons byte tail =>
    rw [segments_ok (readOne_scalar scalar whole.symm), ← whole, List.take_left, List.drop_left]

theorem segments_cut {bytes : Bytes} (present : bytes ≠ []) (opening : Opening bytes) :
    segments bytes = [.malformed bytes (.truncated bytes.length)] := by
  cases bytes with
  | nil => exact absurd rfl present
  | cons byte rest =>
    have length : (Subpart.truncated (rest.length + 1)).length = (byte :: rest).length := rfl
    rw [segments_error (readOne_opening opening), length, List.take_length, List.drop_length,
      segments_nil]
    rfl

theorem segments_broken {subpart rest : Bytes} (broken : Broken subpart rest) :
    segments (subpart ++ rest) =
      .malformed subpart (.invalid subpart.length) :: segments rest := by
  cases whole : subpart ++ rest with
  | nil => exact absurd (List.append_eq_nil_iff.mp whole).1 broken.ne_nil
  | cons byte tail =>
    rw [segments_error (readOne_broken broken whole.symm), ← whole]
    simp only [Subpart.length, List.take_left, List.drop_left]

theorem segments_ascii {byte : UInt8} (ascii : isAscii byte = true) (rest : Bytes) :
    segments (byte :: rest) = .sequence [byte] :: segments rest :=
  segments_ok (readOne_ascii ascii rest)

theorem firstFault_ascii {run : Bytes} (ascii : ∀ byte ∈ run, isAscii byte = true) (pos : Nat)
    (rest : Bytes) :
    firstFault pos (segments (run ++ rest)) = firstFault (pos + run.length) (segments rest) := by
  induction run generalizing pos with
  | nil => rfl
  | cons byte run ih =>
    rw [List.cons_append, segments_ascii (ascii byte List.mem_cons_self), firstFault,
      List.length_singleton, ih (fun other member => ascii other (List.mem_cons_of_mem byte member)),
      List.length_cons]
    congr 1
    omega

theorem scan_exact (pos : Nat) (bytes : Bytes) :
    scan pos bytes = firstFault pos (segments bytes) := by
  fun_induction scan pos bytes with
  | case1 pos => rw [segments_nil, firstFault]
  | case2 pos byte rest ascii run ih =>
    have length : ((byte :: rest).take run).length = run := by
      rw [List.length_take]
      exact Nat.min_eq_left (asciiRun_le _)
    have skipped := firstFault_ascii (take_asciiRun (byte :: rest)) pos ((byte :: rest).drop run)
    rw [List.take_append_drop, length] at skipped
    rw [ih, skipped]
  | case3 pos byte rest ascii width read ih =>
    have plain : readOne byte rest = .ok width := by rw [readOne, if_neg ascii, read]
    have bounds := readSequence_ok read
    have length : ((byte :: rest).take width).length = width := by
      rw [List.length_take, List.length_cons]
      omega
    rw [ih, segments_ok plain, firstFault, length]
  | case4 pos byte rest ascii subpart read =>
    have plain : readOne byte rest = .error subpart := by rw [readOne, if_neg ascii, read]
    rw [segments_error plain, firstFault]

theorem scan_nil (pos : Nat) : scan pos [] = none := by
  rw [scan]

theorem scan_scalar (pos : Nat) (scalar : Char) (rest : Bytes) :
    scan pos (String.utf8EncodeChar scalar ++ rest) =
      scan (pos + (String.utf8EncodeChar scalar).length) rest := by
  rw [scan_exact, segments_scalar, firstFault, scan_exact]

theorem scan_cut {bytes : Bytes} (present : bytes ≠ []) (opening : Opening bytes) (pos : Nat) :
    scan pos bytes = some ⟨pos, .truncated bytes.length⟩ := by
  rw [scan_exact, segments_cut present opening, firstFault]

theorem scan_broken {subpart rest : Bytes} (broken : Broken subpart rest) (pos : Nat) :
    scan pos (subpart ++ rest) = some ⟨pos, .invalid subpart.length⟩ := by
  rw [scan_exact, segments_broken broken, firstFault]

end InternPool.Utf8
