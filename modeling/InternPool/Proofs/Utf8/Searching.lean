import InternPool.Proofs.Utf8.Verdict

namespace InternPool.Utf8

def Fault.shift (before : Nat) (fault : Fault) : Fault :=
  ⟨before + fault.offset, fault.subpart⟩

-- The rest of a sequence, each byte looked up by its distance from the lead byte.
def followAt (bytes : Bytes) (start : Nat) :
    (need seen : Nat) → (lower upper : UInt8) → Except Subpart Nat
  | 0, seen, _, _ => .ok seen
  | need + 1, seen, lower, upper =>
    match bytes[start + seen]? with
    | none => .error (.truncated seen)
    | some byte =>
      if lower ≤ byte ∧ byte ≤ upper then followAt bytes start need (seen + 1) 0x80 0xBF
      else .error (.invalid seen)

-- The sequence at an offset. Where no byte is, or one of ASCII, the program stops.
def readAt? (bytes : Bytes) (start : Nat) : Option (Except Subpart Nat) :=
  match bytes[start]? with
  | none => none
  | some lead =>
    if isAscii lead = true then none
    else
      match Lead.of? lead with
      | none => some (.error (.invalid 1))
      | some ⟨width, lower, upper⟩ => some (followAt bytes start (width - 1) 1 lower upper)

inductive Turn where
  | ended
  | skips (run : Nat)
  | passes (width : Nat)
  | stops (subpart : Subpart)
deriving Repr, DecidableEq

def Turn.ofRead : Except Subpart Nat → Turn
  | .ok width => .passes width
  | .error subpart => .stops subpart

def turn? (bytes : Bytes) (pos : Nat) : Option Turn :=
  match bytes[pos]? with
  | none => some .ended
  | some byte =>
    if isAscii byte = true then some (.skips (asciiRun (bytes.drop pos)))
    else (readAt? bytes pos).map .ofRead

-- A search from an offset to its answer, with the offsets at which it read sequences.
inductive Searches (bytes : Bytes) : Nat → List Nat → Option Fault → Prop where
  | ended {pos : Nat} (ends : turn? bytes pos = some .ended) : Searches bytes pos [] none
  | skips {pos run : Nat} {reads : List Nat} {answer : Option Fault}
      (skips : turn? bytes pos = some (.skips run))
      (others : Searches bytes (pos + run) reads answer) : Searches bytes pos reads answer
  | passes {pos width : Nat} {reads : List Nat} {answer : Option Fault}
      (passes : turn? bytes pos = some (.passes width))
      (others : Searches bytes (pos + width) reads answer) : Searches bytes pos (pos :: reads) answer
  | stops {pos : Nat} {subpart : Subpart}
      (stops : turn? bytes pos = some (.stops subpart)) :
      Searches bytes pos [pos] (some ⟨pos, subpart⟩)

def LeadAt (bytes : Bytes) (start : Nat) : Prop :=
  ∃ byte, bytes[start]? = some byte ∧ 0x80 ≤ byte

-- What a turn at an offset tells of the search from there.
inductive Turn.Tells (bytes : Bytes) (pos : Nat) : Turn → Prop where
  | ended (answer : nextFault bytes pos = none) : Tells bytes pos .ended
  | skips {run : Nat} (positive : 1 ≤ run) (fits : pos + run ≤ bytes.length)
      (same : nextFault bytes pos = nextFault bytes (pos + run)) : Tells bytes pos (.skips run)
  | passes {width : Nat} (lead : LeadAt bytes pos) (positive : 1 ≤ width)
      (fits : pos + width ≤ bytes.length)
      (same : nextFault bytes pos = nextFault bytes (pos + width)) : Tells bytes pos (.passes width)
  | stops {subpart : Subpart} (lead : LeadAt bytes pos)
      (answer : nextFault bytes pos = some ⟨pos, subpart⟩) : Tells bytes pos (.stops subpart)

variable {bytes rest : Bytes} {byte : UInt8} {pos start : Nat} {fault : Fault}

theorem scan_shift (before pos : Nat) (bytes : Bytes) :
    scan (before + pos) bytes = (scan pos bytes).map (Fault.shift before) := by
  induction reading bytes generalizing pos with
  | nil => rw [scan_nil, scan_nil, Option.map_none]
  | scalar scalar _ ih => rw [scan_scalar, scan_scalar, Nat.add_assoc, ih]
  | cut present opening => rw [scan_cut present opening, scan_cut present opening]; rfl
  | broken broken _ _ => rw [scan_broken broken, scan_broken broken]; rfl

theorem scan_high (high : ¬ isAscii byte = true) (pos : Nat) (rest : Bytes) :
    scan pos (byte :: rest) =
      match readSequence byte rest with
      | .ok width => scan (pos + width) ((byte :: rest).drop width)
      | .error subpart => some ⟨pos, subpart⟩ := by
  rw [scan, dif_neg high]
  split
  · rename_i width read
    rw [read]
  · rename_i subpart read
    rw [read]

theorem drop_none (ended : bytes[pos]? = none) : bytes.drop pos = [] :=
  List.drop_eq_nil_of_le (List.getElem?_eq_none_iff.mp ended)

theorem drop_some (here : bytes[pos]? = some byte) :
    bytes.drop pos = byte :: bytes.drop (pos + 1) := by
  rw [List.drop_eq_getElem?_toList_append, here]
  rfl

-- Behind an offset stands what the offsets behind it hold.
theorem followAt_eq (bytes : Bytes) (start need seen : Nat) (lower upper : UInt8) :
    followAt bytes start need seen lower upper =
      follow need seen lower upper (bytes.drop (start + seen)) := by
  induction need generalizing seen lower upper with
  | zero => rfl
  | succ need ih =>
    rw [followAt]
    cases here : bytes[start + seen]? with
    | none => rw [drop_none here, follow]
    | some byte => rw [drop_some here, follow, ih, Nat.add_assoc]

theorem readAt?_eq (here : bytes[start]? = some byte) (high : ¬ isAscii byte = true) :
    readAt? bytes start = some (readSequence byte (bytes.drop (start + 1))) := by
  rw [readAt?, here, readSequence]
  dsimp only
  rw [if_neg high]
  cases Lead.of? byte with
  | none => rfl
  | some lead => exact congrArg some (followAt_eq bytes start (lead.width - 1) 1 lead.lower lead.upper)

theorem turn?_ended (ended : bytes[pos]? = none) : turn? bytes pos = some .ended := by
  rw [turn?, ended]

theorem turn?_skips (here : bytes[pos]? = some byte) (ascii : isAscii byte = true) :
    turn? bytes pos = some (.skips (asciiRun (bytes.drop pos))) := by
  rw [turn?, here]
  exact if_pos ascii

theorem turn?_reads (here : bytes[pos]? = some byte) (high : ¬ isAscii byte = true) :
    turn? bytes pos = some (.ofRead (readSequence byte (bytes.drop (pos + 1)))) := by
  rw [turn?, here]
  dsimp only
  rw [if_neg high, readAt?_eq here high]
  rfl

-- A turn is always made, and tells what it should.
theorem turn?_tells (bytes : Bytes) (pos : Nat) :
    ∃ turn, turn? bytes pos = some turn ∧ turn.Tells bytes pos := by
  cases here : bytes[pos]? with
  | none => exact ⟨_, turn?_ended here, .ended (by rw [nextFault, drop_none here, scan_nil])⟩
  | some byte =>
    have inside := (List.getElem?_eq_some_iff.mp here).1
    have front := drop_some here
    by_cases ascii : isAscii byte = true
    · have fits := asciiRun_le (bytes.drop pos)
      rw [List.length_drop] at fits
      refine ⟨_, turn?_skips here ascii, .skips ?_ (by omega) ?_⟩
      · rw [front]
        exact asciiRun_pos _ ascii
      · rw [nextFault, nextFault, ← List.drop_drop, front, scan, dif_pos ascii]
    · have lead : LeadAt bytes pos :=
        ⟨byte, here, UInt8.not_lt.mp fun below => ascii (isAscii_iff.mpr below)⟩
      refine ⟨_, turn?_reads here ascii, ?_⟩
      cases read : readSequence byte (bytes.drop (pos + 1)) with
      | ok width =>
        have bounds := readSequence_ok read
        rw [List.length_drop] at bounds
        refine .passes lead (by omega) (by omega) ?_
        rw [nextFault, nextFault, ← List.drop_drop, front, scan_high ascii, read]
      | error subpart =>
        refine .stops lead ?_
        rw [nextFault, front, scan_high ascii, read]

-- Every turn but the last takes a byte of the input at least, so a search ends.
theorem searches_end (bytes : Bytes) (pos : Nat) :
    ∃ reads, Searches bytes pos reads (nextFault bytes pos) := by
  induction left : bytes.length - pos using Nat.strongRecOn generalizing pos with
  | ind left ih =>
    subst left
    obtain ⟨turn, made, tells⟩ := turn?_tells bytes pos
    cases tells with
    | ended answer =>
      rw [answer]
      exact ⟨[], .ended made⟩
    | @skips run positive fits same =>
      obtain ⟨reads, others⟩ := ih _ (by omega) (pos + run) rfl
      rw [same]
      exact ⟨reads, .skips made others⟩
    | @passes width lead positive fits same =>
      obtain ⟨reads, others⟩ := ih _ (by omega) (pos + width) rfl
      rw [same]
      exact ⟨pos :: reads, .passes made others⟩
    | stops lead answer =>
      rw [answer]
      exact ⟨[pos], .stops made⟩

theorem tells_of_turn {turn : Turn} (made : turn? bytes pos = some turn) :
    turn.Tells bytes pos := by
  obtain ⟨other, same, tells⟩ := turn?_tells bytes pos
  rw [made] at same
  cases same
  exact tells

theorem Searches.exact {reads : List Nat} {answer : Option Fault}
    (searches : Searches bytes pos reads answer) :
    answer = nextFault bytes pos ∧ ∀ start ∈ reads, LeadAt bytes start := by
  induction searches with
  | ended ends =>
    cases tells_of_turn ends with
    | ended answer => exact ⟨answer.symm, List.forall_mem_nil _⟩
  | skips skips _ ih =>
    cases tells_of_turn skips with
    | skips _ _ same => exact ⟨ih.1.trans same.symm, ih.2⟩
  | passes passes _ ih =>
    cases tells_of_turn passes with
    | passes lead _ _ same => exact ⟨ih.1.trans same.symm, List.forall_mem_cons.mpr ⟨lead, ih.2⟩⟩
  | stops stops =>
    cases tells_of_turn stops with
    | stops lead answer => exact ⟨answer.symm, List.forall_mem_singleton.mpr lead⟩

def between (bytes : Bytes) (first last : Nat) : Bytes :=
  (bytes.drop first).take (last - first)

structure Fault.Found (bytes : Bytes) (pos : Nat) (fault : Fault) : Prop where
  behind : pos ≤ fault.offset
  passed : WellFormed (between bytes pos fault.offset)
  small : 1 ≤ fault.subpart.length ∧ fault.subpart.length ≤ 3
  inside : fault.offset + fault.subpart.length ≤ bytes.length
  truncated : ∀ length, fault.subpart = .truncated length →
    fault.offset + fault.subpart.length = bytes.length

theorem nextFault_found (found : nextFault bytes pos = some fault) : fault.Found bytes pos := by
  obtain ⟨behind, positive, small, fits⟩ := scan_bounds found
  obtain ⟨valid, rest, parts, wellFormed, offset, stops⟩ := scan_some found
  have total := congrArg List.length parts
  rw [List.length_drop, List.length_append] at total
  rw [List.length_drop, Fault.next] at fits
  refine ⟨behind, ?_, ⟨positive, small⟩, by omega, ?_⟩
  · rwa [between, parts, offset, Nat.add_sub_cancel_left, List.take_left]
  · intro length cut
    rw [cut] at stops positive ⊢
    cases stops with
    | truncated =>
      simp only [Subpart.length] at positive ⊢
      omega

structure SearchExact (bytes : Bytes) (pos : Nat) : Prop where
  plain : nextFault bytes pos = plainFault bytes pos
  shifted : nextFault bytes pos = (nextFault (bytes.drop pos) 0).map (Fault.shift pos)
  found : ∀ fault, nextFault bytes pos = some fault → fault.Found bytes pos
  ends : ∃ reads, Searches bytes pos reads (nextFault bytes pos)
  only : ∀ reads answer, Searches bytes pos reads answer →
    answer = nextFault bytes pos ∧ ∀ start ∈ reads, LeadAt bytes start
  turns : ∃ turn, turn? bytes pos = some turn

theorem search_exact (bytes : Bytes) (pos : Nat) : SearchExact bytes pos where
  plain := scan_exact pos (bytes.drop pos)
  shifted := scan_shift pos 0 (bytes.drop pos)
  found _ := nextFault_found
  ends := searches_end bytes pos
  only _ _ := Searches.exact
  turns := by
    obtain ⟨turn, made, _⟩ := turn?_tells bytes pos
    exact ⟨turn, made⟩

end InternPool.Utf8
