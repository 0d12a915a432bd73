import InternPool.Hash.Xxh3
import InternPool.Proofs.Table.Refinement

namespace InternPool

-- An answer tells of the entries of its table, then and later: the handle that has the content, or
-- that there was none to find.
def Request.Fits (entries : List Handle) : Request → Response Handle → Prop
  | .call made, .handle (some handle) => handle ∈ entries ∧ handle.content = made.content
  | .call made, .handle none => made.interns = false
  | .call _, _ => False
  | _, _ => True

theorem Request.Fits.mono {entries later : List Handle} {request : Request}
    {response : Response Handle} (fits : request.Fits entries response)
    (kept : ∀ handle ∈ entries, handle ∈ later) : request.Fits later response := by
  cases request with
  | call call =>
    cases response with
    | handle found =>
      cases found with
      | none => exact fits
      | some handle => exact ⟨kept handle fits.1, fits.2⟩
    | count | flag | stats | lengths | entries => exact fits
  | length | isEmpty | stats | shardLengths | entries => exact fits

theorem Request.Fits.interning {entries : List Handle} {call : Call} {response : Response Handle}
    (fits : (Request.call call).Fits entries response) (interns : call.interns = true) :
    ∃ handle ∈ entries, handle.content = call.content ∧ response = .handle (some handle) := by
  cases response with
  | handle found =>
    cases found with
    | none =>
      change call.interns = false at fits
      rw [interns] at fits
      cases fits
    | some handle => exact ⟨handle, fits.1, fits.2, rfl⟩
  | count | flag | stats | lengths | entries => cases fits

theorem eraseDups_eq_nil {history : List Bytes} : history.eraseDups = [] ↔ history = [] := by
  cases history with
  | nil => simp
  | cons content rest => simp [List.eraseDups_cons]

namespace Table

section
variable [ContentHash] {table : Table} {process : Process}

theorem Valid.call_kept (valid : table.Valid process.buffers) (call : Call) {handle : Handle}
    (member : handle ∈ table.entries) : handle ∈ (table.call process call).table.entries := by
  rcases valid.call_cases process call with
    ⟨_, _, _, called⟩ | ⟨_, _, called⟩ | ⟨_, _, called⟩
  · rwa [called]
  · rwa [called]
  · rw [called]
    exact (entries_add (valid.inside _)).mem_iff.mpr (List.mem_cons_of_mem _ member)

theorem Valid.call_fits (valid : table.Valid process.buffers) (call : Call) :
    (Request.call call).Fits (table.call process call).table.entries
      (.handle (table.call process call).handle) := by
  rcases valid.call_cases process call with
    ⟨handle, member, same, called⟩ | ⟨_, looks, called⟩ | ⟨_, _, called⟩
  · rw [called]
    exact ⟨member, same⟩
  · rw [called]
    exact looks
  · rw [called]
    refine ⟨(entries_add (valid.inside _)).mem_iff.mpr List.mem_cons_self, ?_⟩
    rw [fresh, Process.content_buffer]

theorem Valid.answer (valid : table.Valid process.buffers) (request : Request) :
    (table.answer process request).table.Valid (table.answer process request).process.buffers := by
  cases request with
  | call call => exact valid.call call
  | length | isEmpty | stats | shardLengths | entries => exact valid

theorem Valid.answer_kept (valid : table.Valid process.buffers) (request : Request)
    {handle : Handle} (member : handle ∈ table.entries) :
    handle ∈ (table.answer process request).table.entries := by
  cases request with
  | call call => exact valid.call_kept call member
  | length | isEmpty | stats | shardLengths | entries => exact member

theorem Valid.answer_fits (valid : table.Valid process.buffers) (request : Request) :
    request.Fits (table.answer process request).table.entries
      (table.answer process request).response := by
  cases request with
  | call call => exact valid.call_fits call
  | length | isEmpty | stats | shardLengths | entries => trivial

theorem Valid.answerAll_kept (valid : table.Valid process.buffers) (requests : List Request)
    {handle : Handle} (member : handle ∈ table.entries) :
    handle ∈ (table.answerAll process requests).table.entries := by
  induction requests generalizing table process with
  | nil => exact member
  | cons request rest ih => exact ih (valid.answer request) (valid.answer_kept request member)

theorem Valid.answerAll_fits (valid : table.Valid process.buffers) (requests : List Request) :
    List.Forall₂ (Request.Fits (table.answerAll process requests).table.entries) requests
      (table.answerAll process requests).responses := by
  induction requests generalizing table process with
  | nil => exact .nil
  | cons request rest ih =>
    have further := valid.answer request
    have fits := valid.answer_fits request
    exact .cons (fits.mono fun handle => further.answerAll_kept rest) (ih further)

-- A text and its bytes are the same content, so asking with either is the same.
theorem call_internText_bytes (table : Table) (process : Process) (text : String) :
    table.call process (.internText text) = table.call process (.intern (Utf8.ofText text)) := by
  rw [call_internText, call_intern, internText, intern,
    Utf8.repair_kept (Utf8.ofText_wellFormed text)]

theorem call_getText_bytes (table : Table) (process : Process) (text : String) :
    table.call process (.getText text) = table.call process (.get (Utf8.ofText text)) := by
  rw [call_getText, call_get, getText, get, Utf8.repair_kept (Utf8.ofText_wellFormed text)]

-- A run that began with `first` as the next buffer, and all there is to say of it afterwards.
structure Ran.Refines (ran : Ran) (first : Nat) (requests : List Request) : Prop where
  agrees : List.Forall₂ Response.Agrees ran.responses
    (Catalog.answerAll { next := first } requests).1
  fits : List.Forall₂ (Request.Fits ran.table.entries) requests ran.responses
  distinct : ran.table.entries.Nodup
  items : (ran.table.entries.map Handle.item).Perm
    (Catalog.answerAll { next := first } requests).2.items
  contents : (Catalog.answerAll { next := first } requests).2.items.map Item.content =
    (interned requests).eraseDups
  buffers : (Catalog.answerAll { next := first } requests).2.items.map Item.buffer =
    List.range' first (interned requests).eraseDups.length
  found : ∀ bytes handle, ran.table.get bytes = some handle ↔
    handle ∈ ran.table.entries ∧ handle.content = (Utf8.repair bytes).value
  missed : ∀ bytes, ran.table.get bytes = none ↔
    (Utf8.repair bytes).value ∉ interned requests
  looks : ∀ bytes, ran.table.call ran.process (.get bytes) =
    ⟨ran.table.get bytes, ran.table, ran.process⟩
  internText : ∀ text, ran.table.call ran.process (.internText text) =
    ran.table.call ran.process (.intern (Utf8.ofText text))
  getText : ∀ text, ran.table.call ran.process (.getText text) =
    ran.table.call ran.process (.get (Utf8.ofText text))
  length : ran.table.length = (interned requests).eraseDups.length
  isEmpty : ran.table.isEmpty = true ↔ interned requests = []
  stats : ran.table.stats =
    { entries := (interned requests).eraseDups.length
      contentBytes := total ((interned requests).eraseDups.map (·.length + 1))
      shards := ran.table.shards.length }

theorem Matches.contents {catalog : Catalog} (matched : table.Matches process catalog) {first : Nat}
    {history : List Bytes} (arrivals : catalog.FirstArrivals first history) :
    (table.entries.map Handle.content).Perm history.eraseDups := by
  have contents := matched.items.map Item.content
  rwa [List.map_map, arrivals.contents] at contents

theorem Matches.buffers {catalog : Catalog} (matched : table.Matches process catalog) {first : Nat}
    {history : List Bytes} (arrivals : catalog.FirstArrivals first history) :
    (table.entries.map (·.buffer.number)).Perm
      (List.range' first (process.buffers - first)) := by
  have buffers := matched.items.map Item.buffer
  rw [List.map_map, arrivals.buffers] at buffers
  rwa [matched.next, arrivals.next, Nat.add_sub_cancel_left]

theorem answerAll_refines {options : Options} (built : withOptions options = .ok table)
    (process : Process) (requests : List Request) :
    (table.answerAll process requests).Refines process.buffers requests := by
  obtain ⟨agrees, matched⟩ := (built_matches built process).answerAll requests
  have arrivals := (Catalog.starts process.buffers).answerAll requests
  rw [List.nil_append] at arrivals
  have contents := matched.contents arrivals
  have size : (table.answerAll process requests).table.entries.length =
      (interned requests).eraseDups.length := by
    rw [← contents.length_eq, List.length_map]
  refine
    { agrees, fits := ?_, distinct := ?_, items := matched.items, contents := arrivals.contents,
      buffers := ?_, found := ?_, missed := ?_, looks := call_get _ _,
      internText := call_internText_bytes _ _, getText := call_getText_bytes _ _, length := ?_,
      isEmpty := ?_, stats := ?_ }
  · exact (built_valid built process.buffers).answerAll_fits requests
  · exact matched.valid.contents.of_map Handle.content
  · rw [arrivals.buffers, ← arrivals.contents, List.length_map]
  · intro bytes handle
    exact matched.valid.probe_iff
  · intro bytes
    rw [get, getContent, matched.valid.probe_none_iff, ← List.mem_eraseDups, ← contents.mem_iff,
      List.mem_map]
    constructor
    · intro absent present
      obtain ⟨handle, member, same⟩ := present
      exact absent handle member same
    · intro absent handle member same
      exact absent ⟨handle, member, same⟩
  · rw [length_entries, size]
  · rw [isEmpty, length_entries, size, beq_iff_eq, List.length_eq_zero_iff, eraseDups_eq_nil]
  · have bytes := total_perm (contents.map (·.length + 1))
    rw [List.map_map] at bytes
    rw [matched.valid.stats_entries, size, ← bytes]
    rfl

end

-- Two spellings of one content, two other contents, looks that find and that miss, and all observers
-- between them, in a process that has handed out two buffers before.
theorem answerAll_refines_mended :
    let options : Options := { shards := 4, initialCapacity := 3, arenaChunkSize := 0, hashSeed := 7 }
    let process : Process := { store := #[[0], [0x61, 0]] }
    let requests : List Request :=
      [.isEmpty, .call (.intern [0xFF]), .call (.getText "a"), .stats, .call (.intern [0xC3]),
        .call (.internText "a"), .call (.intern []), .length, .shardLengths, .entries, .stats,
        .call (.get [0x61])]
    let mended : Handle :=
      ⟨⟨2, [0xEF, 0xBF, 0xBD, 0]⟩, ContentHasher.hash ⟨7⟩ [0xEF, 0xBF, 0xBD]⟩
    let text : Handle := ⟨⟨3, [0x61, 0]⟩, ContentHasher.hash ⟨7⟩ [0x61]⟩
    let empty : Handle := ⟨⟨4, [0]⟩, ContentHasher.hash ⟨7⟩ []⟩
    let ran := (build options).answerAll process requests
    withOptions options = .ok (build options) ∧ ran.Refines 2 requests ∧
      (interned requests).eraseDups = [mended.content, text.content, empty.content] ∧
      ran.responses = [.flag true, .handle (some mended), .handle none, .stats ⟨1, 4, 4⟩,
        .handle (some mended), .handle (some text), .handle (some empty), .count 3,
        .lengths [0, 0, 1, 2], .entries [mended, empty, text], .stats ⟨3, 7, 4⟩,
        .handle (some text)] := by
  intro options process requests mended text empty ran
  have accepted : options.validate = .ok () := by decide
  have built : withOptions options = .ok (build options) := by rw [withOptions, accepted]
  exact ⟨built, answerAll_refines built process requests, by decide +kernel, by decide +kernel⟩

end Table

end InternPool
