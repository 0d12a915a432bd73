import Mathlib.Data.List.Count
import InternPool.Hash.Xxh3
import InternPool.Proofs.Table.Account
import InternPool.Proofs.Table.Tally

namespace InternPool

theorem total_add {α : Type} (list : List α) (first second : α → Nat) :
    total (list.map fun item => first item + second item) =
      total (list.map first) + total (list.map second) := by
  induction list with
  | nil => rfl
  | cons item rest ih =>
    simp only [total, List.map_cons, List.foldr_cons] at ih ⊢
    omega

theorem total_indicator {α : Type} (list : List α) (test : α → Bool) :
    total (list.map fun item => if test item = true then 1 else 0) = list.countP test := by
  induction list with
  | nil => rfl
  | cons item rest ih =>
    rw [List.countP_cons, ← ih, Nat.add_comm]
    rfl

theorem total_zeros {α : Type} (list : List α) : total (list.map fun _ => 0) = 0 := by
  induction list with
  | nil => rfl
  | cons item rest ih => simpa [total] using ih

namespace Options

-- A remainder by the finer count is in one place, and that place has the remainder by the coarser.
theorem total_refined {coarse fine : Nat} (divides : coarse ∣ fine) (positive : 0 < fine)
    (number hash : Nat) :
    total (((List.range fine).filter (· % coarse == number)).map fun place =>
      if (hash % fine == place) = true then 1 else 0) =
        if (hash % coarse == number) = true then 1 else 0 := by
  have once : ((List.range fine).filter (· % coarse == number)).Nodup :=
    List.nodup_range.filter _
  have inside := Nat.mod_lt hash positive
  have counted := once.count (a := hash % fine)
  simp only [List.count_eq_countP, List.mem_filter, List.mem_range, inside, true_and,
    Nat.mod_mod_of_dvd hash divides] at counted
  rw [total_indicator, ← counted]
  apply List.countP_congr
  intro place _
  rw [beq_iff_eq, beq_iff_eq]
  exact eq_comm

theorem countP_regrouped {coarse fine : Nat} (divides : coarse ∣ fine) (positive : 0 < fine)
    (key : Bytes → Nat) (contents : List Bytes) (number : Nat) :
    contents.countP (fun content => key content % coarse == number) =
      total (((List.range fine).filter (· % coarse == number)).map fun place =>
        contents.countP fun content => key content % fine == place) := by
  induction contents with
  | nil => simp only [List.countP_nil, total_zeros]
  | cons content rest ih =>
    simp only [List.countP_cons]
    rw [total_add, ← ih, total_refined divides positive]

def regroup (coarse : Nat) (lengths : List Nat) : List Nat :=
  (List.range coarse).map fun number =>
    total (((List.range lengths.length).filter (· % coarse == number)).map fun place =>
      lengths.getD place 0)

variable [ContentHash]

theorem spread_regrouped {options others : Options} (seeds : options.hashSeed = others.hashSeed)
    (divides : options.shards.toNat ∣ others.shards.toNat) (positive : 0 < others.shards.toNat)
    (contents : List Bytes) :
    options.spread contents = regroup options.shards.toNat (others.spread contents) := by
  have size : (others.spread contents).length = others.shards.toNat := by simp [spread]
  have hashers : options.hasher = others.hasher := by rw [hasher, hasher, seeds]
  rw [regroup, size, spread]
  apply List.map_congr_left
  intro number _
  rw [show options.placeOf = fun content =>
      (others.hasher.hash content >>> 32).toNat % options.shards.toNat by
    funext content
    rw [placeOf, hashers]]
  rw [countP_regrouped divides positive]
  congr 1
  apply List.map_congr_left
  intro place member
  have inside := List.mem_range.mp (List.mem_filter.mp member).1
  simp [spread, List.getD_eq_getElem?_getD, inside, placeOf]

end Options

def Response.handle? {α : Type} : Response α → Option α
  | .handle found => found
  | _ => none

namespace Table

def Ran.handles (ran : Ran) : List (Option Handle) :=
  ran.responses.map Response.handle?

def Ran.SameHandle (ran : Ran) (first second : Nat) : Prop :=
  ∃ handle twin, ran.handles[first]? = some (some handle) ∧
    ran.handles[second]? = some (some twin) ∧ handle.same twin = true

section
variable [ContentHash]

def callAll (table : Table) (process : Process) (calls : List Call) : Ran :=
  table.answerAll process (calls.map Request.call)

variable {table left right : Table} {process one other : Process} {options others : Options}
  {buffers : Nat}

theorem handles_cons (table : Table) (process : Process) (call : Call) (rest : List Call) :
    (table.callAll process (call :: rest)).handles =
      (table.call process call).handle ::
        ((table.call process call).table.callAll (table.call process call).process rest).handles :=
  rfl

theorem length_handles (table : Table) (process : Process) (calls : List Call) :
    (table.callAll process calls).handles.length = calls.length := by
  induction calls generalizing table process with
  | nil => rfl
  | cons call rest ih => rw [handles_cons, List.length_cons, ih, List.length_cons]

-- A call answers with its content, or with nothing if it is a look for what is not there.
theorem Valid.call_content (valid : table.Valid process.buffers) (call : Call) :
    (table.call process call).handle.map Handle.content =
      if call.interns = true ∨ call.content ∈ table.entries.map Handle.content then
        some call.content
      else none := by
  rcases valid.call_cases process call with
    ⟨handle, member, same, called⟩ | ⟨absent, looks, called⟩ | ⟨_, interns, called⟩
  · have present : call.content ∈ table.entries.map Handle.content :=
      List.mem_map.mpr ⟨handle, member, same⟩
    rw [called, if_pos (.inr present), Option.map_some, same]
  · rw [called, if_neg]
    · rfl
    · rw [looks, List.mem_map]
      rintro (interns | ⟨handle, member, same⟩)
      · cases interns
      · exact absent handle member same
  · rw [called, if_pos (.inl interns), Option.map_some, fresh, Process.content_buffer]

theorem Valid.call_holds (valid : table.Valid process.buffers) (call : Call) (content : Bytes) :
    content ∈ (table.call process call).table.entries.map Handle.content ↔
      (call.interns = true ∧ content = call.content) ∨
        content ∈ table.entries.map Handle.content := by
  rcases valid.call_cases process call with
    ⟨handle, member, same, called⟩ | ⟨_, looks, called⟩ | ⟨_, interns, called⟩
  · rw [called, iff_or_self]
    rintro ⟨_, rfl⟩
    exact List.mem_map.mpr ⟨handle, member, same⟩
  · rw [called, looks]
    simp
  · have grown := (entries_add (valid.inside
      (table.fresh process call.content).hash)).map Handle.content
    rw [called, grown.mem_iff, List.map_cons, List.mem_cons, interns, fresh,
      Process.content_buffer]
    simp only [true_and]

theorem callAll_contents (first : left.Valid one.buffers) (second : right.Valid other.buffers)
    (same : ∀ content, content ∈ left.entries.map Handle.content ↔
      content ∈ right.entries.map Handle.content)
    (calls : List Call) :
    (left.callAll one calls).handles.map (Option.map Handle.content) =
      (right.callAll other calls).handles.map (Option.map Handle.content) := by
  induction calls generalizing left right one other with
  | nil => rfl
  | cons call rest ih =>
    have further := ih (first.call call) (second.call call) fun content => by
      rw [first.call_holds, second.call_holds, same]
    rw [handles_cons, handles_cons, List.map_cons, List.map_cons, further, first.call_content,
      second.call_content]
    simp only [same]

theorem Valid.same_iff (valid : table.Valid buffers) {handle twin : Handle}
    (member : handle ∈ table.entries) (present : twin ∈ table.entries) :
    handle.same twin = true ↔ handle.content = twin.content := by
  constructor
  · intro same
    rw [List.inj_on_of_nodup_map valid.distinct member present (beq_iff_eq.mp same)]
  · intro same
    rw [valid.same_content member present same, Handle.same, beq_self_eq_true]

theorem Valid.mem_handles (valid : table.Valid process.buffers) (calls : List Call)
    {handle : Handle} (given : some handle ∈ (table.callAll process calls).handles) :
    handle ∈ (table.callAll process calls).table.entries := by
  induction calls generalizing table process with
  | nil => cases given
  | cons call rest ih =>
    have further := valid.call call
    rcases List.mem_cons.mp (handles_cons table process call rest ▸ given) with here | later
    · have fits := valid.call_fits call
      rw [← here] at fits
      exact further.answerAll_kept (rest.map Request.call) fits.1
    · exact ih further later

theorem callAll_matches (built : withOptions options = .ok table) (process : Process)
    (calls : List Call) :
    (table.callAll process calls).table.Valid (table.callAll process calls).process.buffers ∧
      ((table.callAll process calls).table.entries.map Handle.content).Perm
        (interned (calls.map Request.call)).eraseDups := by
  obtain ⟨_, matched⟩ := (built_matches built process).answerAll (calls.map Request.call)
  exact ⟨matched.valid,
    matched.contents ((Catalog.starts process.buffers).answerAll (calls.map Request.call))⟩

theorem Shaped.callAll (shaped : table.Shaped options) (process : Process) (calls : List Call) :
    (table.callAll process calls).table.Shaped options := by
  induction calls generalizing table process with
  | nil => exact shaped
  | cons call rest ih => exact ih (shaped.call process call) _

theorem callAll_tallies (built : withOptions options = .ok table) (process : Process)
    (calls : List Call) :
    (table.callAll process calls).table.Tallies options
      (interned (calls.map Request.call)).eraseDups := by
  obtain ⟨valid, holds⟩ := callAll_matches built process calls
  obtain ⟨accepted, rfl⟩ := withOptions_ok_iff.mp built
  exact valid.tallies ((build_shaped options).callAll process calls) accepted holds

theorem callAll_hashes (built : withOptions options = .ok table) (process : Process)
    (calls : List Call) :
    (table.callAll process calls).handles.map (Option.map Handle.hash) =
      ((table.callAll process calls).handles.map (Option.map Handle.content)).map
        (Option.map options.hasher.hash) := by
  obtain ⟨valid, _⟩ := callAll_matches built process calls
  have started := built_valid built process.buffers
  obtain ⟨_, rfl⟩ := withOptions_ok_iff.mp built
  rw [List.map_map]
  apply List.map_congr_left
  intro found given
  cases found with
  | none => rfl
  | some handle =>
    have hashed := valid.hashed ((build_shaped options).callAll process calls)
      (started.mem_handles calls given)
    rw [Option.map_some, hashed]
    rfl

-- Which calls give the same handle shows in the contents that they give.
theorem sameHandle_iff (built : withOptions options = .ok table) (process : Process)
    (calls : List Call) (first second : Nat) :
    (table.callAll process calls).SameHandle first second ↔
      ∃ content,
        ((table.callAll process calls).handles.map (Option.map Handle.content))[first]? =
          some (some content) ∧
        ((table.callAll process calls).handles.map (Option.map Handle.content))[second]? =
          some (some content) := by
  obtain ⟨valid, _⟩ := callAll_matches built process calls
  have started := built_valid built process.buffers
  have held : ∀ place handle, (table.callAll process calls).handles[place]? = some (some handle) →
      handle ∈ (table.callAll process calls).table.entries :=
    fun place handle given => started.mem_handles calls (List.mem_of_getElem? given)
  constructor
  · rintro ⟨handle, twin, here, there, same⟩
    have content := (valid.same_iff (held _ _ here) (held _ _ there)).mp same
    refine ⟨handle.content, ?_, ?_⟩
    · rw [List.getElem?_map, here]
      rfl
    · rw [List.getElem?_map, there, content]
      rfl
  · rintro ⟨content, here, there⟩
    simp only [List.getElem?_map, Option.map_eq_some_iff] at here there
    obtain ⟨_, here, handle, rfl, same⟩ := here
    obtain ⟨_, there, twin, rfl, equal⟩ := there
    refine ⟨handle, twin, here, there, ?_⟩
    rw [valid.same_iff (held _ _ here) (held _ _ there), same, equal]

theorem options_indifferent (built : withOptions options = .ok left)
    (also : withOptions others = .ok right) (one other : Process) (calls : List Call) :
    (left.callAll one calls).handles.length = calls.length ∧
      (left.callAll one calls).handles.map (Option.map Handle.content) =
        (right.callAll other calls).handles.map (Option.map Handle.content) ∧
      (∀ first second, (left.callAll one calls).SameHandle first second ↔
        (right.callAll other calls).SameHandle first second) ∧
      (∀ steps, let here := (left.callAll one (calls.take steps)).table
        let there := (right.callAll other (calls.take steps)).table
        here.length = there.length ∧ here.isEmpty = there.isEmpty ∧
          here.stats.entries = there.stats.entries ∧
          here.stats.contentBytes = there.stats.contentBytes) ∧
      (options.hashSeed = others.hashSeed →
        (left.callAll one calls).handles.map (Option.map Handle.hash) =
          (right.callAll other calls).handles.map (Option.map Handle.hash) ∧
        (options.shards.toNat ∣ others.shards.toNat → ∀ steps,
          (left.callAll one (calls.take steps)).table.shardLengths =
            Options.regroup options.shards.toNat
              (right.callAll other (calls.take steps)).table.shardLengths)) := by
  have contents : (left.callAll one calls).handles.map (Option.map Handle.content) =
      (right.callAll other calls).handles.map (Option.map Handle.content) := by
    apply callAll_contents (built_valid built one.buffers) (built_valid also other.buffers)
    intro content
    rw [(withOptions_build built).1, (withOptions_build also).1, build_entries, build_entries]
  refine ⟨length_handles left one calls, contents, ?_, ?_, ?_⟩
  · intro first second
    rw [sameHandle_iff built, sameHandle_iff also, contents]
  · intro steps here there
    have told := callAll_tallies built one (calls.take steps)
    have twice := callAll_tallies also other (calls.take steps)
    simp only [here, there, told.length, twice.length, told.isEmpty, twice.isEmpty, told.stats,
      twice.stats, and_self]
  · intro seeds
    have hashers : options.hasher = others.hasher := by
      rw [Options.hasher, Options.hasher, seeds]
    refine ⟨?_, ?_⟩
    · rw [callAll_hashes built, callAll_hashes also, contents, hashers]
    · intro divides steps
      rw [(callAll_tallies built one (calls.take steps)).shardLengths,
        (callAll_tallies also other (calls.take steps)).shardLengths]
      exact Options.spread_regrouped seeds divides (withOptions_build also).2 _

end

-- Two shards and eight under one seed, with one content in two spellings and one look too early.
theorem options_indifferent_eight :
    let calls : List Call :=
      [.get [0x61], .intern [0xFF], .internText "a", .intern [0xC3], .getText "a", .intern [0x62]]
    let coarse := (build { shards := 2, hashSeed := 7 }).callAll {} calls
    let fine := (build { shards := 8, initialCapacity := 0, hashSeed := 7 }).callAll
      { store := Array.replicate 5 [0] } calls
    withOptions { shards := 2, hashSeed := 7 } = .ok (build { shards := 2, hashSeed := 7 }) ∧
      withOptions { shards := 8, initialCapacity := 0, hashSeed := 7 } =
        .ok (build { shards := 8, initialCapacity := 0, hashSeed := 7 }) ∧
      fine.handles.map (Option.map Handle.content) =
        [none, some [0xEF, 0xBF, 0xBD], some [0x61], some [0xEF, 0xBF, 0xBD], some [0x61],
          some [0x62]] ∧
      coarse.SameHandle 1 3 ∧
      coarse.handles.map (Option.map Handle.hash) = fine.handles.map (Option.map Handle.hash) ∧
      coarse.table.shardLengths = Options.regroup 2 fine.table.shardLengths := by
  intro calls coarse fine
  have built : withOptions { shards := 2, hashSeed := 7 } =
      .ok (build { shards := 2, hashSeed := 7 }) := rfl
  have also : withOptions { shards := 8, initialCapacity := 0, hashSeed := 7 } =
      .ok (build { shards := 8, initialCapacity := 0, hashSeed := 7 }) := rfl
  obtain ⟨_, _, same, _, seeded⟩ :=
    options_indifferent built also {} { store := Array.replicate 5 [0] } calls
  obtain ⟨hashes, regrouped⟩ := seeded rfl
  have contents : fine.handles.map (Option.map Handle.content) =
      [none, some [0xEF, 0xBF, 0xBD], some [0x61], some [0xEF, 0xBF, 0xBD], some [0x61],
        some [0x62]] := by
    decide +kernel
  have twice : fine.SameHandle 1 3 := by
    rw [sameHandle_iff also, contents]
    exact ⟨[0xEF, 0xBF, 0xBD], rfl, rfl⟩
  exact ⟨built, also, contents, (same 1 3).mpr twice, hashes, regrouped (by decide) 6⟩

end Table

end InternPool
