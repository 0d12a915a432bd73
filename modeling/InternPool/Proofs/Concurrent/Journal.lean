import InternPool.Proofs.Concurrent.EndState
import InternPool.Proofs.Concurrent.Snapshot
import InternPool.Proofs.Table.LogText

namespace InternPool

def Options.line [ContentHash] (options : Options) (content : Bytes) : Event :=
  .canonicalized content.length (options.hasher.hash content) (options.placeOf content)

def Event.contentBytes : Event → Nat
  | .canonicalized length _ _ => length + 1
  | _ => 0

structure Site.Logs [ContentHash] (options : Options) (before after : Site) (contents : List Bytes) :
    Prop where
  log : after.process.log = (contents.map options.line).reverse ++ before.process.log
  entries : (after.table.entries.map Handle.content).Perm
    (before.table.entries.map Handle.content ++ contents)

namespace Site

variable [ContentHash] {options : Options} {before middle after site : Site}
  {contents others : List Bytes}

theorem Logs.refl (options : Options) (site : Site) : site.Logs options site [] :=
  ⟨rfl, by rw [List.append_nil]⟩

theorem Logs.trans (first : before.Logs options middle contents)
    (second : middle.Logs options after others) :
    before.Logs options after (contents ++ others) := by
  refine ⟨?_, ?_⟩
  · rw [second.log, first.log, List.map_append, List.reverse_append, List.append_assoc]
  · rw [← List.append_assoc]
    exact second.entries.trans (first.entries.append_right others)

end Site

namespace Table

variable {table : Table} {process : Process} {options : Options} {contents : List Bytes}

def lacking (table : Table) (contents : List Bytes) : List Bytes :=
  contents.filter fun content => decide (content ∉ table.entries.map Handle.content)

theorem lacking_held {content : Bytes} (held : content ∈ table.entries.map Handle.content) :
    table.lacking [content] = [] := by
  rw [lacking, List.filter_cons_of_neg (by rwa [decide_eq_true_iff, not_not]), List.filter_nil]

theorem lacking_free {content : Bytes} (free : content ∉ table.entries.map Handle.content) :
    table.lacking [content] = [content] := by
  rw [lacking, List.filter_cons_of_pos (by rwa [decide_eq_true_iff]), List.filter_nil]

theorem lacking_eq {history : List Bytes} (content? : Option Bytes)
    (same : ∀ content, content ∈ table.entries.map Handle.content ↔ content ∈ history) :
    history.eraseDups ++ table.lacking content?.toList = (history ++ content?.toList).eraseDups := by
  cases content? with
  | none =>
    rw [Option.toList_none, List.append_nil]
    exact List.append_nil _
  | some content =>
    rw [Option.toList_some, eraseDups_snoc]
    by_cases held : content ∈ history
    · rw [lacking_held ((same content).mpr held), if_pos held, List.append_nil]
    · rw [lacking_free (fun present => held ((same content).mp present)), if_neg held]

section
variable [ContentHash]

-- The contents that requests bring in: one for each request that interns what the table does not
-- hold by then.
def arrivals (table : Table) (process : Process) : List Request → List Bytes
  | [] => []
  | request :: rest =>
    let answered := table.answer process request
    table.lacking request.interned.toList ++ answered.table.arrivals answered.process rest

structure Records (table : Table) (options : Options) (contents : List Bytes) : Prop where
  distinct : contents.Nodup
  entries : (table.entries.map Handle.content).Perm contents
  placed : ∀ content ∈ contents, ∃ handle ∈ (table.shard (options.placeOf content)).entries,
    handle.content = content ∧ handle.hash = options.hasher.hash content
  traced : ∀ line ∈ contents.map options.line, line.level = "trace"
  length : (contents.map options.line).length = table.length
  contentBytes : total ((contents.map options.line).map Event.contentBytes) =
    table.stats.contentBytes

theorem enter_logs (accepted : options.validate = .ok ()) {site : Site}
    (sound : site.Sound options) (content : Bytes) :
    let entered := site.table.enter site.process (options.hasher.hash content) content
    site.Logs options ⟨entered.table, entered.process⟩ (site.table.lacking [content]) := by
  have entering := sound.valid.enter_cases site.process content
  rw [sound.shaped.hasher, ← Options.hasher] at entering
  rcases entering with ⟨winner, member, same, entered⟩ | ⟨absent, entered⟩
  · rw [lacking_held (List.mem_map.mpr ⟨winner, member, same⟩), entered]
    exact .refl options site
  · have free : content ∉ site.table.entries.map Handle.content := by
      rw [List.mem_map]
      rintro ⟨handle, member, same⟩
      exact absent handle member same
    rw [lacking_free free, entered]
    refine ⟨?_, ?_⟩
    · rw [List.map_singleton, Options.line, Options.placeOf, ← sound.shaped.shardOf accepted]
      rfl
    · have grown := (entries_add (sound.valid.inside
        (site.table.fresh site.process content).hash)).map Handle.content
      rw [List.map_cons, fresh, Process.content_buffer] at grown
      exact grown.trans (List.perm_append_singleton content _).symm

-- A look writes nothing, found or missed, and no more does an observer.
theorem answer_logs (accepted : options.validate = .ok ()) {site : Site}
    (sound : site.Sound options) (request : Request) :
    let answered := site.table.answer site.process request
    site.Logs options ⟨answered.table, answered.process⟩
      (site.table.lacking request.interned.toList) := by
  cases request with
  | call call =>
    rw [answer, Request.interned]
    cases interns : call.interns with
    | true =>
      have logs := enter_logs accepted sound call.content
      rw [call_interning interns, sound.shaped.hasher]
      exact logs
    | false =>
      rw [call_looking interns]
      exact .refl options site
  | length | isEmpty | stats | shardLengths | entries => exact .refl options site

theorem answer_sound {site : Site} (sound : site.Sound options) (request : Request) :
    let answered := site.table.answer site.process request
    Site.Sound options ⟨answered.table, answered.process⟩ :=
  ⟨sound.valid.answer request, sound.shaped.answer site.process request⟩

theorem answerAll_sound {site : Site} (sound : site.Sound options) (requests : List Request) :
    let ran := site.table.answerAll site.process requests
    Site.Sound options ⟨ran.table, ran.process⟩ := by
  induction requests generalizing site with
  | nil => exact sound
  | cons request rest ih => exact ih (answer_sound sound request)

theorem answerAll_logs (accepted : options.validate = .ok ()) {site : Site}
    (sound : site.Sound options) (requests : List Request) :
    let ran := site.table.answerAll site.process requests
    site.Logs options ⟨ran.table, ran.process⟩ (site.table.arrivals site.process requests) := by
  induction requests generalizing site with
  | nil => exact .refl options site
  | cons request rest ih =>
    exact (answer_logs accepted sound request).trans (ih (answer_sound sound request))

-- What requests bring in is what they intern, less what interns before them had brought.
theorem arrivals_eq (accepted : options.validate = .ok ()) {site : Site}
    (sound : site.Sound options) {history : List Bytes}
    (same : ∀ content, content ∈ site.table.entries.map Handle.content ↔ content ∈ history)
    (requests : List Request) :
    history.eraseDups ++ site.table.arrivals site.process requests =
      (history ++ interned requests).eraseDups := by
  induction requests generalizing site history with
  | nil => rw [arrivals, interned, List.filterMap_nil, List.append_nil, List.append_nil]
  | cons request rest ih =>
    have logs := answer_logs accepted sound request
    have grown := lacking_eq request.interned same
    have further : ∀ content,
        content ∈ (site.table.answer site.process request).table.entries.map Handle.content ↔
          content ∈ history ++ request.interned.toList := by
      intro content
      rw [logs.entries.mem_iff, ← List.mem_eraseDups (l := history ++ _), ← grown,
        List.mem_append, List.mem_append, List.mem_eraseDups, same]
    have all : interned (request :: rest) = request.interned.toList ++ interned rest := by
      rw [interned, List.filterMap_cons]
      cases request.interned <;> rfl
    rw [arrivals, ← List.append_assoc, grown, ih (answer_sound sound request) further, all,
      List.append_assoc]

theorem Valid.records {buffers : Nat} (valid : table.Valid buffers) (shaped : table.Shaped options)
    (accepted : options.validate = .ok ())
    (entries : (table.entries.map Handle.content).Perm contents) :
    table.Records options contents := by
  have tallies := valid.tallies shaped accepted entries
  refine ⟨entries.nodup_iff.mp valid.contents, entries, ?_, ?_, ?_, ?_⟩
  · intro content member
    obtain ⟨handle, present, rfl⟩ := List.mem_map.mp (entries.mem_iff.mpr member)
    obtain ⟨number, _, placed⟩ := mem_entries.mp present
    have here := valid.placed number handle placed
    rw [valid.placeOf shaped accepted present] at here
    exact ⟨handle, here ▸ placed, rfl, valid.hashed shaped present⟩
  · intro line member
    obtain ⟨content, _, rfl⟩ := List.mem_map.mp member
    rfl
  · rw [List.length_map, tallies.length]
  · rw [List.map_map, tallies.stats]
    rfl

theorem sections_log (accepted : options.validate = .ok ()) (start : Site) :
    sections.Keeps (fun site => site.Sound options ∧ ∃ contents, start.Logs options site contents)
      (Unfinished.Sound ⟨options.hashSeed⟩) := by
  have keeps := sections_keep options
  constructor
  · rintro site ⟨sound, logged⟩ request
    obtain ⟨kept, waits⟩ := keeps.first sound request
    have same : (sections.first site request).shared = site := by cases request <;> rfl
    refine ⟨⟨kept, ?_⟩, waits⟩
    rwa [same]
  · rintro site further ⟨sound, contents, logs⟩ waits
    obtain ⟨kept, ends⟩ := keeps.later sound waits
    refine ⟨⟨kept, ?_⟩, ends⟩
    cases further with
    -- Who lost a race finds the content there, and then there is nothing to log.
    | missed hash content =>
      obtain ⟨rfl, _⟩ := waits
      exact ⟨_, logs.trans (enter_logs accepted sound content)⟩
    | walking request seen => exact ⟨contents, logs⟩

section
variable {requests : List (List Request)}
  {state : Threads Site Request Unfinished (Response Handle)}
  (built : withOptions options = .ok table)
  (path : Threads.Runs sections (table.threads process requests) state)
include built path

theorem threads_log : ∃ contents, Site.Logs options ⟨table, process⟩ state.shared contents := by
  have keeps := sections_log (withOptions_ok_iff.mp built).1 ⟨table, process⟩
  refine ((Threads.start_sound ?_ requests).runs keeps path).shared.2
  exact ⟨built_sound built process, [], .refl options _⟩

theorem ended_told {last : Ended Request (Response Handle)} (member : last ∈ state.ended) :
    table.Told state.shared.table last.call last.answer := by
  have begun : Threads.Runs sections (table.threads process requests) _ := .nil
  have start := moment_tracked (reached_sound built begun) (Threads.start_timed _ requests)
  exact (start.runs (sections_track options table 0) path).ended last member (Nat.zero_le _)

theorem mem_ended_contents (content : Bytes) :
    content ∈ state.shared.table.entries.map Handle.content ↔
      content ∈ interned (state.ended.map Ended.call) := by
  rw [List.mem_map, interned, List.mem_filterMap]
  constructor
  · rintro ⟨handle, held, rfl⟩
    obtain ⟨last, ended, ⟨call, asked, interns⟩, answer⟩ := (entries_given built path handle).mp held
    have told := ended_told built path ended
    rw [asked, answer] at told
    cases told with
    | found _ same =>
      refine ⟨.call call, List.mem_map.mpr ⟨last, ended, asked⟩, ?_⟩
      rw [Request.interned, if_pos interns, same]
  · rintro ⟨request, asked, interns⟩
    obtain ⟨last, ended, made⟩ := List.mem_map.mp asked
    have told := ended_told built path ended
    rw [made] at told
    generalize last.answer = answer at told
    cases told with
    | missing looks => simp [Request.interned, looks] at interns
    | found held same =>
      simp only [Request.interned, Option.ite_none_right_eq_some, Option.some.injEq] at interns
      exact ⟨_, held, same.trans interns.2⟩
    | _ => cases interns

end

theorem log_exact (built : withOptions options = .ok table) (process : Process) :
    (∀ earlier requests,
      let ran := table.answerAll process earlier
      (ran.table.answerAll ran.process requests).process.log =
        ((ran.table.arrivals ran.process requests).map options.line).reverse ++ ran.process.log) ∧
    (∀ requests,
      (table.answerAll process requests).process.log =
          ((interned requests).eraseDups.map options.line).reverse ++ process.log ∧
        (table.answerAll process requests).table.Records options (interned requests).eraseDups) ∧
    (∀ requests (state : Threads Site Request Unfinished (Response Handle)),
      Threads.Runs sections (table.threads process requests) state →
        ∃ contents,
          state.shared.process.log = (contents.map options.line).reverse ++ process.log ∧
          state.shared.table.Records options contents ∧
          (∀ content, content ∈ contents ↔ content ∈ interned (state.ended.map Ended.call)) ∧
          (state.isOver = true →
            ∀ content, content ∈ contents ↔ content ∈ interned requests.flatten)) ∧
    ∀ content, (options.line content).Renders content.length (options.hasher.hash content)
      (options.placeOf content) := by
  have begun := built_sound built process
  obtain ⟨accepted, rfl⟩ := withOptions_ok_iff.mp built
  have empty : (build options).entries.map Handle.content = [] := by
    rw [build_entries, List.map_nil]
  refine ⟨?_, ?_, ?_, fun content => Event.canonicalized_renders _ _ _⟩
  · intro earlier requests
    exact (answerAll_logs accepted (answerAll_sound begun earlier) requests).log
  · intro requests
    have logs := answerAll_logs accepted begun requests
    have sound := answerAll_sound begun requests
    have held : ∀ content : Bytes,
        content ∈ (build options).entries.map Handle.content ↔ content ∈ [] := by simp [empty]
    have arrived := arrivals_eq accepted begun held requests
    rw [List.eraseDups_nil, List.nil_append, List.nil_append] at arrived
    have entries := logs.entries
    rw [arrived, empty, List.nil_append] at entries
    refine ⟨?_, sound.valid.records sound.shaped accepted entries⟩
    rw [← arrived]
    exact logs.log
  · intro requests state path
    have reached := (reached_sound built path).shared
    obtain ⟨contents, logs⟩ := threads_log built path
    have entries := logs.entries
    rw [empty, List.nil_append] at entries
    have held := mem_ended_contents built path
    simp only [entries.mem_iff] at held
    refine ⟨contents, logs.log, reached.valid.records reached.shaped accepted entries, held, ?_⟩
    intro finished content
    have accounts := (Threads.start_accounts (Site.mk (build options) process) requests).runs path
    rw [held, mem_interned fun request => accounts.mem_ended finished]

end

-- One after the other, a hit, a look and an observer between two contents that come in; then two
-- threads that both miss one content under two spellings.
theorem log_exact_racing :
    let options : Options := { shards := 2, hashSeed := 7 }
    let replacement : Bytes := [0xEF, 0xBF, 0xBD]
    let requests : List Request := [.call (.intern [0xFF]), .call (.get [0xC3]),
      .call (.intern [0xC3]), .stats, .call (.internText "a")]
    let racing : List (List Request) := [[.call (.intern [0xFF])], [.call (.intern [0xC3])]]
    withOptions options = .ok (build options) ∧
      ((build options).answerAll { log := [.initializing] } requests).process.log =
        [options.line [0x61], options.line replacement, .initializing] ∧
      (options.line [0x61]).message =
        "canonicalized 1 bytes (hash 0x9ed5888bc5a2a094) in shard 1" ∧
      ∃ state : Threads Site Request Unfinished (Response Handle),
        Threads.Runs sections ((build options).threads {} racing) state ∧
        state.ended.map (·.began) = [0, 1] ∧ state.isOver = true ∧
        state.shared.process.log = [options.line replacement] := by
  intro options replacement requests racing
  have built : withOptions { shards := 2, hashSeed := 7 } = .ok (build options) := rfl
  have path : Threads.Runs sections ((build options).threads {} racing) _ :=
    Threads.run_runs _ [0, 1, 1, 0]
  have asked : interned requests = [replacement, replacement, [0x61]] := by decide +kernel
  have raced : interned racing.flatten = [replacement, replacement] := by decide +kernel
  obtain ⟨_, sequential, _⟩ := log_exact built { log := [.initializing] }
  obtain ⟨_, _, threaded, _⟩ := log_exact built {}
  refine ⟨built, ?_, by decide +kernel, _, path, by decide +kernel, by decide +kernel, ?_⟩
  · rw [(sequential requests).1, asked]
    rfl
  · obtain ⟨contents, log, records, _, all⟩ := threaded racing _ path
    have once : contents = [replacement] := by
      rw [← List.perm_singleton, List.perm_ext_iff_of_nodup records.distinct (by decide)]
      intro content
      rw [all (by decide +kernel), raced]
      simp
    rw [log, once]
    rfl

end Table

end InternPool
