import Mathlib.Data.List.Dedup
import Mathlib.Data.List.Induction
import Mathlib.Data.Prod.Basic
import InternPool.Keyed.OrderedMap

namespace InternPool

variable {κ ν μ : Type} {bytes : κ → Bytes} {view : ν → Bytes}
  {pairs given filed other : List (κ × ν)}

-- Pairs whose keys ascend by the bytes that they stand for.
def Ascends (bytes : κ → Bytes) (pairs : List (κ × ν)) : Prop :=
  pairs.Pairwise fun one other => compare (bytes one.1) (bytes other.1) = .lt

theorem Ascends.nodup (ascends : Ascends bytes pairs) : (pairs.map Prod.fst).Nodup := by
  rw [List.Nodup, List.pairwise_map]
  refine ascends.imp ?_
  intro one other below same
  rw [same, Std.compare_self] at below
  cases below

theorem Ascends.unique (ascends : Ascends bytes filed) (also : Ascends bytes other)
    (same : ∀ key value, (key, value) ∈ filed ↔ (key, value) ∈ other) : filed = other := by
  apply List.Perm.eq_of_pairwise ?_ ascends also
  · rw [List.perm_ext_iff_of_nodup ascends.nodup.of_map also.nodup.of_map]
    rintro ⟨key, value⟩
    exact same key value
  · intro one other _ _ below above
    rw [Std.OrientedCmp.gt_iff_lt.mpr above] at below
    cases below

variable {key : κ} {value : ν} [BEq κ]

structure Files (bytes : κ → Bytes) (given filed : List (κ × ν)) : Prop where
  ascends : Ascends bytes filed
  last : ∀ key value, (key, value) ∈ filed ↔ given.reverse.lookup key = some value

theorem Files.unique (files : Files bytes given filed) (also : Files bytes given other) :
    filed = other :=
  files.ascends.unique also.ascends fun key value =>
    (files.last key value).trans (also.last key value).symm

variable [LawfulBEq κ]

theorem lookup_mem (found : pairs.lookup key = some value) : (key, value) ∈ pairs := by
  obtain ⟨before, after, rfl, _⟩ := List.lookup_eq_some_iff.mp found
  exact List.mem_append_right _ List.mem_cons_self

theorem lookup_iff_mem (distinct : (pairs.map Prod.fst).Nodup) :
    pairs.lookup key = some value ↔ (key, value) ∈ pairs := by
  refine ⟨lookup_mem, ?_⟩
  intro member
  obtain ⟨before, after, rfl⟩ := List.append_of_mem member
  refine List.lookup_eq_some_iff.mpr ⟨before, after, rfl, ?_⟩
  rw [List.map_append, List.nodup_append] at distinct
  intro pair earlier
  rw [bne_iff_ne]
  exact (distinct.2.2 pair.1 (List.mem_map_of_mem earlier) key List.mem_cons_self).symm

-- Renaming keys changes no lookup if it takes no other key to the name of this one.
theorem lookup_map {ι : Type} [BEq ι] [LawfulBEq ι] {name : κ → ι} {view : ν → μ}
    (only : ∀ pair ∈ pairs, name pair.1 = name key → pair.1 = key) :
    (pairs.map (Prod.map name view)).lookup (name key) = (pairs.lookup key).map view := by
  induction pairs with
  | nil => rfl
  | cons pair rest ih =>
    obtain ⟨first, later⟩ := List.forall_mem_cons.mp only
    have same : (name key == name pair.1) = (key == pair.1) := by
      rw [Bool.eq_iff_iff, beq_iff_eq, beq_iff_eq]
      exact ⟨fun equal => (first equal.symm).symm, congrArg name⟩
    rw [List.map_cons, List.lookup_cons, List.lookup_cons, Prod.map_fst, same, ih later]
    cases key == pair.1 <;> rfl

theorem lookup_reverse_map {ι : Type} [BEq ι] [LawfulBEq ι] {name : κ → ι} {view : ν → μ}
    (only : ∀ pair ∈ pairs, name pair.1 = name key → pair.1 = key) :
    (pairs.map (Prod.map name view)).reverse.lookup (name key) =
      (pairs.reverse.lookup key).map view := by
  rw [← List.map_reverse]
  exact lookup_map fun pair member => only pair (List.mem_reverse.mp member)

namespace Files

theorem refl (ascends : Ascends bytes filed) : Files bytes filed filed := by
  refine ⟨ascends, ?_⟩
  intro key value
  rw [lookup_iff_mem, List.mem_reverse]
  rw [List.map_reverse, List.nodup_reverse]
  exact ascends.nodup

theorem subset (files : Files bytes given filed) : filed ⊆ given := by
  rintro ⟨key, value⟩ member
  exact List.mem_reverse.mp (lookup_mem ((files.last key value).mp member))

theorem count [DecidableEq κ] (files : Files bytes given filed) :
    filed.length = (given.map Prod.fst).dedup.length := by
  rw [← List.length_map Prod.fst]
  apply List.Perm.length_eq
  rw [List.perm_ext_iff_of_nodup files.ascends.nodup (List.nodup_dedup _)]
  intro key
  rw [List.mem_dedup]
  constructor
  · intro member
    exact List.map_subset _ files.subset member
  · intro member
    cases found : given.reverse.lookup key with
    | some value => exact List.mem_map_of_mem ((files.last _ _).mpr found)
    | none =>
      obtain ⟨pair, held, rfl⟩ := List.mem_map.mp member
      have missing := List.lookup_eq_none_iff.mp found pair (List.mem_reverse.mpr held)
      exact absurd rfl (bne_iff_ne.mp missing)

-- What is left stays so when keys and values are replaced by bytes, if keys do not share theirs.
theorem toBytes (files : Files bytes given filed)
    (only : ∀ one ∈ given, ∀ other ∈ given, bytes one.1 = bytes other.1 → one.1 = other.1) :
    Files id (given.map (Prod.map bytes view)) (filed.map (Prod.map bytes view)) := by
  have looked {pair : κ × ν} (held : pair ∈ given) :
      (given.map (Prod.map bytes view)).reverse.lookup (bytes pair.1) =
        (given.reverse.lookup pair.1).map view :=
    lookup_reverse_map fun other member => only other member pair held
  refine ⟨List.pairwise_map.mpr files.ascends, ?_⟩
  intro name content
  constructor
  · intro member
    obtain ⟨⟨key, value⟩, held, same⟩ := List.mem_map.mp member
    cases same
    rw [looked (files.subset held), (files.last key value).mp held]
    rfl
  · intro found
    obtain ⟨pair, held, same⟩ := List.mem_map.mp (List.mem_reverse.mp (lookup_mem found))
    cases same
    rw [looked held] at found
    obtain ⟨value, last, same⟩ := Option.map_eq_some_iff.mp found
    exact List.mem_map.mpr ⟨(pair.1, value), (files.last _ _).mpr last, Prod.ext rfl same⟩

theorem ofBytes (named : Function.Injective bytes) (viewed : Function.Injective view)
    (files : Files id (given.map (Prod.map bytes view)) (filed.map (Prod.map bytes view))) :
    Files bytes given filed := by
  refine ⟨List.pairwise_map.mp files.ascends, ?_⟩
  intro key value
  rw [← List.mem_map_of_injective (named.prodMap viewed), Prod.map_apply, files.last,
    lookup_reverse_map fun _ _ same => named same, Option.map_eq_some_iff]
  constructor
  · rintro ⟨other, found, same⟩
    rwa [← viewed same]
  · intro found
    exact ⟨value, found, rfl⟩

end Files

-- Handles of which no two have one content, so that their contents decide their order.
structure Handle.Apart (place : Placement) (keys : Handle → Prop) : Prop where
  order : ∀ {one other}, keys one → keys other →
    Handle.compare place one other = Ord.compare one.content other.content
  same : ∀ {one other}, keys one → keys other → one.content = other.content → one = other

namespace OrderedMap

variable {α : Type} {place : Placement} {keys : Handle → Prop} {pairs : List (Handle × α)}
  {key stored : Handle} {value : α}

theorem ofPairs_concat (pairs : List (Handle × α)) (pair : Handle × α) :
    ofPairs place (pairs ++ [pair]) = (ofPairs place pairs).insert pair.1 pair.2 :=
  List.foldl_concat _ _ _ _

theorem getKey?_ofPairs (found : (ofPairs place pairs).getKey? key = some stored) :
    ∃ value, (stored, value) ∈ pairs := by
  induction pairs using List.reverseRecOn with
  | nil => cases found
  | append_singleton pairs pair ih =>
    rw [ofPairs_concat, Std.TreeMap.getKey?_insert] at found
    split at found
    · cases found
      exact ⟨pair.2, List.mem_append_right _ List.mem_cons_self⟩
    · obtain ⟨value, member⟩ := ih found
      exact ⟨value, List.mem_append_left _ member⟩

theorem compare_eq_iff (apart : Handle.Apart place keys) (first : keys stored)
    (second : keys key) : Handle.compare place stored key = .eq ↔ stored = key := by
  rw [apart.order first second, Std.LawfulEqCmp.compare_eq_iff_eq]
  exact ⟨apart.same first second, congrArg _⟩

theorem getElem?_ofPairs (apart : Handle.Apart place keys) (listed : ∀ pair ∈ pairs, keys pair.1)
    (known : keys key) : (ofPairs place pairs)[key]? = pairs.reverse.lookup key := by
  induction pairs using List.reverseRecOn with
  | nil => rfl
  | append_singleton pairs pair ih =>
    obtain ⟨before, last⟩ := List.forall_mem_append.mp listed
    have eq_iff := compare_eq_iff apart (last pair List.mem_cons_self) known
    rw [ofPairs_concat, Std.TreeMap.getElem?_insert, ih before, List.reverse_concat,
      List.lookup_cons]
    by_cases same : pair.1 = key
    · rw [if_pos (eq_iff.mpr same), beq_iff_eq.mpr same.symm]
    · rw [if_neg fun equal => same (eq_iff.mp equal), beq_eq_false_iff_ne.mpr (Ne.symm same)]

theorem ofPairs_files (apart : Handle.Apart place keys) (listed : ∀ pair ∈ pairs, keys pair.1) :
    Files Handle.content pairs (ofPairs place pairs).toList := by
  have stored {key value} (member : (key, value) ∈ (ofPairs place pairs).toList) : keys key := by
    obtain ⟨found, _⟩ :=
      Std.TreeMap.mem_toList_iff_getKey?_eq_some_and_getElem?_eq_some.mp member
    obtain ⟨value, held⟩ := getKey?_ofPairs found
    exact listed _ held
  refine ⟨?_, ?_⟩
  · refine Std.TreeMap.ordered_keys_toList.imp_of_mem ?_
    intro one other first second below
    rwa [apart.order (stored first) (stored second)] at below
  · intro key value
    constructor
    · intro member
      rw [← getElem?_ofPairs apart listed (stored member)]
      exact (Std.TreeMap.mem_toList_iff_getKey?_eq_some_and_getElem?_eq_some.mp member).2
    · intro found
      have known : keys key := listed _ (List.mem_reverse.mp (lookup_mem found))
      rw [← getElem?_ofPairs apart listed known,
        Std.TreeMap.getElem?_eq_some_iff_exists_compare_eq_eq_and_mem_toList] at found
      obtain ⟨other, equal, member⟩ := found
      rwa [(compare_eq_iff apart known (stored member)).mp equal]

theorem toList_ofPairs (apart : Handle.Apart place keys) (listed : ∀ pair ∈ pairs, keys pair.1)
    (ascends : Ascends Handle.content pairs) : (ofPairs place pairs).toList = pairs :=
  (ofPairs_files apart listed).unique (.refl ascends)

end OrderedMap

end InternPool
