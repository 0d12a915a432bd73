import Mathlib.Data.Finmap
import Mathlib.Data.List.Find
import InternPool.Keyed.HandleMap

namespace InternPool

inductive MapRequest (κ α : Type) where
  | insert (key : κ) (value : α)
  | get (key : κ)
  | remove (key : κ)
deriving Repr, DecidableEq

inductive SetRequest (κ : Type) where
  | insert (key : κ)
  | contains (key : κ)
  | remove (key : κ)
deriving Repr, DecidableEq

structure Keeping (μ κ α : Type) where
  get? : μ → κ → Option α
  insert : μ → κ → α → μ
  erase : μ → κ → μ
  size : μ → Nat

variable {ι κ ρ μ ν α : Type}

namespace MapRequest

def key : MapRequest κ α → κ
  | .insert key _ | .get key | .remove key => key

def rename (name : ι → κ) : MapRequest ι α → MapRequest κ α
  | .insert key value => .insert (name key) value
  | .get key => .get (name key)
  | .remove key => .remove (name key)

theorem key_rename (name : ι → κ) (request : MapRequest ι α) :
    (request.rename name).key = name request.key := by
  cases request <;> rfl

end MapRequest

namespace SetRequest

def key : SetRequest κ → κ
  | .insert key | .contains key | .remove key => key

def rename (name : ι → κ) : SetRequest ι → SetRequest κ
  | .insert key => .insert (name key)
  | .contains key => .contains (name key)
  | .remove key => .remove (name key)

-- A set is a map that keeps nothing under its keys.
def asMap : SetRequest κ → MapRequest κ Unit
  | .insert key => .insert key ()
  | .contains key => .get key
  | .remove key => .remove key

-- The answer, when that was kept under the key before: whether the key is new to the set, or was in it.
def reply (before : Option Unit) : SetRequest κ → Bool
  | .insert _ => before.isNone
  | .contains _ | .remove _ => before.isSome

theorem key_asMap (request : SetRequest κ) : request.asMap.key = request.key := by
  cases request <;> rfl

theorem asMap_rename (name : ι → κ) (request : SetRequest ι) :
    (request.rename name).asMap = request.asMap.rename name := by
  cases request <;> rfl

theorem reply_rename (name : ι → κ) (before : Option Unit) (request : SetRequest ι) :
    (request.rename name).reply before = request.reply before := by
  cases request <;> rfl

end SetRequest

namespace Keeping

def handles : Keeping (HandleMap α) Handle α :=
  ⟨HandleMap.get?, HandleMap.insert, HandleMap.erase, HandleMap.size⟩

def finmap [DecidableEq κ] : Keeping (Finmap fun _ : κ => α) κ α where
  get? map key := map.lookup key
  insert map key value := map.insert key value
  erase map key := map.erase key
  size map := map.keys.card

def finset [DecidableEq κ] : Keeping (Finset κ) κ Unit where
  get? set key := if key ∈ set then some () else none
  insert set key _ := Insert.insert key set
  erase set key := set.erase key
  size set := set.card

def apply (keeping : Keeping μ κ α) (kept : μ) : MapRequest κ α → μ
  | .insert key value => keeping.insert kept key value
  | .get _ => kept
  | .remove key => keeping.erase kept key

def answerAll (keeping : Keeping μ κ α) (kept : μ) : List (MapRequest κ α) → List (Option α) × Nat
  | [] => ([], keeping.size kept)
  | request :: rest =>
    let later := keeping.answerAll (keeping.apply kept request) rest
    (keeping.get? kept request.key :: later.1, later.2)

def answerSet (keeping : Keeping μ κ Unit) (kept : μ) (requests : List (SetRequest κ)) :
    List Bool × Nat :=
  let answered := keeping.answerAll kept (requests.map SetRequest.asMap)
  (List.zipWith (fun before request => request.reply before) answered.1 requests, answered.2)

-- A finite map: a change is seen under its own key alone, and the size is the number of keys that
-- something is kept under.
structure Finite [DecidableEq κ] (keeping : Keeping μ κ α) : Prop where
  insert : ∀ kept key value other, keeping.get? (keeping.insert kept key value) other =
    if other = key then some value else keeping.get? kept other
  erase : ∀ kept key other, keeping.get? (keeping.erase kept key) other =
    if other = key then none else keeping.get? kept other
  size : ∀ kept, ∃ keys : Finset κ, keeping.size kept = keys.card ∧
    ∀ key, key ∈ keys ↔ (keeping.get? kept key).isSome = true

theorem finmap_finite [DecidableEq κ] : (finmap : Keeping (Finmap fun _ : κ => α) κ α).Finite where
  insert map key value other := by
    split
    · rename_i same
      subst same
      exact Finmap.lookup_insert map
    · rename_i differs
      exact Finmap.lookup_insert_of_ne map differs
  erase map key other := by
    split
    · rename_i same
      subst same
      exact Finmap.lookup_erase other map
    · rename_i differs
      exact Finmap.lookup_erase_ne differs
  size map := ⟨map.keys, rfl, fun _ => Finmap.mem_keys.trans Finmap.lookup_isSome.symm⟩

theorem finset_finite [DecidableEq κ] : (finset : Keeping (Finset κ) κ Unit).Finite where
  insert set key _ other := by
    by_cases same : other = key <;> simp [finset, same]
  erase set key other := by
    by_cases same : other = key <;> simp [finset, same]
  size set := by
    refine ⟨set, rfl, ?_⟩
    intro key
    by_cases member : key ∈ set <;> simp [finset, member]

-- Two ways to keep values that answer alike, each asked under its own keys for what is meant.
structure Alike (keeping : Keeping μ κ α) (other : Keeping ν ρ α) (first : ι → κ) (second : ι → ρ)
    (admits : ι → Prop) (related : μ → ν → Prop) : Prop where
  get? : ∀ {kept held}, related kept held → ∀ {id}, admits id →
    keeping.get? kept (first id) = other.get? held (second id)
  insert : ∀ {kept held}, related kept held → ∀ {id}, admits id → ∀ value,
    related (keeping.insert kept (first id) value) (other.insert held (second id) value)
  erase : ∀ {kept held}, related kept held → ∀ {id}, admits id →
    related (keeping.erase kept (first id)) (other.erase held (second id))
  size : ∀ {kept held}, related kept held → keeping.size kept = other.size held

variable {keeping : Keeping μ κ α} {other : Keeping ν ρ α} {first : ι → κ} {second : ι → ρ}
  {admits : ι → Prop} {related : μ → ν → Prop} {kept : μ} {held : ν}

theorem Alike.apply (alike : Alike keeping other first second admits related)
    (same : related kept held) {request : MapRequest ι α} (known : admits request.key) :
    related (keeping.apply kept (request.rename first))
      (other.apply held (request.rename second)) := by
  cases request with
  | insert key value => exact alike.insert same known value
  | get key => exact same
  | remove key => exact alike.erase same known

theorem Alike.answerAll (alike : Alike keeping other first second admits related)
    (same : related kept held) {requests : List (MapRequest ι α)}
    (known : ∀ request ∈ requests, admits request.key) :
    keeping.answerAll kept (requests.map (MapRequest.rename first)) =
      other.answerAll held (requests.map (MapRequest.rename second)) := by
  induction requests generalizing kept held with
  | nil => exact congrArg (Prod.mk []) (alike.size same)
  | cons request rest ih =>
    obtain ⟨here, later⟩ := List.forall_mem_cons.mp known
    simp only [List.map_cons, Keeping.answerAll, MapRequest.key_rename]
    rw [alike.get? same here, ih (alike.apply same here) later]

theorem Alike.answerSet {keeping : Keeping μ κ Unit} {other : Keeping ν ρ Unit}
    (alike : Alike keeping other first second admits related) (same : related kept held)
    {requests : List (SetRequest ι)} (known : ∀ request ∈ requests, admits request.key) :
    keeping.answerSet kept (requests.map (SetRequest.rename first)) =
      other.answerSet held (requests.map (SetRequest.rename second)) := by
  have asked : ∀ request ∈ requests.map SetRequest.asMap, admits request.key := by
    intro request member
    obtain ⟨origin, present, rfl⟩ := List.mem_map.mp member
    rw [SetRequest.key_asMap]
    exact known origin present
  have answers := alike.answerAll same asked
  have renamed : ∀ {γ : Type} (name : ι → γ),
      (requests.map (SetRequest.rename name)).map SetRequest.asMap =
        (requests.map SetRequest.asMap).map (MapRequest.rename name) := by
    intro γ name
    simp only [List.map_map, Function.comp_def, SetRequest.asMap_rename]
  simp only [Keeping.answerSet, renamed, answers, List.zipWith_map_right, SetRequest.reply_rename]

end Keeping

namespace HandleMap

-- The names tell keys apart just as the map does.
def Named (handle : ι → Handle) (name : ι → κ) (admits : ι → Prop) : Prop :=
  ∀ one other, admits one → admits other →
    (hits (handle one) (handle other) = true ↔ name one = name other)

variable [DecidableEq κ] {handle : ι → Handle} {name : ι → κ} {admits : ι → Prop}
  {map : HandleMap α} {rows : List (ι × α)} {id : ι} {value : α}

def heldBy (name : ι → κ) (rows : List (ι × α)) (key : κ) : Option α :=
  (rows.find? fun row => decide (name row.1 = key)).map (·.2)

-- The rows are the pairs of the map, and no two of them have one name.
structure HasRows (handle : ι → Handle) (name : ι → κ) (admits : ι → Prop) (map : HandleMap α)
    (rows : List (ι × α)) : Prop where
  pairs : map.pairs = rows.map fun row => (handle row.1, row.2)
  admitted : ∀ row ∈ rows, admits row.1
  distinct : (rows.map fun row => name row.1).Nodup

theorem heldBy_cons (row : ι × α) (rest : List (ι × α)) (key : κ) :
    heldBy name (row :: rest) key =
      if name row.1 = key then some row.2 else heldBy name rest key := by
  by_cases same : name row.1 = key <;> simp [heldBy, same]

theorem heldBy_isSome {key : κ} :
    (heldBy name rows key).isSome = true ↔ key ∈ rows.map fun row => name row.1 := by
  rw [heldBy, Option.isSome_map, List.find?_isSome, List.mem_map]
  simp only [decide_eq_true_iff]

theorem heldBy_replace (named : κ) (value : α) (key : κ) :
    heldBy name (rows.map fun row => if name row.1 = named then (row.1, value) else row) key =
      if key = named then (heldBy name rows key).map fun _ => value else heldBy name rows key := by
  induction rows with
  | nil => simp [heldBy]
  | cons row rest ih =>
    rw [List.map_cons, heldBy_cons, heldBy_cons, ih]
    by_cases replaced : name row.1 = named
    · subst replaced
      by_cases here : name row.1 = key
      · simp [here]
      · simp [here]
    · by_cases here : name row.1 = key
      · subst here
        simp [replaced]
      · simp [here, replaced]

theorem heldBy_filter (named key : κ) :
    heldBy name (rows.filter fun row => !decide (name row.1 = named)) key =
      if key = named then none else heldBy name rows key := by
  induction rows with
  | nil => simp [heldBy]
  | cons row rest ih =>
    rw [heldBy_cons]
    by_cases removed : name row.1 = named
    · rw [List.filter_cons_of_neg (by simp [removed]), ih]
      by_cases same : key = named
      · rw [if_pos same, if_pos same]
      · have elsewhere : name row.1 ≠ key := by
          intro here
          exact same (here.symm.trans removed)
        rw [if_neg same, if_neg same, if_neg elsewhere]
    · rw [List.filter_cons_of_pos (by simp [removed]), heldBy_cons, ih]
      by_cases here : name row.1 = key
      · subst here
        simp [removed]
      · simp [here]

section
variable (hasRows : HasRows handle name admits map rows) (named : Named handle name admits)
include hasRows named

theorem HasRows.hits (known : admits id) {row : ι × α} (member : row ∈ rows) :
    hits (handle row.1) (handle id) = decide (name row.1 = name id) := by
  rw [Bool.eq_iff_iff, decide_eq_true_iff]
  exact named row.1 id (hasRows.admitted row member) known

theorem HasRows.get? (known : admits id) : map.get? (handle id) = heldBy name rows (name id) := by
  rw [HandleMap.get?, heldBy, hasRows.pairs, List.find?_map, Option.map_map]
  congr 1
  apply List.find?_congr
  intro row member
  exact hasRows.hits named known member

theorem HasRows.insert (known : admits id) (value : α) : ∃ later,
    HasRows handle name admits (map.insert (handle id) value) later ∧
      ∀ key, heldBy name later key = if key = name id then some value else heldBy name rows key := by
  have found := hasRows.get? named known
  rw [HandleMap.insert, contains, found]
  split
  · rename_i present
    refine ⟨rows.map fun row => if name row.1 = name id then (row.1, value) else row,
      ⟨?_, ?_, ?_⟩, ?_⟩
    · rw [hasRows.pairs, List.map_map, List.map_map]
      apply List.map_congr_left
      intro row member
      simp only [Function.comp_apply, hasRows.hits named known member, decide_eq_true_iff]
      split <;> rfl
    · intro row member
      obtain ⟨old, was, rfl⟩ := List.mem_map.mp member
      split
      · exact hasRows.admitted old was
      · exact hasRows.admitted old was
    · rw [List.map_map]
      convert hasRows.distinct using 2
      funext row
      rw [Function.comp_apply]
      split <;> rfl
    · intro key
      rw [heldBy_replace]
      split
      · rename_i same
        obtain ⟨old, held⟩ := Option.isSome_iff_exists.mp present
        rw [same, held, Option.map_some]
      · rfl
  · rename_i absent
    rw [heldBy_isSome] at absent
    refine ⟨(id, value) :: rows, ⟨?_, ?_, ?_⟩, ?_⟩
    · rw [hasRows.pairs, List.map_cons]
    · exact List.forall_mem_cons.mpr ⟨known, hasRows.admitted⟩
    · rw [List.map_cons, List.nodup_cons]
      exact ⟨absent, hasRows.distinct⟩
    · intro key
      rw [heldBy_cons]
      simp only [eq_comm]

theorem HasRows.erase (known : admits id) : ∃ later,
    HasRows handle name admits (map.erase (handle id)) later ∧
      ∀ key, heldBy name later key = if key = name id then none else heldBy name rows key := by
  refine ⟨_, ⟨?_, ?_, ?_⟩, heldBy_filter (name id)⟩
  · rw [HandleMap.erase, hasRows.pairs, List.filter_map]
    refine congrArg (List.map _) (List.filter_congr ?_)
    intro row member
    rw [Function.comp_apply, hasRows.hits named known member]
  · intro row member
    exact hasRows.admitted row (List.mem_filter.mp member).1
  · exact hasRows.distinct.sublist (List.filter_sublist.map _)

end

def Mirrors (handle : ι → Handle) (name : ι → κ) (admits : ι → Prop) (kept : κ → Option α)
    (map : HandleMap α) : Prop :=
  ∃ rows, HasRows handle name admits map rows ∧ ∀ key, kept key = heldBy name rows key

-- A map of handles answers as any finite map does that is asked for their names.
theorem alike_finite (named : Named handle name admits) {reference : Keeping ν κ α}
    (finite : reference.Finite) :
    Keeping.Alike Keeping.handles reference handle name admits
      fun map held => Mirrors handle name admits (reference.get? held) map where
  get? := by
    rintro map held ⟨rows, hasRows, same⟩ id known
    rw [same]
    exact hasRows.get? named known
  insert := by
    rintro map held ⟨rows, hasRows, same⟩ id known value
    obtain ⟨later, kept, has⟩ := hasRows.insert named known value
    refine ⟨later, kept, ?_⟩
    intro key
    rw [finite.insert, has, same]
  erase := by
    rintro map held ⟨rows, hasRows, same⟩ id known
    obtain ⟨later, kept, has⟩ := hasRows.erase named known
    refine ⟨later, kept, ?_⟩
    intro key
    rw [finite.erase, has, same]
  size := by
    rintro map held ⟨rows, hasRows, same⟩
    obtain ⟨keys, size, members⟩ := finite.size held
    have listed : keys = (rows.map fun row => name row.1).toFinset := by
      ext key
      rw [members, same, heldBy_isSome, List.mem_toFinset]
    change map.pairs.length = _
    rw [size, listed, List.toFinset_card_of_nodup hasRows.distinct, hasRows.pairs, List.length_map,
      List.length_map]

theorem keeps_empty {kept : κ → Option α} (empty : ∀ key, kept key = none) :
    Mirrors handle name admits kept {} := by
  refine ⟨[], ⟨rfl, ?_, List.nodup_nil⟩, empty⟩
  intro row member
  cases member

-- Asked by handles, a map or a set answers as a finite one does that is asked by names, and has its
-- size in the end.
structure KeyedBy (handle : ι → Handle) (name : ι → κ) (admits : ι → Prop) : Prop where
  maps : ∀ {α : Type} {requests : List (MapRequest ι α)},
    (∀ request ∈ requests, admits request.key) →
    Keeping.handles.answerAll {} (requests.map (MapRequest.rename handle)) =
      Keeping.finmap.answerAll ∅ (requests.map (MapRequest.rename name))
  sets : ∀ {requests : List (SetRequest ι)}, (∀ request ∈ requests, admits request.key) →
    Keeping.handles.answerSet {} (requests.map (SetRequest.rename handle)) =
      Keeping.finset.answerSet ∅ (requests.map (SetRequest.rename name))

theorem Named.keyedBy (named : Named handle name admits) : KeyedBy handle name admits where
  maps known := by
    refine (alike_finite named Keeping.finmap_finite).answerAll (keeps_empty ?_) known
    exact Finmap.lookup_empty
  sets known :=
    (alike_finite named Keeping.finset_finite).answerSet (keeps_empty fun _ => rfl) known

end HandleMap

end InternPool
