import Mathlib.Data.List.Induction
import NotK8s.Library.Keyed

namespace NotK8s.Library

/-!
# Ordered maps

A map whose entries are kept in key order.  It carries the order as a field,
so that two maps with the same lookups are one map, and the entry list is the
order in which the map is walked.
-/

structure SortedMap (Key Value : Type*) [LinearOrder Key] where
  entries : List (Key × Value)
  sorted : KeySorted Prod.fst entries

namespace SortedMap

variable {Key Value : Type*} [LinearOrder Key]

theorem eq_of_entries {m m' : SortedMap Key Value} (same : m.entries = m'.entries) : m = m' := by
  rcases m with ⟨entries, _⟩
  subst same
  rfl

instance [DecidableEq Value] : DecidableEq (SortedMap Key Value) := fun m m' =>
  decidable_of_iff (m.entries = m'.entries) ⟨eq_of_entries, congrArg entries⟩

def empty : SortedMap Key Value where
  entries := []
  sorted := List.Pairwise.nil

def get (m : SortedMap Key Value) (key : Key) : Option Value :=
  (m.entries.find? fun entry => entry.1 = key).map Prod.snd

def erase (m : SortedMap Key Value) (key : Key) : SortedMap Key Value where
  entries := m.entries.filter fun entry => entry.1 ≠ key
  sorted := m.sorted.filter _

/-- An entry under the same key is replaced. -/
def insert (m : SortedMap Key Value) (key : Key) (value : Value) : SortedMap Key Value where
  entries := (m.erase key).entries.orderedInsert (fun first second => first.1 ≤ second.1) (key, value)
  sorted := (m.erase key).sorted.orderedInsert fun _ stored => of_decide_eq_true (List.mem_filter.mp stored).2

/-- Every entry of the other map in key order, folded into what is held
under its key. -/
def fold {Other : Type*} (combine : Option Value -> Other -> Value) (m : SortedMap Key Value)
    (other : SortedMap Key Other) : SortedMap Key Value :=
  other.entries.foldl (fun held entry => held.insert entry.1 (combine (held.get entry.1) entry.2)) m

/-- The pairs in turn; a later one replaces an earlier one. -/
def ofList (pairs : List (Key × Value)) : SortedMap Key Value :=
  pairs.foldl (fun m pair => m.insert pair.1 pair.2) empty

def filter (m : SortedMap Key Value) (keep : Key -> Value -> Bool) : SortedMap Key Value where
  entries := m.entries.filter fun entry => keep entry.1 entry.2
  sorted := m.sorted.filter _

def mapValues (m : SortedMap Key Value) (f : Value -> Value) : SortedMap Key Value where
  entries := m.entries.map fun entry => (entry.1, f entry.2)
  sorted := m.sorted.map fun _ => rfl

variable {m : SortedMap Key Value} {key other : Key} {value stored : Value}

theorem mem_entries : (key, value) ∈ m.entries <-> m.get key = some value := by
  unfold get
  constructor
  · intro listed
    cases found : m.entries.find? fun entry => entry.1 = key with
    | none =>
      have missed := List.find?_eq_none.mp found (key, value) listed
      simp at missed
    | some entry =>
      have here : entry.1 = key := by simpa using List.find?_some found
      by_cases same : entry = (key, value)
      · rw [same]
        rfl
      · rcases related_of_mem m.sorted (List.mem_of_find?_eq_some found) listed same with less | less
        · exact absurd here (ne_of_lt less)
        · exact absurd here (ne_of_gt less)
  · intro found
    rcases Option.map_eq_some_iff.mp found with ⟨entry, first, rfl⟩
    have here : entry.1 = key := by simpa using List.find?_some first
    rw [← here]
    exact List.mem_of_find?_eq_some first

theorem ext_get {m' : SortedMap Key Value} (same : forall key, m.get key = m'.get key) : m = m' := by
  apply eq_of_entries
  apply m.sorted.eq_of_mem_iff m'.sorted
  rintro ⟨key, value⟩
  rw [mem_entries, mem_entries, same]

@[simp] theorem get_empty : (empty : SortedMap Key Value).get key = none := rfl

theorem get_erase : (m.erase key).get other = if other = key then none else m.get other := by
  apply Option.ext
  intro stored
  rw [← mem_entries]
  unfold erase
  rw [List.mem_filter, mem_entries]
  split_ifs with same <;> simp [same]

theorem get_insert : (m.insert key value).get other = if other = key then some value else m.get other := by
  apply Option.ext
  intro stored
  rw [← mem_entries]
  unfold insert
  rw [(List.perm_orderedInsert _ _ _).mem_iff, List.mem_cons, mem_entries, get_erase, Prod.mk.injEq]
  split_ifs with same <;> simp [same, eq_comm]

theorem get_filter {keep : Key -> Value -> Bool} :
    (m.filter keep).get key = (m.get key).filter (keep key) := by
  apply Option.ext
  intro stored
  rw [← mem_entries, filter, List.mem_filter, mem_entries, Option.filter_eq_some_iff]

theorem get_mapValues {f : Value -> Value} : (m.mapValues f).get key = (m.get key).map f := by
  apply Option.ext
  intro stored
  rw [← mem_entries, mapValues, List.mem_map, Option.map_eq_some_iff]
  constructor
  · rintro ⟨⟨_, value⟩, listed, same⟩
    cases same
    exact ⟨value, mem_entries.mp listed, rfl⟩
  · rintro ⟨value, found, same⟩
    exact ⟨(key, value), mem_entries.mpr found, by rw [same]⟩

section
variable {State Observed : Type*} {step : State -> Key × Value -> State} {observe : State -> Observed}
  {written : Observed -> Value -> Observed} {state : State}

section

variable (acts : forall state entry, observe (step state entry) = if key = entry.1 then written (observe state) entry.2 else observe state)
include acts

private theorem observe_foldl {entries : List (Key × Value)}
    (absent : forall entry, entry ∈ entries -> entry.1 ≠ key) :
    observe (entries.foldl step state) = observe state := by
  induction entries generalizing state with
  | nil => rfl
  | cons head rest ih =>
    rw [List.foldl_cons, ih fun entry listed => absent entry (List.mem_cons_of_mem _ listed),
      acts, if_neg (absent head (.head _)).symm]

/-- A walk over the entries, seen through an observation that only the entry
under one key changes.  The walk meets the key at most once. -/
theorem observe_walk :
    observe (m.entries.foldl step state) =
      match m.get key with
      | none => observe state
      | some value => written (observe state) value := by
  rcases m with ⟨entries, sorted⟩
  induction entries generalizing state with
  | nil => rfl
  | cons head rest ih =>
    have parts := List.pairwise_cons.mp sorted
    rw [List.foldl_cons]
    by_cases same : head.1 = key
    · have absent : forall entry, entry ∈ rest -> entry.1 ≠ key :=
        fun entry listed => same ▸ (ne_of_lt (parts.1 entry listed)).symm
      have found : (⟨head :: rest, sorted⟩ : SortedMap Key Value).get key = some head.2 :=
        mem_entries.mp (List.mem_cons.mpr (Or.inl (by rw [← same])))
      rw [observe_foldl acts absent, found, acts, if_pos same.symm]
    · have skipped : (⟨head :: rest, sorted⟩ : SortedMap Key Value).get key =
          (⟨rest, parts.2⟩ : SortedMap Key Value).get key := by
        unfold get
        rw [List.find?_cons_of_neg (by simpa using same)]
      rw [ih parts.2, skipped, acts, if_neg (Ne.symm same)]

end

end

theorem get_fold {Other : Type*} {combine : Option Value -> Other -> Value} {other : SortedMap Key Other} :
    (fold combine m other).get key =
      match other.get key with
      | none => m.get key
      | some added => some (combine (m.get key) added) := by
  refine @observe_walk _ _ _ other key _ _ _ (fun held => held.get key)
    (fun held added => some (combine held added)) m ?_
  intro held entry
  rw [get_insert]
  split_ifs with same
  · rw [same]
  · rfl

theorem insert_entries_last (above : forall entry, entry ∈ m.entries -> entry.1 < key) :
    (m.insert key value).entries = m.entries ++ [(key, value)] := by
  have kept : (m.erase key).entries = m.entries := by
    apply List.filter_eq_self.mpr
    intro entry listed
    exact decide_eq_true (ne_of_lt (above entry listed))
  unfold insert
  dsimp only
  rw [kept]
  exact orderedInsert_last above

theorem ofList_entries {pairs : List (Key × Value)} (sorted : KeySorted Prod.fst pairs) :
    (ofList pairs).entries = pairs := by
  induction pairs using List.reverseRecOn with
  | nil => rfl
  | append_singleton earlier last ih =>
    have parts := List.pairwise_append.mp sorted
    have whole : ofList (earlier ++ [last]) = (ofList earlier).insert last.1 last.2 := List.foldl_append ..
    rw [whole, insert_entries_last, ih parts.1]
    intro entry listed
    rw [ih parts.1] at listed
    exact parts.2.2 entry listed last (List.mem_singleton_self last)

theorem get_ofList_concat {earlier : List (Key × Value)} {last : Key × Value} :
    (ofList (earlier ++ [last])).get key = if key = last.1 then some last.2 else (ofList earlier).get key := by
  have whole : ofList (earlier ++ [last]) = (ofList earlier).insert last.1 last.2 := List.foldl_append ..
  rw [whole, get_insert]

theorem mem_of_get_ofList {pairs : List (Key × Value)} (found : (ofList pairs).get key = some value) :
    (key, value) ∈ pairs := by
  induction pairs using List.reverseRecOn with
  | nil => cases found
  | append_singleton earlier last ih =>
    rw [get_ofList_concat] at found
    split_ifs at found with here
    · rw [← Option.some.inj found, here]
      exact List.mem_append_right _ (.head _)
    · exact List.mem_append_left _ (ih found)

theorem get_ofList_map {Other : Type*} {f : Value -> Other} {pairs : List (Key × Value)} :
    (ofList (pairs.map fun pair => (pair.1, f pair.2))).get key = ((ofList pairs).get key).map f := by
  induction pairs using List.reverseRecOn with
  | nil => rfl
  | append_singleton earlier last ih =>
    rw [List.map_append, List.map_singleton, get_ofList_concat, get_ofList_concat]
    split_ifs
    · rfl
    · exact ih

/-- The map made of pairs with distinct keys finds exactly those pairs. -/
theorem get_ofList {pairs : List (Key × Value)} (distinct : (pairs.map Prod.fst).Nodup) :
    (ofList pairs).get key = some value <-> (key, value) ∈ pairs := by
  induction pairs using List.reverseRecOn with
  | nil => exact iff_of_false nofun List.not_mem_nil
  | append_singleton earlier last ih =>
    rw [List.map_append, List.nodup_append] at distinct
    rw [get_ofList_concat, List.mem_append, List.mem_singleton]
    split_ifs with here
    · constructor
      · intro found
        exact Or.inr (Prod.ext here (Option.some.inj found).symm)
      · rintro (listed | same)
        · have clash := distinct.2.2 key (List.mem_map.mpr ⟨_, listed, rfl⟩) last.1 (.head _)
          exact absurd here clash
        · rw [← same]
    · rw [ih distinct.1]
      exact ⟨Or.inl, fun listed => listed.resolve_right fun same => here (congrArg Prod.fst same)⟩

theorem mapValues_insert {f : Value -> Value} :
    (m.insert key value).mapValues f = (m.mapValues f).insert key (f value) := by
  apply ext_get
  intro other
  rw [get_mapValues, get_insert, get_insert, get_mapValues]
  split_ifs <;> rfl

theorem erase_of_none (free : m.get key = none) : m.erase key = m := by
  apply ext_get
  intro other
  rw [get_erase]
  split_ifs with same
  · rw [same, free]
  · rfl

theorem insert_perm_of_none (free : m.get key = none) :
    (m.insert key value).entries.Perm ((key, value) :: m.entries) := by
  have shuffled := List.perm_orderedInsert (fun first second => first.1 ≤ second.1) (key, value)
    (m.erase key).entries
  rw [erase_of_none free] at shuffled
  unfold insert
  dsimp only
  rw [erase_of_none free]
  exact shuffled

theorem insert_perm_erase : (m.insert key value).entries.Perm ((key, value) :: (m.erase key).entries) :=
  List.perm_orderedInsert _ _ _

theorem erase_perm (held : m.get key = some stored) : m.entries.Perm ((key, stored) :: (m.erase key).entries) := by
  have again : m = (m.erase key).insert key stored := by
    apply ext_get
    intro other
    rw [get_insert, get_erase]
    split_ifs with same
    · rw [same, held]
    · rfl
  have free : (m.erase key).get key = none := by rw [get_erase, if_pos rfl]
  exact (List.Perm.of_eq (congrArg entries again)).trans (insert_perm_of_none free)

theorem insert_perm (held : m.get key = some stored) :
    Exists fun rest => m.entries.Perm ((key, stored) :: rest) ∧
      (m.insert key value).entries.Perm ((key, value) :: rest) :=
  ⟨(m.erase key).entries, erase_perm held, insert_perm_erase⟩

end SortedMap
end NotK8s.Library
