import Mathlib.Algebra.BigOperators.Group.Finset.Basic
import Mathlib.Algebra.Order.BigOperators.Group.List
import Mathlib.Algebra.Order.Group.Nat
import NotK8s.Library.SortedMap

namespace NotK8s.Library

/-!
# Sums over maps

Each entry of a map has an amount, and a key without an entry has the amount
zero.  The sum over the entries is then the sum over any list of keys that
leaves out only keys without an amount, which is how the sums of a map before
and after a change are compared key by key.
-/

variable {Key Value Amount : Type*} [LinearOrder Key] [AddCommMonoid Amount] (amount : Key -> Value -> Amount)

/-- The amount under a key. -/
def amountAt (m : SortedMap Key Value) (key : Key) : Amount :=
  (m.get key).elim 0 (amount key)

def tally (m : SortedMap Key Value) : Amount :=
  (m.entries.map fun entry => amount entry.1 entry.2).sum

variable {amount} {m : SortedMap Key Value} {key other : Key} {value : Value}

theorem amountAt_insert :
    amountAt amount (m.insert key value) other = if other = key then amount key value else amountAt amount m other := by
  unfold amountAt
  rw [SortedMap.get_insert]
  split
  · next same =>
      rw [same]
      rfl
  · rfl

theorem amountAt_erase : amountAt amount (m.erase key) other = if other = key then 0 else amountAt amount m other := by
  unfold amountAt
  rw [SortedMap.get_erase]
  split
  · rfl
  · rfl

theorem tally_eq_sum {keys : List Key} (distinct : keys.Nodup)
    (covers : forall key, amountAt amount m key ≠ 0 -> key ∈ keys) :
    tally amount m = (keys.map (amountAt amount m)).sum := by
  have entryKeys : (m.entries.map Prod.fst).Nodup :=
    List.Pairwise.map _ (fun _ _ ordered => ne_of_lt ordered) m.sorted
  have byKey : tally amount m = ((m.entries.map Prod.fst).map (amountAt amount m)).sum := by
    unfold tally
    rw [List.map_map]
    congr 1
    apply List.map_congr_left
    rintro ⟨stored, held⟩ listed
    simp only [Function.comp_apply, amountAt, SortedMap.mem_entries.mp listed, Option.elim_some]
  have absent : forall key, key ∉ m.entries.map Prod.fst -> amountAt amount m key = 0 := by
    intro key missing
    unfold amountAt
    cases held : m.get key with
    | none => rfl
    | some value => exact absurd (List.mem_map.mpr ⟨(key, value), SortedMap.mem_entries.mpr held, rfl⟩) missing
  rw [byKey, ← List.sum_toFinset _ entryKeys, ← List.sum_toFinset _ distinct]
  have entriesInside : (m.entries.map Prod.fst).toFinset ⊆ (m.entries.map Prod.fst).toFinset ∪ keys.toFinset :=
    Finset.subset_union_left
  have keysInside : keys.toFinset ⊆ (m.entries.map Prod.fst).toFinset ∪ keys.toFinset := Finset.subset_union_right
  have left := Finset.sum_subset (f := amountAt amount m) entriesInside
    (fun key _ missing => absent key fun listed => missing (List.mem_toFinset.mpr listed))
  have right := Finset.sum_subset (f := amountAt amount m) keysInside
    (fun key _ missing => by
      by_contra nonzero
      exact missing (List.mem_toFinset.mpr (covers key nonzero)))
  exact left.trans right.symm

theorem tally_pair {m' : SortedMap Key Value} : Exists fun keys : List Key => keys.Nodup ∧
    tally amount m = (keys.map (amountAt amount m)).sum ∧ tally amount m' = (keys.map (amountAt amount m')).sum ∧
    forall key, amountAt amount m key ≠ 0 ∨ amountAt amount m' key ≠ 0 -> key ∈ keys := by
  have stored : forall (n : SortedMap Key Value) (key : Key), amountAt amount n key ≠ 0 -> key ∈ n.entries.map Prod.fst := by
    intro n key nonzero
    unfold amountAt at nonzero
    cases held : n.get key with
    | none =>
      rw [held] at nonzero
      exact absurd rfl nonzero
    | some value => exact List.mem_map.mpr ⟨(key, value), SortedMap.mem_entries.mpr held, rfl⟩
  have covers : forall key, amountAt amount m key ≠ 0 ∨ amountAt amount m' key ≠ 0 ->
      key ∈ (m.entries.map Prod.fst ++ m'.entries.map Prod.fst).dedup := by
    intro key nonzero
    rw [List.mem_dedup, List.mem_append]
    exact nonzero.imp (stored m key) (stored m' key)
  exact ⟨_, List.nodup_dedup _, tally_eq_sum (List.nodup_dedup _) fun key nonzero => covers key (Or.inl nonzero),
    tally_eq_sum (List.nodup_dedup _) fun key nonzero => covers key (Or.inr nonzero), covers⟩

theorem tally_congr {m' : SortedMap Key Value} (same : forall key, amountAt amount m key = amountAt amount m' key) :
    tally amount m = tally amount m' := by
  rcases @tally_pair _ _ _ _ _ amount m m' with ⟨keys, -, here, there, -⟩
  rw [here, there]
  exact congrArg List.sum (List.map_congr_left fun key _ => same key)

theorem tally_le {amount : Key -> Value -> Nat} {m' : SortedMap Key Value}
    (least : forall key, amountAt amount m key ≤ amountAt amount m' key) : tally amount m ≤ tally amount m' := by
  rcases @tally_pair _ _ _ _ _ amount m m' with ⟨keys, -, here, there, -⟩
  rw [here, there]
  exact List.sum_le_sum fun key _ => least key

theorem countP_eq_tally {test : Value -> Bool} :
    (m.entries.map Prod.snd).countP test = tally (fun _ value => if test value then 1 else 0) m := by
  unfold tally
  generalize m.entries = entries
  induction entries with
  | nil => rfl
  | cons entry rest ih =>
    rw [List.map_cons, List.map_cons, List.sum_cons, List.countP_cons, ih, Nat.add_comm]

theorem tally_lt {amount : Key -> Value -> Nat} {m' : SortedMap Key Value}
    (least : forall key, amountAt amount m key ≤ amountAt amount m' key)
    (less : Exists fun key => amountAt amount m key < amountAt amount m' key) : tally amount m < tally amount m' := by
  rcases @tally_pair _ _ _ _ _ amount m m' with ⟨keys, -, here, there, covers⟩
  rcases less with ⟨key, strict⟩
  rw [here, there]
  exact List.sum_lt_sum _ _ (fun other _ => least other) ⟨key, covers key (Or.inr (Nat.ne_of_gt (Nat.zero_lt_of_lt strict))), strict⟩

end NotK8s.Library
