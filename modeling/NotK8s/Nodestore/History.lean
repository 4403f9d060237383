import NotK8s.Library.Run
import NotK8s.Nodestore.Reachable

namespace NotK8s.Nodestore

open Library

/-!
# Command histories

A history is the store after a sequence of commands from the empty store,
together with everything its commands published.  A refused command changes
nothing and publishes nothing.
-/

/-- A store and the events published on the way to it, each with the
revision of its command. -/
structure Recorded where
  store : Store
  published : List (Int × Event)

def Recorded.fresh : Recorded where
  store := Store.fresh
  published := []

/-- What an applied command publishes. -/
def Applied.stamped (applied : Applied) : List (Int × Event) :=
  applied.events.map fun event => (applied.revision, event)

/-- Apply the command of one log entry. -/
def Recorded.step (h : Recorded) (entry : Nat × Command) : Recorded :=
  match h.store.applyAt entry.1 entry.2 with
  | .error _ => h
  | .ok (applied, store) => { store := store, published := h.published ++ applied.stamped }

/-- Apply a sequence of commands to the empty store. -/
def history (entries : List (Nat × Command)) : Recorded :=
  run Recorded.step Recorded.fresh entries

theorem Recorded.step_cases (h : Recorded) (entry : Nat × Command) :
    (Exists fun refusal : Error => h.store.applyAt entry.1 entry.2 = .error refusal ∧ h.step entry = h) ∨
      Exists fun applied : Applied => Exists fun store : Store =>
        h.store.applyAt entry.1 entry.2 = .ok (applied, store) ∧
          h.step entry = { store := store, published := h.published ++ applied.stamped } := by
  unfold Recorded.step
  cases outcome : h.store.applyAt entry.1 entry.2 with
  | error refusal => exact Or.inl ⟨refusal, rfl, rfl⟩
  | ok result =>
    rcases result with ⟨applied, store⟩
    exact Or.inr ⟨applied, store, rfl, rfl⟩

section
variable {s s' : Store} {index : Nat} {cmd : Command} {applied : Applied} {tx : Db} {w : Writer}

section

variable (accepted : Accepted s index cmd applied s' tx w)
include accepted

theorem Accepted.used_iff :
    w.used = true <-> w.events ≠ [] := by
  cases accepted.effect with
  | writes written same => exact written.used_iff rfl rfl
  | compact above reached => exact iff_of_false Bool.false_ne_true fun events => events rfl

theorem Accepted.next_eq :
    w.next = s.db.revision + 1 := by
  cases accepted.effect with
  | writes written same => exact written.next_eq
  | compact above reached => rfl

theorem Accepted.revision_eq :
    applied.revision = s.db.revision + if applied.events = [] then 0 else 1 := by
  rw [accepted.revision, accepted.events]
  by_cases silent : w.events = []
  · rw [if_pos silent, if_neg fun found => accepted.used_iff.mp found silent, Int.add_zero]
  · rw [if_neg silent, if_pos (accepted.used_iff.mpr silent)]

theorem Accepted.stamped_eq :
    applied.stamped = w.events.map fun event => (w.next, event) := by
  unfold Applied.stamped
  rw [accepted.events]
  refine List.map_congr_left fun event member => ?_
  rw [accepted.revision, if_pos (accepted.used_iff.mpr (List.ne_nil_of_mem member)), accepted.next_eq]

end

end

/-- Induction over histories: what holds of the empty store and is kept by
every accepted command holds of every history. -/
theorem history_induction {property : Recorded -> Prop} (initial : property Recorded.fresh)
    (keeps : forall (h : Recorded) (index : Nat) (cmd : Command) (applied : Applied) (store : Store),
      Reachable h.store -> property h -> h.store.applyAt index cmd = .ok (applied, store) ->
        property { store := store, published := h.published ++ applied.stamped })
    (entries : List (Nat × Command)) : property (history entries) := by
  have both : Reachable (history entries).store ∧ property (history entries) := by
    induction entries using List.reverseRecOn with
    | nil => exact ⟨.fresh, initial⟩
    | append_singleton earlier entry ih =>
      have last : history (earlier ++ [entry]) = (history earlier).step entry :=
        run_concat Recorded.step Recorded.fresh earlier entry
      rw [last]
      rcases (history earlier).step_cases entry with
        ⟨refusal, _, same⟩ | ⟨applied, store, success, next⟩
      · rw [same]
        exact ih
      · rw [next]
        exact ⟨.apply ih.1 success,
          keeps _ entry.1 entry.2 applied store ih.1 ih.2 success⟩
  exact both.2

theorem history_reachable (entries : List (Nat × Command)) : Reachable (history entries).store :=
  @history_induction (fun h => Reachable h.store) .fresh
    (fun _ _ _ _ _ reachable _ success => .apply reachable success) entries

theorem history_wellFormed (entries : List (Nat × Command)) : (history entries).store.db.WellFormed :=
  (history_reachable entries).wellFormed

theorem history_uncached (entries : List (Nat × Command)) :
    (history entries).store.rbacCache = fun _ => none := by
  refine @history_induction (fun h => h.store.rbacCache = fun _ => none) rfl ?_ entries
  intro h index cmd applied store reachable empty success
  rcases reachable.wellFormed.accepted success with ⟨tx, w, accepted⟩
  rw [accepted.cache, empty]
  exact ite_self _

end NotK8s.Nodestore
