import Mathlib

namespace NotK8s.Library

/-!
# Windows of a stamped log

A reader of an append-only log holds a cursor.  What it still has to read is
the window above the cursor, and what it has read is the window between the
place it started from and the cursor.  In a log in stamp order windows that
meet at a cursor join, so a reader that appends the next window and moves its
cursor has read every item once and in order.
-/

variable {Item Stamp : Type*} [LinearOrder Stamp]

/-- The kept items with a stamp above `lower` and not above `upper`. -/
def window (stamp : Item -> Stamp) (keep : Item -> Bool) (lower upper : Stamp) (log : List Item) : List Item :=
  log.filter fun item => decide (lower < stamp item) && decide (stamp item ≤ upper) && keep item

/-- Two ways to write a list as items that pass a test and then items that
fail it are one. -/
theorem append_inj_of_cut {Entry : Type*} (test : Entry -> Bool) {first first' second second' : List Entry}
    (same : first ++ second = first' ++ second') (passes : forall item, item ∈ first -> test item = true)
    (passes' : forall item, item ∈ first' -> test item = true)
    (fails : forall item, item ∈ second -> test item = false)
    (fails' : forall item, item ∈ second' -> test item = false) : first = first' ∧ second = second' := by
  have kept := congrArg (List.filter test) same
  rw [List.filter_append, List.filter_append, List.filter_eq_self.mpr passes, List.filter_eq_self.mpr passes',
    List.filter_eq_nil_iff.mpr fun item member => by simp [fails item member],
    List.filter_eq_nil_iff.mpr fun item member => by simp [fails' item member], List.append_nil,
    List.append_nil] at kept
  subst kept
  exact ⟨rfl, List.append_cancel_left same⟩

section
variable {stamp : Item -> Stamp} {keep : Item -> Bool} {lower middle upper : Stamp} {log : List Item}

@[simp] theorem mem_window {item : Item} :
    item ∈ window stamp keep lower upper log <->
      item ∈ log ∧ (lower < stamp item ∧ stamp item ≤ upper) ∧ keep item = true := by
  simp only [window, List.mem_filter, Bool.and_eq_true, decide_eq_true_eq]

theorem window_append (earlier later : List Item) :
    window stamp keep lower upper (earlier ++ later) =
      window stamp keep lower upper earlier ++ window stamp keep lower upper later :=
  List.filter_append earlier later

theorem window_eq_nil
    (outside : forall item, item ∈ log -> lower < stamp item -> stamp item ≤ upper -> keep item = false) :
    window stamp keep lower upper log = [] := by
  apply List.eq_nil_iff_forall_not_mem.mpr
  intro item member
  rcases mem_window.mp member with ⟨stored, ⟨above, below⟩, kept⟩
  rw [outside item stored above below] at kept
  cases kept

theorem window_empty (order : upper ≤ lower) : window stamp keep lower upper log = [] :=
  window_eq_nil fun _ _ above below => absurd (lt_of_lt_of_le above (below.trans order)) (lt_irrefl _)

theorem window_append_above {later : List Item} (above : forall item, item ∈ later -> upper < stamp item) :
    window stamp keep lower upper (log ++ later) = window stamp keep lower upper log := by
  have outside : window stamp keep lower upper later = [] :=
    window_eq_nil fun item member _ below => absurd below (not_le.mpr (above item member))
  rw [window_append, outside, List.append_nil]

theorem window_eq_filter (bounded : forall item, item ∈ log -> stamp item ≤ upper) :
    window stamp keep lower upper log =
      log.filter fun item => decide (lower < stamp item) && keep item := by
  apply List.filter_congr
  intro item member
  rw [decide_eq_true (bounded item member), Bool.and_true]

theorem window_join (sorted : log.Pairwise fun first second => stamp first ≤ stamp second)
    (low : lower ≤ middle) (high : middle ≤ upper) :
    window stamp keep lower middle log ++ window stamp keep middle upper log =
      window stamp keep lower upper log := by
  induction log with
  | nil => rfl
  | cons head rest ih =>
    have parts := List.pairwise_cons.mp sorted
    have joined := ih parts.2
    by_cases first : stamp head ≤ middle
    · -- The head is in the first window exactly when it is in the whole.
      have second : decide (middle < stamp head) = false := decide_eq_false (not_lt.mpr first)
      have whole : decide (stamp head ≤ upper) = true := decide_eq_true (first.trans high)
      simp only [window, List.filter_cons, second, whole, decide_eq_true first, Bool.and_true,
        Bool.false_and, Bool.false_eq_true, if_false] at joined ⊢
      by_cases kept : (decide (lower < stamp head) && keep head) = true
      · rw [if_pos kept, if_pos kept, List.cons_append, joined]
      · rw [if_neg kept, if_neg kept, joined]
    · -- From here on every item is past the first window.
      have past : forall item, item ∈ head :: rest -> middle < stamp item := by
        intro item member
        rcases List.mem_cons.mp member with rfl | inRest
        · exact not_le.mp first
        · exact lt_of_lt_of_le (not_le.mp first) (parts.1 item inRest)
      have nothing : window stamp keep lower middle (head :: rest) = [] :=
        window_eq_nil fun item member _ below => absurd below (not_le.mpr (past item member))
      rw [nothing, List.nil_append]
      apply List.filter_congr
      intro item member
      rw [decide_eq_true (past item member), decide_eq_true (lt_of_le_of_lt low (past item member))]

/-- What lies at or below the upper end is what lies at or below the lower
end, and the window between them. -/
theorem filter_le_window (sorted : log.Pairwise fun first second => stamp first ≤ stamp second)
    (order : lower ≤ upper) :
    (log.filter fun item => stamp item ≤ lower) ++ window stamp (fun _ => true) lower upper log =
      log.filter fun item => stamp item ≤ upper := by
  induction log with
  | nil => rfl
  | cons head rest ih =>
    have parts := List.pairwise_cons.mp sorted
    by_cases low : stamp head ≤ lower
    · have joined := ih parts.2
      simp only [window, List.filter_cons, low, low.trans order, not_lt.mpr low, decide_true, decide_false,
        Bool.false_and, Bool.false_eq_true, if_true, if_false, List.cons_append] at joined ⊢
      rw [joined]
    · have past : forall item, item ∈ head :: rest -> lower < stamp item := by
        intro item member
        rcases List.mem_cons.mp member with rfl | inRest
        · exact not_le.mp low
        · exact lt_of_lt_of_le (not_le.mp low) (parts.1 item inRest)
      have nothing : ((head :: rest).filter fun item => stamp item ≤ lower) = [] :=
        List.filter_eq_nil_iff.mpr fun item member => by simpa using past item member
      rw [nothing, List.nil_append]
      apply List.filter_congr
      intro item member
      simp [past item member]

theorem window_extend (sorted : log.Pairwise fun first second => stamp first ≤ stamp second)
    (low : lower ≤ middle) (high : middle ≤ upper)
    (skipped : forall item, item ∈ log -> middle < stamp item -> stamp item ≤ upper -> keep item = false) :
    window stamp keep lower middle log = window stamp keep lower upper log := by
  rw [← window_join sorted low high, window_eq_nil skipped, List.append_nil]

end

/-!
# What has held since

A history is a list of events, oldest first.  `Since start kept` says that at
some point an event started something, judged with the history before it, and
that every event after it kept it.  One lemma extends a history by an event,
and invariants of event-driven state are compared with histories by it.
-/

variable {Event : Type*}

def Since (start : List Event -> Event -> Prop) (kept : Event -> Prop) (history : List Event) : Prop :=
  Exists fun before => Exists fun event => Exists fun after =>
    history = before ++ event :: after ∧ start before event ∧ forall later, later ∈ after -> kept later

variable {start start' : List Event -> Event -> Prop} {kept kept' : Event -> Prop} {history : List Event}
  {event : Event}

theorem not_since_nil : ¬ Since start kept [] := by
  rintro ⟨before, event, after, whole, _⟩
  exact absurd whole.symm (List.append_ne_nil_of_right_ne_nil before (List.cons_ne_nil event after))

theorem since_concat :
    Since start kept (history ++ [event]) <-> start history event ∨ (Since start kept history ∧ kept event) := by
  constructor
  · rintro ⟨before, first, after, whole, started, keeps⟩
    rcases List.eq_nil_or_concat after with rfl | ⟨earlier, last, rfl⟩
    · have parts := List.append_inj' whole rfl
      rw [parts.1, List.cons.inj parts.2 |>.1]
      exact Or.inl started
    · rw [List.concat_eq_append, ← List.cons_append, ← List.append_assoc] at whole
      have parts := List.append_inj' whole rfl
      have same : event = last := (List.cons.inj parts.2).1
      rw [List.concat_eq_append] at keeps
      refine Or.inr ⟨⟨before, first, earlier, parts.1, started, fun later listed =>
        keeps later (List.mem_append_left _ listed)⟩, ?_⟩
      rw [same]
      exact keeps last (List.mem_append_right _ (List.mem_singleton_self last))
  · rintro (started | ⟨⟨before, first, after, whole, started, keeps⟩, last⟩)
    · exact ⟨history, event, [], rfl, started, nofun⟩
    · refine ⟨before, first, after ++ [event], ?_, started, ?_⟩
      · rw [whole, List.append_assoc, List.cons_append]
      · intro later listed
        rcases List.mem_append.mp listed with earlier | here
        · exact keeps later earlier
        · rw [List.mem_singleton.mp here]
          exact last

theorem Since.mono (since : Since start kept history)
    (starts : forall before event, start before event -> start' before event)
    (keeps : forall event, kept event -> kept' event) : Since start' kept' history := by
  rcases since with ⟨before, first, after, whole, started, held⟩
  exact ⟨before, first, after, whole, starts before first started, fun later listed => keeps later (held later listed)⟩

theorem Since.exists_mem (since : Since start kept history) :
    Exists fun before => Exists fun event => event ∈ history ∧ start before event := by
  rcases since with ⟨before, first, after, whole, started, _⟩
  refine ⟨before, first, ?_, started⟩
  rw [whole]
  exact List.mem_append_right _ (.head _)

end NotK8s.Library
