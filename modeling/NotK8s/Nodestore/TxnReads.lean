import NotK8s.Nodestore.History

namespace NotK8s.Nodestore

open Library

/-!
# Reads inside a transaction

A read of its own and a read inside a transaction run the same query.  Only
the first checks its revision against the compaction point and the current
revision, and only the first asks the cache of RBAC lists.
-/

/-- A transaction that does nothing but run `requests`. -/
def TxnOp.always (requests : List RequestOp) : TxnOp where
  compare := []
  success := requests
  failure := []

section
variable {s s' : Store} {current : Int} {q : RangeQuery}

/-- A run of requests is a run of the first ones and then of the others. -/
theorem runRequests_append {before after : List RequestOp} {kv kv' : List KvRow} {w w' : Writer}
    {responses : List OpResponse} (ran : runRequests current (before ++ after) kv w = .ok (responses, kv', w')) :
    Exists fun first : List OpResponse => Exists fun kv₁ : List KvRow => Exists fun w₁ : Writer =>
      Exists fun second : List OpResponse =>
        runRequests current before kv w = .ok (first, kv₁, w₁) ∧
          runRequests current after kv₁ w₁ = .ok (second, kv', w') ∧ responses = first ++ second ∧
            first.length = before.length := by
  induction before generalizing kv w responses with
  | nil => exact ⟨[], kv, w, responses, rfl, ran, rfl, rfl⟩
  | cons request rest ih =>
    cases request with
    | range asked =>
      rcases bind_eq_ok ran with ⟨⟨later, kv₂, w₂⟩, more, result⟩
      cases result
      rcases ih more with ⟨first, kv₁, w₁, second, here, there, rfl, length⟩
      refine ⟨_ :: first, kv₁, w₁, second, ?_, there, rfl, congrArg Nat.succ length⟩
      simp only [runRequests, here]
      rfl
    | put op =>
      rcases bind_eq_ok ran with ⟨⟨prevKv, kv₀, w₀⟩, put, continued⟩
      rcases bind_eq_ok continued with ⟨⟨later, kv₂, w₂⟩, more, result⟩
      cases result
      rcases ih more with ⟨first, kv₁, w₁, second, here, there, rfl, length⟩
      refine ⟨_ :: first, kv₁, w₁, second, ?_, there, rfl, congrArg Nat.succ length⟩
      simp only [runRequests, put, bind, Except.bind, here]
    | delete op =>
      rcases bind_eq_ok ran with ⟨⟨deleted, prevKvs, kv₀, w₀⟩, removed, continued⟩
      rcases bind_eq_ok continued with ⟨⟨later, kv₂, w₂⟩, more, result⟩
      cases result
      rcases ih more with ⟨first, kv₁, w₁, second, here, there, rfl, length⟩
      refine ⟨_ :: first, kv₁, w₁, second, ?_, there, rfl, congrArg Nat.succ length⟩
      simp only [runRequests, removed, bind, Except.bind, here]

/-- What an accepted transaction answers, and the rows and revision it
leaves. -/
theorem applyAt_txn {index : Nat} {op : TxnOp} {applied : Applied}
    (accepted : s.applyAt index (.txn op) = .ok (applied, s')) :
    Exists fun responses : List OpResponse => Exists fun w : Writer =>
      runRequests s.db.revision (op.branch s.db.kv) s.db.kv (Writer.opened s.db.revision) =
          .ok (responses, s'.db.kv, w) ∧
        applied.response = .txn (op.compare.all (evaluateCompare s.db.kv)) responses ∧
          s'.db.revision = if w.used then w.next else s.db.revision := by
  rw [applyAt_eq] at accepted
  cases ran : runCommand s.db (Writer.opened s.db.revision) s.db.revision (.txn op) with
  | error refusal =>
    rw [ran] at accepted
    cases accepted
  | ok result =>
    rcases bind_eq_ok ran with ⟨⟨succeeded, responses, kv, w⟩, txn, last⟩
    rcases bind_eq_ok txn with ⟨⟨responses', kv', w'⟩, requests, last'⟩
    rw [ran] at accepted
    cases last'
    cases last
    cases accepted
    exact ⟨responses, w, requests, rfl, rfl⟩

theorem applyAt_branch {index : Nat} {op : TxnOp} {responses : List OpResponse} {kv : List KvRow} {w : Writer}
    (ran : runRequests s.db.revision (op.branch s.db.kv) s.db.kv (Writer.opened s.db.revision) = .ok (responses, kv, w)) :
    Exists fun applied : Applied => Exists fun after : Store =>
      s.applyAt index (.txn op) = .ok (applied, after) ∧
        applied.response = .txn (op.compare.all (evaluateCompare s.db.kv)) responses ∧ after.db.kv = kv ∧
          after.db.revision = if w.used then w.next else s.db.revision := by
  have command : runCommand s.db (Writer.opened s.db.revision) s.db.revision (.txn op) =
      .ok (.txn (op.compare.all (evaluateCompare s.db.kv)) responses, { s.db with kv := kv }, w) := by
    simp only [runCommand, applyTxn, ran]
    rfl
  rw [applyAt_eq, command]
  exact ⟨_, _, rfl, rfl, rfl, rfl⟩

theorem applyAt_single {index : Nat} {op : TxnOp} (branch : op.branch s.db.kv = [.range q]) :
    (s.applyAt index (.txn op)).map (fun result => result.1.response) =
      .ok (.txn (op.compare.all (evaluateCompare s.db.kv))
        [.range (rangeIn s.db.kv q.range (some (if q.revision > 0 then q.revision else s.db.revision)) q)]) := by
  rw [applyAt_eq]
  simp only [runCommand, applyTxn, branch]
  rfl

end

/-- A read is answered inside a transaction as outside of it: alone in the
branch it gets what `range` answers or its refusal, and after writes of the
branch it reads the store as these writes leave it. -/
structure Store.AnswersAlike (s : Store) (q : RangeQuery) : Prop where
  alone : forall index op, op.branch s.db.kv = [.range q] ->
    (s.applyAt index (.txn op)).map (fun result => result.1.response) =
      (s.range q).1.map fun result => .txn (op.compare.all (evaluateCompare s.db.kv)) [.range result]
  afterWrites : forall index op before after applied s', op.branch s.db.kv = before ++ .range q :: after ->
    q.revision ≤ 0 -> s.applyAt index (.txn op) = .ok (applied, s') ->
      Exists fun written : Store => Exists fun first : Applied => Exists fun responses : List OpResponse =>
        Exists fun result : RangeResult =>
          s.applyAt index (.txn (TxnOp.always before)) = .ok (first, written) ∧
            written.db.uncachedRange q = .ok result ∧
              applied.response = .txn (op.compare.all (evaluateCompare s.db.kv)) responses ∧
                responses[before.length]? = some (.range result)

/-- A query at a chosen revision is for one that is still kept and already
there. -/
def Db.InWindow (db : Db) (q : RangeQuery) : Prop :=
  0 < q.revision -> db.compactRevision < q.revision ∧ q.revision ≤ db.revision

/-- A cached list that answers the query is the stored one. -/
def Store.CacheRight (s : Store) (q : RangeQuery) : Prop :=
  forall asOf result, s.db.readRevision q = .ok asOf -> s.cachedList q asOf = some result ->
    result = rangeIn s.db.kv q.range (some asOf) q

section
variable {s : Store} {q : RangeQuery}

theorem readRevision_inWindow (inside : s.db.InWindow q) :
    s.db.readRevision q = .ok (if q.revision > 0 then q.revision else s.db.revision) := by
  unfold Db.readRevision
  by_cases chosen : q.revision > 0
  · rcases inside chosen with ⟨kept, reached⟩
    rw [if_pos chosen, if_pos chosen, if_neg (not_le.mpr kept), if_neg (not_lt.mpr reached)]
  · rw [if_neg chosen, if_neg chosen]

theorem inWindow_of_readRevision {asOf : Int} (selected : s.db.readRevision q = .ok asOf) : s.db.InWindow q := by
  intro chosen
  rw [Db.readRevision, if_pos chosen] at selected
  split_ifs at selected with compacted future
  exact ⟨not_le.mp compacted, not_lt.mp future⟩

theorem range_cacheRight (right : s.CacheRight q) {asOf : Int} (selected : s.db.readRevision q = .ok asOf) :
    (s.range q).1 = .ok (rangeIn s.db.kv q.range (some asOf) q) := by
  unfold Store.range
  simp only [selected]
  cases found : s.cachedList q asOf with
  | none => rfl
  | some result => exact congrArg Except.ok (right asOf result selected found)

/-- The query of a read after writes is the query of the store they leave. -/
theorem Store.afterWrites (s : Store) {index : Nat} {op : TxnOp} {before after : List RequestOp} {applied : Applied}
    {s' : Store} (branch : op.branch s.db.kv = before ++ .range q :: after) (unchosen : q.revision ≤ 0)
    (accepted : s.applyAt index (.txn op) = .ok (applied, s')) :
    Exists fun written : Store => Exists fun first : Applied => Exists fun responses : List OpResponse =>
      Exists fun result : RangeResult =>
        s.applyAt index (.txn (TxnOp.always before)) = .ok (first, written) ∧
          written.db.uncachedRange q = .ok result ∧
            applied.response = .txn (op.compare.all (evaluateCompare s.db.kv)) responses ∧
              responses[before.length]? = some (.range result) := by
  rcases applyAt_txn accepted with ⟨responses, w, ran, answer, _⟩
  rw [branch] at ran
  rcases runRequests_append ran with ⟨first, kv₁, w₁, second, here, there, rfl, length⟩
  rcases bind_eq_ok there with ⟨⟨later, kv₂, w₂⟩, _, result⟩
  cases result
  rcases @applyAt_branch s index (.always before) first kv₁ w₁ here with ⟨firstApplied, written, done, _, rows, revision⟩
  have notChosen : ¬q.revision > 0 := not_lt.mpr unchosen
  have window : written.db.InWindow q := fun chosen => absurd chosen notChosen
  have same : written.db.uncachedRange q =
      .ok (rangeIn kv₁ q.range (some (txnReadRevision w₁ s.db.revision q)) q) := by
    rw [Db.uncachedRange, readRevision_inWindow window, if_neg notChosen, revision, rows, txnReadRevision,
      if_neg notChosen]
    rfl
  refine ⟨written, firstApplied, _, _, done, same, answer, ?_⟩
  rw [← length]
  simp

/-- A read is answered inside a transaction as outside exactly when its
revision is in the window and the cache has no outdated list for it. -/
theorem answersAlike_iff (s : Store) (q : RangeQuery) :
    s.AnswersAlike q <-> s.db.InWindow q ∧ s.CacheRight q := by
  constructor
  · intro alike
    have branch : (TxnOp.always [.range q]).branch s.db.kv = [.range q] := rfl
    have same := alike.alone 0 _ branch
    rw [applyAt_single branch] at same
    cases answered : (s.range q).1 with
    | error refusal =>
      rw [answered] at same
      cases same
    | ok result =>
      rw [answered] at same
      simp only [Except.map, Except.ok.injEq, CommandResponse.txn.injEq, List.cons.injEq,
        OpResponse.range.injEq, and_true, true_and] at same
      cases selected : s.db.readRevision q with
      | error refusal =>
        unfold Store.range at answered
        rw [selected] at answered
        cases answered
      | ok asOf =>
        have window := inWindow_of_readRevision selected
        refine ⟨window, ?_⟩
        intro other cached chosen found
        have revision := readRevision_inWindow window
        rw [chosen] at revision
        have here : (s.range q).1 = .ok cached := by
          unfold Store.range
          simp only [chosen, found]
        rw [answered] at here
        rw [← Except.ok.inj here, ← same, Except.ok.inj revision]
  · rintro ⟨window, right⟩
    refine ⟨?_, fun _ _ _ _ _ _ branch unchosen accepted => s.afterWrites branch unchosen accepted⟩
    intro index op branch
    rw [applyAt_single branch, range_cacheRight right (readRevision_inWindow window)]
    rfl

end

/-- A key is put twice, and the store compacted up to the second put. -/
def compactedPuts : List (Nat × Command) :=
  let put (value : String) : Command :=
    .put { key := ascii "/a", value := ascii value, lease := 0, prevKv := false,
           ignoreValue := false, ignoreLease := false }
  [(1, put "one"), (2, put "two"), (3, .compact 3)]

/-- Alone, a read at revision 2 is refused as compacted.  In a transaction it
finds no key. -/
theorem compactedPuts_not_alike :
    Reachable (history compactedPuts).store ∧
      ¬(history compactedPuts).store.AnswersAlike (plainRead .all 2) := by
  refine ⟨history_reachable compactedPuts, ?_⟩
  intro alike
  have same := alike.alone 4 (TxnOp.always [.range (plainRead .all 2)]) rfl
  revert same
  decide

end NotK8s.Nodestore
