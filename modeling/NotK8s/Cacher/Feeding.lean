import NotK8s.Apiserver.StorageKeys
import NotK8s.Cacher.Following
import NotK8s.Watch.DeliveryRuns

namespace NotK8s.Cacher

open Library Nodestore Watch

/-!
# The stream a cache is fed from

A cache opens one watch on a stream of its own, from the revision after its
list.  Whatever order the server's task takes its turns in, what it has sent
and the cache has not read leads the cache to where the server's watcher is:
a replay and a batch carry everything of the range since that position, and a
progress response names the position after the store was read again.
-/

/-- The range under a key prefix. -/
def watched (lead : Bytes) : KeyRange :=
  .decode lead (Apiserver.prefixRangeEnd lead)

/-- The creation request of a watch that follows a list. -/
def watchRequest (lead : Bytes) (listRevision : Int) : WatchCreateRequest where
  key := lead
  rangeEnd := Apiserver.prefixRangeEnd lead
  startRevision := listRevision + 1
  filters := []
  prevKv := false
  watchId := 0

section
variable {lead : Bytes} {listRevision : Int} {creation : Creation} {watcher : Watcher}

theorem watchRequest_lastRevision (asked : creation.request = watchRequest lead listRevision)
    (nonneg : 0 ≤ listRevision) : creation.watcher.lastRevision = listRevision := by
  unfold Creation.watcher
  rw [asked]
  change (if listRevision + 1 ≤ 0 then _ else listRevision + 1 - 1) = listRevision
  rw [if_neg (by omega)]
  omega

/-- A watcher for everything under a key prefix. -/
structure Plain (lead : Bytes) (watcher : Watcher) : Prop where
  wants : forall event, watcher.wants event = (watched lead).contains event.kv.key
  prevKv : watcher.prevKv = false

theorem watchRequest_plain (asked : creation.request = watchRequest lead listRevision) :
    Plain lead creation.watcher := by
  constructor
  · intro event
    unfold Watcher.wants Creation.watcher
    rw [asked]
    cases inside : (watched lead).contains event.kv.key <;> cases event.kind <;>
      simp_all [watched, watchRequest]
  · unfold Creation.watcher
    rw [asked]
    rfl

theorem Plain.moved (plain : Plain lead watcher) (revision : Int) : Plain lead (watcher.moved revision) :=
  ⟨plain.wants, plain.prevKv⟩

theorem Plain.between (plain : Plain lead watcher) (lower upper : Int) (feed : List (Int × Event)) :
    watcher.between lower upper feed = (publishedIn (watched lead) lower upper feed).map wire := by
  have sees : (fun stamped : Int × Event => watcher.wants stamped.2) =
      fun stamped => (watched lead).contains stamped.2.kv.key := by
    funext stamped
    exact plain.wants stamped.2
  have sends : watcher.onWire = wire := by
    funext stamped
    unfold Watcher.onWire wire
    rw [plain.prevKv]
  rw [Watcher.between, sees, sends]
  rfl

theorem Plain.replaysFaithfully (plain : Plain lead watcher) (db : Db) : watcher.ReplaysFaithfully db := by
  intro _ asked
  rw [plain.prevKv] at asked
  cases asked

end

/-! ## One watch on a stream -/

/-- The stream serves no watch but the cache's, and what it has sent leads
from the cache's revision `p` to the watcher's position `q`. -/
structure Feeds (lead : Bytes) (listRevision p : Int) (read : Nat) (s : Stream) (q : Int) : Prop where
  inv : s.Inv
  asked : forall creation, creation ∈ s.creations -> creation.request = watchRequest lead listRevision
  single : s.creations.length ≤ 1
  unread : read ≤ s.sent.length
  listed : 0 ≤ listRevision
  nonneg : 0 ≤ q
  within : q ≤ s.node.store.db.revision
  follows : Follows s.node.stamped (watched lead) s.node.store.db.revision p (s.sent.drop read) q
  unasked : s.creations = [] -> q = listRevision
  positions : forall live, live ∈ s.watchers -> live.watcher.lastRevision = q
  creating : forall live creation, s.task = .creating live creation -> live.watcher.lastRevision = q

section
variable {lead : Bytes} {listRevision p q : Int} {read : Nat} {s : Stream}

section

variable (feeds : Feeds lead listRevision p read s q)
include feeds

theorem Feeds.attached_plain {live : Live}
    (attached : Attached s.creations s.node s.sent live) : live.number = 0 ∧ Plain lead live.watcher := by
  rcases attached.serving with ⟨creation, found, serving⟩
  have below := (List.getElem?_eq_some_iff.mp found).1
  refine ⟨by have := feeds.single; omega, ?_⟩
  rw [serving.shape]
  exact (watchRequest_plain (feeds.asked creation (List.mem_of_getElem? found))).moved _

theorem Feeds.watchers_cases :
    s.watchers = [] ∨ Exists fun live : Live => s.watchers = [live] ∧ live.number = 0 ∧ Plain lead live.watcher ∧
      live.watcher.lastRevision = q := by
  have numbers := feeds.inv.numbers
  have attached := feeds.inv.attached
  have positions := feeds.positions
  cases watchers : s.watchers with
  | nil => exact Or.inl rfl
  | cons first rest =>
    rw [watchers] at numbers attached positions
    have shape := feeds.attached_plain (attached first (.head _))
    cases rest with
    | nil => exact Or.inr ⟨first, rfl, shape.1, shape.2, positions first (.head _)⟩
    | cons second others =>
      have second0 := (feeds.attached_plain (attached second (by simp))).1
      have differ := (List.nodup_cons.mp numbers).1
      rw [List.map_cons, shape.1, second0] at differ
      exact absurd List.mem_cons_self differ

theorem Feeds.creating_empty {live : Live} {creation : Creation}
    (busy : s.task = .creating live creation) : s.watchers = [] := by
  rcases feeds.inv.creating live creation busy with ⟨_, _, others, attached, _⟩
  rcases feeds.watchers_cases with none | ⟨other, one, number, _⟩
  · exact none
  · have differ := others other (by rw [one]; exact .head _)
    rw [number, (feeds.attached_plain attached).1] at differ
    exact absurd rfl differ

theorem Feeds.regular (label : Watch.Label) : s.Regular label := by
  cases label with
  | proceed next =>
    unfold Stream.Regular
    cases busy : s.task with
    | idle => exact True.intro
    | creating live creation =>
      intro _
      rcases feeds.inv.creating live creation busy with ⟨_, _, _, attached, _⟩
      constructor
      · rw [Stream.get, feeds.creating_empty busy]
        rfl
      · exact fun _ => (feeds.attached_plain attached).2.replaysFaithfully _
    | resyncing pending progress =>
      intro _ live found
      exact (feeds.attached_plain (feeds.inv.attached live (Stream.get_some found).1)).2.replaysFaithfully _
  | _ => exact True.intro

theorem Feeds.sorted :
    s.node.stamped.Pairwise fun first second => first.1 ≤ second.1 :=
  feeds.inv.logged.stamped_ordered

theorem Feeds.stays :
    Follows s.node.stamped (watched lead) s.node.store.db.revision q [] q :=
  .idle (le_refl q) feeds.within (publishedIn_empty (le_refl q))

theorem Feeds.sends {s' : Stream} {more : List Delivery} {q' : Int}
    (inv : s'.Inv) (node : s'.node = s.node) (creations : s'.creations = s.creations)
    (sent : s'.sent = s.sent ++ more) (nonneg : 0 ≤ q') (reached : q' ≤ s.node.store.db.revision)
    (follows : Follows s.node.stamped (watched lead) s.node.store.db.revision q more q')
    (unasked : s.creations = [] -> q' = q)
    (positions : forall live, live ∈ s'.watchers -> live.watcher.lastRevision = q')
    (creating : forall live creation, s'.task = .creating live creation -> live.watcher.lastRevision = q') :
    Feeds lead listRevision p read s' q' where
  inv := inv
  asked := by
    rw [creations]
    exact feeds.asked
  single := by
    rw [creations]
    exact feeds.single
  unread := by
    rw [sent, List.length_append]
    exact feeds.unread.trans (Nat.le_add_right _ _)
  listed := feeds.listed
  nonneg := nonneg
  within := by
    rw [node]
    exact reached
  follows := by
    rw [node, sent, List.drop_append_of_le_length feeds.unread]
    exact feeds.follows.append feeds.sorted follows
  unasked := by
    rw [creations]
    intro none
    rw [unasked none, feeds.unasked none]
  positions := positions
  creating := creating

/-! ## Replays -/

/-- What a replay sends leads to the last revision it read, and past it to
the current one. -/
theorem Feeds.replays {watcher : Watcher} (plain : Plain lead watcher)
    (position : watcher.lastRevision = q) (number : Option Nat) {history : List (Int × Event)}
    (obtained : s.node.store.db.eventsSince watcher.lastRevision watcher.range = .ok history) {q' : Int}
    (further : Watch.reached watcher.lastRevision history ≤ q') (within : q' ≤ s.node.store.db.revision) :
    Follows s.node.stamped (watched lead) s.node.store.db.revision q
      ((sendEvents watcher history).2.map fun response => { number := number, item := .ok response }) q' := by
  have logged := feeds.inv.logged
  have whole := Watch.replayed logged obtained (plain.replaysFaithfully _)
  have forward := (le_reached watcher.lastRevision history).1
  have ordered : history.Pairwise fun first second => first.1 ≤ second.1 := by
    rw [(eventsSince_ok obtained).2, List.pairwise_map]
    refine (replayOrder_sorted logged.wellFormed.distinct _ _).imp ?_
    intro first second less
    exact KvRow.revision_le_of_stamp_le less.le
  have order : q ≤ q' := position ▸ forward.trans further
  refine Follows.of_onePerRevision feeds.sorted number (sendEvents_onePerRevision watcher ordered) order within ?_
  have upTo : watcher.between watcher.lastRevision s.node.store.db.revision s.node.stamped =
      watcher.between watcher.lastRevision q' s.node.stamped := by
    rw [Watcher.between, Watcher.between, window_extend logged.stamped_ordered (forward.trans further) within]
    intro stamped member later _
    by_contra wanted
    have wants : watcher.wants stamped.2 = true := by simpa using wanted
    have behind := whole.complete stamped member ((forward.trans further).trans_lt later) wants
    exact absurd later (not_lt.mpr (behind.trans further))
  rw [(sendEvents_spec watcher history).2, whole.selects, upTo, plain.between, position]

end

theorem Feeds.cancels (number : Option Nat) (header watchId compactRevision : Int) :
    Follows s.node.stamped (watched lead) s.node.store.db.revision q
      [{ number := number, item := .ok (Stream.compactedResponse header watchId compactRevision) }] q :=
  .canceled rfl

/-! ## The steps of the stream -/

section

variable (feeds : Feeds lead listRevision p read s q)
include feeds

theorem Feeds.applyCommitted (index : Nat) (cmd : Command) :
    Feeds lead listRevision p read (s.applyCommitted index cmd) q := by
  have inv := feeds.inv.applyCommitted index cmd
  unfold Stream.applyCommitted at inv ⊢
  cases outcome : s.node.applyCommitted index cmd with
  | error refusal => exact feeds
  | ok result =>
    rw [outcome] at inv
    have applies := feeds.inv.logged.applies outcome
    rcases applies.later with ⟨later, added, above⟩
    refine ⟨inv, feeds.asked, feeds.single, feeds.unread, feeds.listed, feeds.nonneg,
      feeds.within.trans applies.revision, ?_, feeds.unasked, feeds.positions, feeds.creating⟩
    rw [Node.stamped_append added]
    exact feeds.follows.published applies.revision (stamped_above above)

theorem Feeds.overwrite :
    Feeds lead listRevision p read s.overwrite q := by
  have inv := feeds.inv.overwrite
  unfold Stream.overwrite at inv ⊢
  cases unread : s.buffer with
  | nil => exact feeds
  | cons oldest rest =>
    rw [unread] at inv
    exact ⟨inv, feeds.asked, feeds.single, feeds.unread, feeds.listed, feeds.nonneg, feeds.within, feeds.follows,
      feeds.unasked, feeds.positions, feeds.creating⟩

theorem Feeds.beginResync (idle : s.task = .idle) (missed : Nat)
    (progress : Bool) : Feeds lead listRevision p read (({ s with missed := missed }).beginResync progress) q :=
  ⟨feeds.inv.beginResync idle missed progress, feeds.asked, feeds.single, feeds.unread, feeds.listed, feeds.nonneg,
    feeds.within, feeds.follows, feeds.unasked, feeds.positions, (fun _ _ no => nomatch no)⟩

theorem Feeds.beginCreate (idle : s.task = .idle)
    (none : s.creations = []) :
    Feeds lead listRevision p read (s.beginCreate (watchRequest lead listRevision)) q where
  inv := feeds.inv.beginCreate idle _
  asked := by
    intro creation member
    change creation ∈ s.creations ++ [_] at member
    rw [none] at member
    rw [List.mem_singleton.mp member]
  single := by
    change (s.creations ++ [_]).length ≤ 1
    rw [none]
    exact le_refl 1
  unread := by
    change read ≤ (s.sent ++ [_]).length
    rw [List.length_append]
    exact feeds.unread.trans (Nat.le_add_right _ _)
  __ := feeds
  follows := by
    change Follows _ _ _ _ ((s.sent ++ [_]).drop read) _
    rw [List.drop_append_of_le_length feeds.unread]
    exact feeds.follows.append feeds.sorted (.created rfl rfl feeds.stays)
  unasked := by
    intro impossible
    exact absurd impossible (List.append_ne_nil_of_right_ne_nil _ (List.cons_ne_nil _ _))
  creating := by
    intro live creation busy
    cases busy
    rw [feeds.unasked none]
    exact watchRequest_lastRevision rfl feeds.listed

theorem Feeds.dispatch (idle : s.task = .idle) (told : s.missed = 0)
    {batch : WatchBatch} {rest : List WatchBatch} (unread : s.buffer = batch :: rest) :
    Exists fun q' : Int => Feeds lead listRevision p read (({ s with buffer := rest }).dispatch batch) q' := by
  have inv := feeds.inv.receive idle
  unfold Stream.receive at inv
  rw [if_neg told.le.not_gt, unread] at inv
  have notCreating : forall live creation, (({ s with buffer := rest }).dispatch batch).task ≠ .creating live creation := by
    intro live creation busy
    rw [idle] at busy
    cases busy
  rcases feeds.watchers_cases with none | ⟨live, one, number, plain, position⟩
  · refine ⟨q, feeds.sends inv rfl rfl ?_ feeds.nonneg feeds.within feeds.stays (fun _ => rfl) ?_ ?_⟩
    · rw [none]
      rfl
    · intro other member
      rw [none] at member
      cases member
    · exact fun other creation busy => absurd busy (notCreating other creation)
  · have isLive : live ∈ s.watchers := by
      rw [one]
      exact List.mem_singleton_self live
    have sent : (({ s with buffer := rest }).dispatch batch).sent = s.sent ++
        (dispatchTo batch live.watcher).2.map fun response => { number := some live.number, item := .ok response } := by
      change s.sent ++ s.watchers.flatMap _ = _
      rw [one, List.flatMap_cons, List.flatMap_nil, List.append_nil]
    have moved : (({ s with buffer := rest }).dispatch batch).watchers =
        [{ live with watcher := (dispatchTo batch live.watcher).1 }] := by
      rw [one]
      rfl
    have asked : s.creations ≠ [] := by
      intro none
      have below := (feeds.inv.attached live isLive).number_lt
      rw [none] at below
      exact absurd below (Nat.not_lt_zero _)
    by_cases old : batch.revision ≤ live.watcher.lastRevision
    · rw [dispatchTo_old old] at sent moved
      refine ⟨q, feeds.sends inv rfl rfl sent feeds.nonneg feeds.within feeds.stays (fun _ => rfl) ?_
        fun other creation busy => absurd busy (notCreating other creation)⟩
      intro other member
      rw [moved] at member
      rw [List.mem_singleton.mp member]
      exact position
    · have new := not_le.mp old
      have published : batch ∈ s.node.published := by
        have suffix := feeds.inv.unread
        rw [unread] at suffix
        exact suffix.subset (.head _)
      have reached := feeds.inv.logged.bounded batch published
      have buffered := feeds.inv.buffered live isLive told (by rw [idle]; exact id)
      have suffix := feeds.inv.unread
      rw [unread] at buffered suffix
      have selects := Buffered.selects_batch feeds.inv.logged suffix buffered new
      have order : q ≤ batch.revision := position ▸ new.le
      refine ⟨batch.revision, feeds.sends inv rfl rfl sent (feeds.nonneg.trans order) reached ?_
        (fun none => absurd none asked) ?_ fun other creation busy => absurd busy (notCreating other creation)⟩
      · refine Follows.of_onePerRevision feeds.sorted _ (dispatchTo_onePerRevision batch live.watcher) order reached ?_
        rw [(dispatchTo_new new).2, selects, plain.between, position]
      · intro other member
        rw [moved] at member
        rw [List.mem_singleton.mp member]
        change (dispatchTo batch live.watcher).1.lastRevision = batch.revision
        rw [(dispatchTo_new new).1]
        rfl

theorem Feeds.receive (idle : s.task = .idle) :
    Exists fun q' : Int => Feeds lead listRevision p read s.receive q' := by
  unfold Stream.receive
  by_cases lagged : s.missed > 0
  · rw [if_pos lagged]
    exact ⟨q, feeds.beginResync idle 0 false⟩
  · rw [if_neg lagged]
    cases unread : s.buffer with
    | nil => exact ⟨q, feeds⟩
    | cons batch rest => exact feeds.dispatch idle (Nat.eq_zero_of_not_pos lagged) unread

theorem Feeds.finishCreate {live : Live} {creation : Creation}
    (busy : s.task = .creating live creation) :
    Exists fun q' : Int => Feeds lead listRevision p read (s.finishCreate live creation) q' := by
  have inv := feeds.inv.step (.proceed 0) (feeds.regular _)
  rw [Stream.step, busy] at inv
  change (s.finishCreate live creation).Inv at inv
  rcases feeds.inv.creating live creation busy with ⟨found, _, _, attached, _⟩
  have plain := (feeds.attached_plain attached).2
  have position := feeds.creating live creation busy
  have none := feeds.creating_empty busy
  have isAsked := feeds.asked creation (List.mem_of_getElem? found)
  have asked : s.creations ≠ [] := List.ne_nil_of_mem (List.mem_of_getElem? found)
  have positive : creation.request.startRevision > 0 := by
    rw [isAsked]
    have listed := feeds.listed
    change 0 < listRevision + 1
    omega
  unfold Stream.finishCreate at inv ⊢
  rw [if_pos positive] at inv ⊢
  cases obtained : s.node.store.db.eventsSince live.watcher.lastRevision live.watcher.range with
  | ok history =>
    rw [obtained] at inv
    dsimp only at inv ⊢
    have whole := Watch.replayed feeds.inv.logged obtained (plain.replaysFaithfully _)
    have forward := (le_reached live.watcher.lastRevision history).1
    have within := reached_le (position ▸ feeds.within) whole.bounded
    have moved := (sendEvents_spec live.watcher history).1
    refine ⟨Watch.reached live.watcher.lastRevision history,
      feeds.sends inv rfl rfl rfl (feeds.nonneg.trans (position ▸ forward)) within
        (feeds.replays plain position _ obtained (le_refl _) within) (fun unasked => absurd unasked asked) ?_
        (fun _ _ no => by cases no)⟩
    intro other member
    change other ∈ s.watchers.filter _ ++ [_] at member
    rw [none] at member
    rw [List.mem_singleton.mp member, moved]
    rfl
  | error refusal =>
    rw [obtained] at inv
    rcases eventsSince_error obtained with ⟨rfl, _⟩
    refine ⟨q, feeds.sends inv rfl rfl rfl feeds.nonneg feeds.within (Feeds.cancels _ _ _ _)
      (fun _ => rfl) ?_ (fun _ _ no => by cases no)⟩
    exact feeds.positions

theorem Feeds.resyncOne {id : Int} {pending : List Int}
    {progress : Bool} (inv : (s.resyncOne id pending progress).Inv) :
    Exists fun q' : Int => Feeds lead listRevision p read (s.resyncOne id pending progress) q' := by
  unfold Stream.resyncOne at inv ⊢
  cases found : s.get id with
  | none =>
    dsimp only [Stream.get] at found inv ⊢
    rw [found] at inv ⊢
    exact ⟨q, inv, feeds.asked, feeds.single, feeds.unread, feeds.listed, feeds.nonneg, feeds.within, feeds.follows,
      feeds.unasked, feeds.positions, (fun _ _ no => nomatch no)⟩
  | some live =>
    rcases Stream.get_some found with ⟨isLive, hasId⟩
    have attached := feeds.inv.attached live isLive
    have plain := (feeds.attached_plain attached).2
    have position := feeds.positions live isLive
    have one : s.watchers = [live] := by
      rcases feeds.watchers_cases with none | ⟨other, one, _⟩
      · rw [none] at isLive
        cases isLive
      · rw [one] at isLive ⊢
        rw [List.mem_singleton.mp isLive]
    have asked : s.creations ≠ [] := by
      intro none
      have below := attached.number_lt
      rw [none] at below
      exact absurd below (Nat.not_lt_zero _)
    dsimp only [Stream.get] at found inv ⊢
    rw [found] at inv ⊢
    dsimp only at inv ⊢
    cases obtained : s.node.store.db.eventsSince live.watcher.lastRevision live.watcher.range with
    | ok history =>
      rw [obtained] at inv
      have whole := Watch.replayed feeds.inv.logged obtained (plain.replaysFaithfully _)
      have within := reached_le (position ▸ feeds.within) whole.bounded
      have current : max (Watch.reached live.watcher.lastRevision history) s.node.store.db.revision =
          s.node.store.db.revision := max_eq_right within
      have moved := (sendEvents_spec live.watcher history).1
      refine ⟨s.node.store.db.revision,
        feeds.sends inv rfl rfl rfl (feeds.nonneg.trans feeds.within) (le_refl _)
          (feeds.replays plain position _ obtained within (le_refl _)) (fun unasked => absurd unasked asked) ?_
          fun _ _ impossible => (nomatch impossible)⟩
      intro other member
      change other ∈ s.watchers.filter _ ++ [_] at member
      rw [one, moved] at member
      simp only [Watcher.moved_lastRevision, current] at member
      rcases List.mem_append.mp member with kept | new
      · have differ := of_decide_eq_true (List.mem_filter.mp kept).2
        rw [List.mem_singleton.mp (List.mem_filter.mp kept).1] at differ
        exact absurd rfl differ
      · rw [List.mem_singleton.mp new]
        rfl
    | error refusal =>
      rw [obtained] at inv
      rcases eventsSince_error obtained with ⟨rfl, _⟩
      refine ⟨q, feeds.sends inv rfl rfl rfl feeds.nonneg feeds.within (Feeds.cancels _ _ _ _)
        (fun _ => rfl) ?_ fun _ _ impossible => (nomatch impossible)⟩
      intro other member
      exact feeds.positions other (List.mem_filter.mp member).1

theorem Feeds.finishResync {progress : Bool}
    (busy : s.task = .resyncing [] progress) : Feeds lead listRevision p read (s.finishResync progress) q := by
  have inv := feeds.inv.finishResync busy
  cases progress with
  | false =>
    exact ⟨inv, feeds.asked, feeds.single, feeds.unread, feeds.listed, feeds.nonneg, feeds.within, feeds.follows,
      feeds.unasked, feeds.positions, (fun _ _ no => nomatch no)⟩
  | true =>
    have header : s.progressRevision ≤ q := by
      rcases feeds.watchers_cases with none | ⟨live, one, _, _, position⟩
      · rw [Stream.progressRevision, none]
        exact feeds.nonneg
      · rw [Stream.progressRevision, one, ← position]
        exact le_refl _
    refine feeds.sends inv rfl rfl rfl feeds.nonneg feeds.within ?_ (fun _ => rfl) feeds.positions
      fun _ _ no => nomatch no
    refine .progress (header.trans feeds.within) (publishedIn_empty header) ?_
    have stays : max q (Stream.progressRevision { s with task := .idle }) = q := max_eq_left header
    rw [stays]
    exact feeds.stays

end

end

end NotK8s.Cacher
