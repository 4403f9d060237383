import NotK8s.Cacher.Reflector

namespace NotK8s.Cacher

open Library Nodestore Watch

/-!
# The cache mirrors the store

Every step of the node, of the server's task, of other clients and of the
reflector keeps the cache a mirror of the store's key range at the cache's
revision.  The one thing that breaks it is a list that the store answers from
its cache of RBAC lists, when that list was read at an older revision and the
objects have changed since: the reflector labels it with the present
revision.
-/

theorem Stream.step_node (s : Stream) {label : Watch.Label} (other : forall index cmd, label ≠ .apply index cmd) :
    (s.step label).node = s.node := by
  cases label with
  | apply index cmd => exact absurd rfl (other index cmd)
  | overwrite =>
    unfold Stream.step Stream.overwrite
    dsimp only
    split <;> rfl
  | request request =>
    unfold Stream.step
    dsimp only
    split
    · cases request <;> rfl
    · rfl
  | receive =>
    unfold Stream.step Stream.receive
    dsimp only
    split
    · split
      · rfl
      · split <;> rfl
    · rfl
  | proceed next =>
    unfold Stream.step Stream.finishCreate Stream.resyncOne Stream.finishResync
    dsimp only
    repeat' split
    all_goals rfl

namespace Reflector

/-- On the way to the server are the creation, unless it has arrived, and
progress requests. -/
def Asked (lead : Bytes) (listRevision : Int) (r : Reflector) : Prop :=
  (forall request, request ∈ r.requests -> request = .progress) ∨
    (r.stream.creations = [] ∧ Exists fun rest : List WatchRequest =>
      r.requests = .create (watchRequest lead listRevision) :: rest ∧
        forall request, request ∈ rest -> request = .progress)

/-- The stream of the last watch, open or abandoned. -/
def Fed (lead : Bytes) (r : Reflector) : Prop :=
  Exists fun listRevision : Int => Exists fun p : Int => Exists fun read : Nat => Exists fun q : Int =>
    Feeds lead listRevision p read r.stream q ∧ r.Asked lead listRevision ∧
      (forall n, r.phase = .watching n -> listRevision = r.listedAt ∧ p = r.cache.revision ∧ read = n)

structure Inv (lead : Bytes) (r : Reflector) : Prop where
  fed : r.Fed lead
  cached : r.Cached
  mirrors : Mirrors r.feed (watched lead) r.listedAt r.cache
  nonneg : 0 ≤ r.listedAt
  reached : r.cache.revision ≤ r.db.revision
  inHand : forall items revision, r.phase = .listed items revision -> 0 ≤ revision ∧ revision ≤ r.db.revision ∧
    items = (contents (eventsUpTo revision r.feed) (watched lead)).entries
  seeded : r.phase = .opening -> r.cache.revision = r.listedAt

section
variable {lead : Bytes} {r : Reflector}

theorem Inv.logged (inv : r.Inv lead) : r.stream.node.Logged := by
  rcases inv.fed with ⟨_, _, _, _, feeds, _⟩
  exact feeds.inv.logged

theorem Inv.sorted (inv : r.Inv lead) : r.feed.Pairwise fun first second => first.1 ≤ second.1 :=
  inv.logged.stamped_ordered

theorem eventsUpTo_later {feed later : List (Int × Event)} {revision : Int}
    (above : forall stamped, stamped ∈ later -> revision < stamped.1) :
    eventsUpTo revision (feed ++ later) = eventsUpTo revision feed := by
  have none : eventsUpTo revision later = [] :=
    List.filter_eq_nil_iff.mpr fun stamped member => by simpa using above stamped member
  rw [eventsUpTo_append, none, List.append_nil]

/-! ## The node and the server -/

section

variable (inv : r.Inv lead)
include inv

theorem Inv.grows {r' : Reflector} {later : List (Int × Event)} (feed : r'.feed = r.feed ++ later)
    (above : forall stamped, stamped ∈ later -> r.db.revision < stamped.1) (grows : r.db.revision ≤ r'.db.revision)
    (phase : r'.phase = r.phase) (listedAt : r'.listedAt = r.listedAt) (cache : r'.cache = r.cache)
    (lists : forall stem cached, r'.rbacCache stem = some cached -> r.rbacCache stem = some cached)
    (fed : r'.Fed lead) : r'.Inv lead where
  fed := fed
  cached := by
    intro stem cached stored
    have before := inv.cached stem cached (lists stem cached stored)
    refine ⟨before.1.trans grows, ?_⟩
    rw [feed, eventsUpTo_later fun stamped member => before.1.trans_lt (above stamped member)]
    exact before.2
  mirrors := by
    rw [feed, listedAt, cache]
    exact inv.mirrors.published fun stamped member => inv.reached.trans_lt (above stamped member)
  nonneg := by
    rw [listedAt]
    exact inv.nonneg
  reached := by
    rw [cache]
    exact inv.reached.trans grows
  inHand := by
    intro items revision isListed
    rw [phase] at isListed
    have before := inv.inHand items revision isListed
    refine ⟨before.1, before.2.1.trans grows, ?_⟩
    rw [feed, eventsUpTo_later fun stamped member => before.2.1.trans_lt (above stamped member)]
    exact before.2.2
  seeded := by
    rw [phase, listedAt, cache]
    exact inv.seeded

theorem Inv.apply (index : Nat) (cmd : Command) : (r.step lead (.apply index cmd)).Inv lead := by
  rcases inv.fed with ⟨listRevision, p, read, q, feeds, asked, same⟩
  have fed : (r.step lead (.apply index cmd)).Fed lead := by
    refine ⟨listRevision, p, read, q, feeds.applyCommitted index cmd, ?_, same⟩
    rcases asked with progress | ⟨none, rest⟩
    · exact Or.inl progress
    · refine Or.inr ⟨?_, rest⟩
      change (r.stream.applyCommitted index cmd).creations = []
      unfold Stream.applyCommitted
      cases r.stream.node.applyCommitted index cmd <;> exact none
  have lists : forall stem cached, (r.served.after (index, cmd)).rbacCache stem = some cached ->
      r.rbacCache stem = some cached := fun stem cached stored =>
    @after_rbacCache r.served inv.logged.wellFormed (index, cmd) stem cached stored
  have stream : (r.step lead (.apply index cmd)).stream = r.stream.applyCommitted index cmd := rfl
  unfold Stream.applyCommitted at stream
  cases outcome : r.stream.node.applyCommitted index cmd with
  | error refusal =>
    rw [outcome] at stream
    have feed : (r.step lead (.apply index cmd)).feed = r.feed ++ [] := by
      rw [Reflector.feed, stream, List.append_nil]
      rfl
    refine inv.grows feed (fun _ no => nomatch no) ?_ rfl rfl rfl lists fed
    change r.db.revision ≤ (r.step lead (.apply index cmd)).stream.node.store.db.revision
    rw [stream]
    exact le_refl _
  | ok result =>
    rw [outcome] at stream
    have applies := inv.logged.applies outcome
    rcases applies.later with ⟨later, added, above⟩
    have feed : (r.step lead (.apply index cmd)).feed = r.feed ++ later.flatMap WatchBatch.stamped := by
      rw [Reflector.feed, stream]
      exact Node.stamped_append added
    refine inv.grows feed (stamped_above above) ?_ rfl rfl rfl lists fed
    change r.db.revision ≤ (r.step lead (.apply index cmd)).stream.node.store.db.revision
    rw [stream]
    exact applies.revision

theorem Inv.turn {stream : Stream} (requests : List WatchRequest)
    (node : stream.node = r.stream.node)
    (fed : ({ r with stream := stream, requests := requests } : Reflector).Fed lead) :
    ({ r with stream := stream, requests := requests } : Reflector).Inv lead := by
  have feed : ({ r with stream := stream, requests := requests } : Reflector).feed = r.feed ++ [] := by
    rw [Reflector.feed, List.append_nil]
    exact congrArg Node.stamped node
  refine inv.grows feed (fun _ no => nomatch no) ?_ rfl rfl rfl (fun _ _ stored => stored) fed
  rw [Reflector.db, Reflector.db, node]

theorem Inv.internal {label : Watch.Label} (silent : (r.stream.step label).creations = r.stream.creations)
    (other : forall index cmd, label ≠ .apply index cmd)
    (steps : forall listRevision p read q, Feeds lead listRevision p read r.stream q ->
      Exists fun q' : Int => Feeds lead listRevision p read (r.stream.step label) q') :
    ({ r with stream := r.stream.step label } : Reflector).Inv lead := by
  refine inv.turn r.requests (Stream.step_node r.stream other) ?_
  rcases inv.fed with ⟨listRevision, p, read, q, feeds, asked, same⟩
  rcases steps listRevision p read q feeds with ⟨q', feeds'⟩
  refine ⟨listRevision, p, read, q', feeds', ?_, same⟩
  rcases asked with progress | ⟨none, rest⟩
  · exact Or.inl progress
  · exact Or.inr ⟨silent.trans none, rest⟩

theorem Inv.receive : (r.step lead .receive).Inv lead := by
  apply inv.internal
  · unfold Stream.step Stream.receive
    dsimp only
    split
    · split
      · rfl
      · split <;> rfl
    · rfl
  · exact fun _ _ no => nomatch no
  · intro listRevision p read q feeds
    unfold Stream.step
    split_ifs with idle
    · exact feeds.receive idle
    · exact ⟨q, feeds⟩

theorem Inv.proceed (next : Int) : (r.step lead (.proceed next)).Inv lead := by
  apply inv.internal
  · unfold Stream.step Stream.finishCreate Stream.resyncOne Stream.finishResync
    dsimp only
    repeat' split
    all_goals rfl
  · exact fun _ _ no => nomatch no
  · intro listRevision p read q feeds
    have kept := feeds.inv.step (.proceed next) (feeds.regular _)
    unfold Stream.step at kept ⊢
    cases busy : r.stream.task with
    | idle => exact ⟨q, feeds⟩
    | creating live creation => exact feeds.finishCreate busy
    | resyncing pending progress =>
      rw [busy] at kept
      cases pending with
      | nil => exact ⟨q, feeds.finishResync busy⟩
      | cons first rest =>
        dsimp only at kept ⊢
        split_ifs at kept ⊢ with here
        · exact feeds.resyncOne kept
        · exact ⟨q, feeds⟩

theorem Inv.handle : (r.step lead .handle).Inv lead := by
  unfold step
  cases queued : r.requests with
  | nil => exact inv
  | cons request rest =>
    split_ifs with idle
    · refine inv.turn rest (Stream.step_node r.stream (fun _ _ no => nomatch no)) ?_
      rcases inv.fed with ⟨listRevision, p, read, q, feeds, asked, same⟩
      rw [Asked, queued] at asked
      rcases asked with progress | ⟨none, others, first, progress⟩
      · have isProgress := progress request (.head _)
        subst isProgress
        refine ⟨listRevision, p, read, q, ?_, ?_, same⟩
        · unfold Stream.step
          dsimp only
          rw [if_pos idle]
          exact feeds.beginResync idle r.stream.missed true
        · exact Or.inl fun other member => progress other (.tail _ member)
      · cases first
        refine ⟨listRevision, p, read, q, ?_, Or.inl progress, same⟩
        unfold Stream.step
        dsimp only
        rw [if_pos idle]
        exact feeds.beginCreate idle none
    · exact inv

/-! ## The reflector -/

theorem Inv.starts : ({ r with phase := .listing } : Reflector).Inv lead := by
  rcases inv.fed with ⟨listRevision, p, read, q, feeds, asked, _⟩
  refine ⟨⟨listRevision, p, read, q, feeds, asked, ?_⟩, inv.cached, inv.mirrors, inv.nonneg, inv.reached, ?_, ?_⟩
  · exact fun _ no => nomatch no
  · exact fun _ _ no => nomatch no
  · nofun

theorem Inv.read (q : RangeQuery) : (r.step lead (.read q)).Inv lead :=
  ⟨inv.fed, inv.cached.read inv.logged q, inv.mirrors, inv.nonneg, inv.reached, inv.inHand, inv.seeded⟩

theorem Inv.list (current : r.Current lead .list) : (r.step lead .list).Inv lead := by
  unfold step
  cases phase : r.phase with
  | listing =>
    have answered := inv.cached.list_ok inv.logged current
    have lists := inv.cached.read inv.logged (RangeQuery.current (watched lead))
    dsimp only
    rw [answered]
    rcases inv.fed with ⟨listRevision, p, read, q, feeds, asked, _⟩
    refine ⟨⟨listRevision, p, read, q, feeds, asked, ?_⟩, lists, inv.mirrors, inv.nonneg, inv.reached, ?_, ?_⟩
    · exact fun _ no => nomatch no
    · intro items revision inHand
      cases inHand
      have started := inv.logged.wellFormed.started
      refine ⟨zero_le_one.trans started, le_refl _, ?_⟩
      exact congrArg (fun events => (contents events (watched lead)).entries) (eventsUpTo_all inv.logged).symm
    · nofun
  | listed items revision => exact inv
  | opening => exact inv
  | watching read => exact inv

end

theorem contents_ofList (events : List (Int × Event)) (range : KeyRange) :
    SortedMap.ofList (contents events range).entries = contents events range :=
  SortedMap.eq_of_entries (SortedMap.ofList_entries (contents events range).sorted)

section

variable (inv : r.Inv lead)
include inv

theorem Inv.replace : (r.step lead .replace).Inv lead := by
  unfold step
  cases phase : r.phase with
  | listed items revision =>
    rcases inv.inHand items revision phase with ⟨nonneg, reached, rfl⟩
    rcases inv.fed with ⟨listRevision, p, read, q, feeds, asked, _⟩
    refine ⟨⟨listRevision, p, read, q, feeds, asked, ?_⟩, inv.cached, ?_, nonneg, reached, ?_, fun _ => rfl⟩
    · exact fun _ no => nomatch no
    · exact Mirrors.listed _ _ _ (contents_ofList _ _)
    · exact fun _ _ no => nomatch no
  | listing => exact inv
  | opening => exact inv
  | watching read => exact inv

theorem Inv.openWatch : (r.step lead .openWatch).Inv lead := by
  unfold step
  cases phase : r.phase with
  | opening =>
    have seeded := inv.seeded phase
    refine ⟨⟨r.listedAt, r.cache.revision, 0, r.cache.revision, ?_, ?_, ?_⟩, inv.cached, inv.mirrors, inv.nonneg,
      inv.reached, ?_, ?_⟩
    · have nonneg : 0 ≤ r.cache.revision := seeded ▸ inv.nonneg
      refine ⟨Stream.opened_inv inv.logged, ?_, Nat.zero_le 1, le_refl 0, inv.nonneg, nonneg, inv.reached,
        .idle (le_refl _) inv.reached (publishedIn_empty (le_refl _)), fun _ => seeded, ?_, ?_⟩
      · exact fun _ no => nomatch no
      · exact fun _ no => nomatch no
      · exact fun _ _ no => nomatch no
    · exact Or.inr ⟨rfl, [], rfl, (fun _ no => nomatch no)⟩
    · intro n watching
      cases watching
      exact ⟨rfl, rfl, rfl⟩
    · exact fun _ _ no => nomatch no
    · nofun
  | listing => exact inv
  | listed items revision => exact inv
  | watching read => exact inv

theorem Inv.tick : (r.step lead .tick).Inv lead := by
  unfold step
  cases phase : r.phase with
  | watching n =>
    suffices fed : ({ r with stream := r.stream, requests := r.requests ++ [.progress] } : Reflector).Fed lead by
      have turned := inv.turn (r.requests ++ [.progress]) rfl fed
      rw [phase] at turned
      exact turned
    rcases inv.fed with ⟨listRevision, p, read, q, feeds, asked, same⟩
    refine ⟨listRevision, p, read, q, feeds, ?_, same⟩
    have added : forall requests : List WatchRequest, (forall request, request ∈ requests -> request = .progress) ->
        forall request, request ∈ requests ++ [.progress] -> request = .progress := by
      intro requests progress request member
      rcases List.mem_append.mp member with earlier | last
      · exact progress request earlier
      · exact List.mem_singleton.mp last
    rcases asked with progress | ⟨none, rest, first, progress⟩
    · exact Or.inl (added r.requests progress)
    · refine Or.inr ⟨none, rest ++ [.progress], ?_, added rest progress⟩
      rw [first]
      rfl
  | listing => exact inv
  | listed items revision => exact inv
  | opening => exact inv

theorem Inv.fail : (r.step lead .fail).Inv lead := by
  unfold step
  cases phase : r.phase with
  | opening | watching n => exact inv.starts
  | listing => exact inv
  | listed items revision => exact inv

theorem Inv.advanced {n : Nat} (watching : r.phase = .watching n) {c : WatchCache}
    (unread : n + 1 ≤ r.stream.sent.length)
    (mirrors : Mirrors r.feed (watched lead) r.listedAt c) (reached : c.revision ≤ r.db.revision)
    (follows : forall q, Follows r.feed (watched lead) r.db.revision r.cache.revision (r.stream.sent.drop n) q ->
      Follows r.feed (watched lead) r.db.revision c.revision (r.stream.sent.drop (n + 1)) q) :
    ({ r with cache := c, phase := .watching (n + 1) } : Reflector).Inv lead := by
  rcases inv.fed with ⟨listRevision, p, read, q, feeds, asked, same⟩
  rcases same n watching with ⟨rfl, rfl, rfl⟩
  refine ⟨⟨r.listedAt, c.revision, read + 1, q, ?_, asked, ?_⟩, inv.cached, mirrors, inv.nonneg, reached, ?_, ?_⟩
  · exact ⟨feeds.inv, feeds.asked, feeds.single, unread, feeds.listed, feeds.nonneg, feeds.within,
      follows q feeds.follows, feeds.unasked, feeds.positions, feeds.creating⟩
  · intro m watching
    cases watching
    exact ⟨rfl, rfl, rfl⟩
  · exact fun _ _ no => nomatch no
  · nofun

theorem Inv.message : (r.step lead .message).Inv lead := by
  unfold step
  cases watching : r.phase with
  | listing => exact inv
  | listed items revision => exact inv
  | opening => exact inv
  | watching n =>
    dsimp only
    unfold Reflector.message
    cases next : r.stream.sent[n]? with
    | none => exact inv
    | some delivery =>
      have here := List.getElem?_eq_some_iff.mp next
      rcases here with ⟨below, found⟩
      have split : r.stream.sent.drop n = delivery :: r.stream.sent.drop (n + 1) := by
        rw [List.drop_eq_getElem_cons below, found]
      rcases inv.fed with ⟨listRevision, p, read, q, feeds, asked, same⟩
      rcases same n watching with ⟨rfl, rfl, rfl⟩
      have follows := feeds.follows
      rw [split] at follows
      have sorted := inv.sorted
      have dated := logged_dated inv.logged
      cases follows with
      | created acknowledges uncanceled _ =>
        dsimp only
        rw [applyWatchResponse_created acknowledges, uncanceled]
        refine inv.advanced watching below inv.mirrors inv.reached ?_
        intro q' follows
        rw [split] at follows
        cases follows with
        | created _ _ follows => exact follows
        | events carries _ _ _ _ => exact absurd acknowledges (by rw [carries.created]; exact Bool.false_ne_true)
        | progress _ _ _ => cases acknowledges
        | canceled ends => exact absurd ends (by rw [uncanceled]; exact Bool.false_ne_true)
      | @events _ _ _ response _ carries order reached exact _ =>
        have mirrored := Mirrors.events sorted dated inv.mirrors carries order exact
        dsimp only
        rw [carries.canceled]
        refine inv.advanced watching below mirrored.2 (mirrored.1.le.trans reached) ?_
        intro q' follows
        rw [split] at follows
        rw [mirrored.1]
        cases follows with
        | created acknowledges _ _ => exact absurd acknowledges (by rw [carries.created]; exact Bool.false_ne_true)
        | events _ _ _ _ follows => exact follows
        | progress _ _ _ => exact absurd rfl carries.events
        | canceled ends => exact absurd ends (by rw [carries.canceled]; exact Bool.false_ne_true)
      | @progress _ _ header _ _ reached quiet _ =>
        have mirrored := Mirrors.progress sorted dated inv.mirrors quiet
        dsimp only
        refine inv.advanced watching below mirrored.2 ?_ ?_
        · rw [mirrored.1]
          exact max_le inv.reached reached
        · intro q' follows
          rw [split] at follows
          rw [mirrored.1]
          cases follows with
          | created acknowledges _ _ => cases acknowledges
          | events carries _ _ _ _ => exact absurd rfl carries.events
          | progress _ _ follows => exact follows
          | canceled ends => cases ends
      | canceled ends =>
        dsimp only
        rw [applyWatchResponse_canceled ends, ends]
        exact inv.starts
      | failed => exact inv.starts

theorem Inv.step (label : Step) (current : r.Current lead label) : (r.step lead label).Inv lead := by
  cases label with
  | apply index cmd => exact inv.apply index cmd
  | overwrite =>
    apply inv.internal
    · unfold Stream.step Stream.overwrite
      dsimp only
      split <;> rfl
    · exact fun _ _ no => nomatch no
    · exact fun _ _ _ q feeds => ⟨q, feeds.overwrite⟩
  | receive => exact inv.receive
  | handle => exact inv.handle
  | proceed next => exact inv.proceed next
  | read q => exact inv.read q
  | list => exact inv.list current
  | replace => exact inv.replace
  | openWatch => exact inv.openWatch
  | message => exact inv.message
  | tick => exact inv.tick
  | fail => exact inv.fail

end

theorem spawn_inv (lead : Bytes) (historyLimit : Nat) : (spawn historyLimit).Inv lead := by
  have empty : contents (eventsUpTo 0 Node.fresh.stamped) (watched lead) = SortedMap.empty := contents_nil _
  refine ⟨⟨0, 0, 0, 0, ?_, ?_, ?_⟩, ?_, ?_, le_refl 0, ?_, ?_, ?_⟩
  · refine ⟨Stream.opened_inv Node.fresh_logged, ?_, Nat.zero_le 1, le_refl 0, le_refl 0, le_refl 0, zero_le_one,
      .idle (le_refl 0) zero_le_one rfl, fun _ => rfl, ?_, ?_⟩
    · exact fun _ no => nomatch no
    · exact fun _ no => nomatch no
    · exact fun _ _ no => nomatch no
  · exact Or.inl (fun _ no => nomatch no)
  · exact fun _ no => nomatch no
  · exact fun _ _ no => nomatch no
  · exact Mirrors.listed [] 0 historyLimit empty.symm
  · exact zero_le_one
  · exact fun _ _ no => nomatch no
  · nofun

theorem Inv.faithful (inv : r.Inv lead) : r.Faithful lead where
  listing := congrArg SortedMap.entries inv.mirrors.items
  stored := by
    intro above
    have page := rangeIn_listed inv.logged (watched lead) above
    exact (congrArg SortedMap.entries inv.mirrors.items).trans page.symm
  delivered := inv.mirrors.delivered

/-- A cache seeded from a list that is not current does not mirror the
store. -/
theorem Inv.current_of_faithful (inv : r.Inv lead) (listing : r.phase = .listing)
    (faithful : ((r.step lead .list).step lead .replace).Faithful lead) : r.Current lead .list := by
  unfold Current
  cases named : rbacListPrefix (watched lead) with
  | none => exact True.intro
  | some stem =>
    dsimp only
    cases stored : r.rbacCache stem with
    | none => exact True.intro
    | some cached =>
      rcases inv.cached stem cached stored with ⟨dated, result⟩
      have selected : r.served.db.readRevision (RangeQuery.current (watched lead)) = .ok r.db.revision :=
        readRevision_current (le_refl 0)
      have sameRange : rbacListPrefix (RangeQuery.current (watched lead)).range = some stem := named
      have plain : cacheable (RangeQuery.current (watched lead)) = true := rfl
      have storedThere : r.served.rbacCache stem = some cached := stored
      have late : r.db.revision ≥ cached.revision := dated
      have hit : r.served.cachedList (RangeQuery.current (watched lead)) r.db.revision = some cached.result := by
        unfold Store.cachedList
        simp only [sameRange, storedThere]
        rw [if_pos plain, if_pos late]
      have answered : Reflector.list r.served lead = (.ok (cached.result.kvs.map listed, r.db.revision), r.served) := by
        unfold Reflector.list Store.range
        simp only [selected, hit]
        rfl
      have seeded := faithful.listing
      unfold Reflector.step at seeded
      rw [listing] at seeded
      rw [answered] at seeded
      change (SortedMap.ofList (cached.result.kvs.map listed)).entries =
        (contents (eventsUpTo r.db.revision r.feed) (watched lead)).entries at seeded
      have whole : eventsUpTo r.db.revision r.feed = r.feed := eventsUpTo_all inv.logged
      rw [result, ← (rbacListPrefix_eq_some named).2, contents_ofList, whole] at seeded
      exact SortedMap.eq_of_entries seeded

end

/-- In every run whose lists are current, the cache mirrors the store's key
range at its revision and has told its subscribers of every event since the
last list; and the next list seeds it with a mirror exactly when it is
current. -/
theorem cache_mirrors_store (lead : Bytes) (historyLimit : Nat) (steps : List Step)
    (current : EveryStep (step lead) (Current lead) (spawn historyLimit) steps) :
    AlongRun (step lead) (Faithful lead) (spawn historyLimit) steps ∧
      ((run (step lead) (spawn historyLimit) steps).phase = .listing ->
        (Faithful lead (run (step lead) (spawn historyLimit) (steps ++ [.list, .replace])) <->
          Current lead (run (step lead) (spawn historyLimit) steps) .list)) := by
  have along := @AlongRun.of_invariant _ _ (step lead) (Inv lead) (Current lead)
    (fun r label inv current => inv.step label current) _ _ (spawn_inv lead historyLimit) current
  refine ⟨along.mono fun r inv => inv.faithful, fun listing => ?_⟩
  have inv := along.finish
  rw [run_append]
  constructor
  · exact inv.current_of_faithful listing
  · exact fun isCurrent => (inv.list isCurrent).replace.faithful

/-! ## Two runs -/

/-- A pod is created while its cache lists, changed before the watch opens
and deleted after; the watch is asked for its progress twice. -/
def podLifetime : List Step :=
  let key := "/registry/pods/ns/a"
  [.apply 1 (putCommand "/registry/nodes/n" "one"), .list, .apply 2 (putCommand key "one"), .replace,
    .apply 3 (putCommand key "two"), .openWatch, .handle, .message, .proceed 0, .message, .tick,
    .apply 4 (.delete { range := .single (ascii key), prevKv := false }), .handle, .proceed 0, .receive, .proceed 0,
    .message, .message, .message, .tick, .receive, .handle, .proceed 0, .proceed 0, .message]

theorem podLifetime_mirrored :
    AlongRun (step (ascii "/registry/pods/")) (Faithful (ascii "/registry/pods/")) (spawn 2) podLifetime ∧
      ((run (step (ascii "/registry/pods/")) (spawn 2) podLifetime).phase = .listing ->
        (Faithful (ascii "/registry/pods/")
            (run (step (ascii "/registry/pods/")) (spawn 2) (podLifetime ++ [.list, .replace])) <->
          Current (ascii "/registry/pods/") (run (step (ascii "/registry/pods/")) (spawn 2) podLifetime) .list)) :=
  cache_mirrors_store _ _ _ (by decide)

/-- A role is written twice and another client lists the roles at the older
revision.  Then the cache of the roles lists them. -/
def roleRollback : List Step :=
  let key := "/registry/roles/ns/admin"
  [.apply 1 (putCommand key "narrow"), .apply 2 (putCommand key "wide"),
    .read (plainRead (watched (ascii "/registry/roles/")) 2), .list, .replace]

/-- It holds the older role under the newer revision. -/
theorem roleRollback_not_mirrored :
    ¬AlongRun (step (ascii "/registry/roles/")) (Faithful (ascii "/registry/roles/")) (spawn 8) roleRollback := by
  intro along
  have listing := along.finish.listing
  revert listing
  decide

end Reflector
end NotK8s.Cacher
