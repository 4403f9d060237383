import NotK8s.Controllers.StatefulSets

namespace NotK8s.Controllers
namespace StatefulSets

open Library

/-!
# The order of ordinals

Ordinals are created from the lowest and removed from the highest, and an
update replaces the highest Pod that is not current.  It looks at the
revisions only.  Nothing makes it wait for the Pod it replaced before to be
ready, and it is sequential exactly on the line-ups that are ready anyway.
-/

/-! ## Line-ups -/

namespace Lineup

/-- The Pod of the ordinal is there, is not on its way out and is ready. -/
def Up (l : Lineup) (o : Int) : Prop :=
  Exists fun pod => l.byOrdinal.get o = some pod ∧ pod.terminating = false ∧ pod.ready = true

/-- The Pod of the ordinal is there with the revision and is not on its way
out. -/
def Current (l : Lineup) (hash : String) (o : Int) : Prop :=
  Exists fun pod => l.byOrdinal.get o = some pod ∧ pod.terminating = false ∧ pod.podTemplateHash = some hash

def Outdated (l : Lineup) (hash : String) (o : Int) : Prop :=
  Exists fun pod => l.byOrdinal.get o = some pod ∧ pod.podTemplateHash ≠ some hash

/-- The Pod of the ordinal is deleted. -/
def Deletes (l : Lineup) (writes : List PodWrite) (o : Int) : Prop :=
  Exists fun pod => l.byOrdinal.get o = some pod ∧ .delete pod.name ∈ writes

end Lineup

def partitionOf (spec : StatefulSetSpec) : Int :=
  (spec.updateStrategy.bind UpdateStrategy.partition).getD 0

def isOnDelete (spec : StatefulSetSpec) : Bool :=
  spec.updateStrategy.bind UpdateStrategy.type == some "OnDelete"

/-- One of the ordinals the StatefulSet asks for. -/
def Wanted (spec : StatefulSetSpec) (o : Int) : Prop :=
  0 ≤ o ∧ o < desiredPods spec

instance (spec : StatefulSetSpec) (o : Int) : Decidable (Wanted spec o) :=
  inferInstanceAs (Decidable (_ ∧ _))

/-- An outdated Pod is deleted only when every other one is up, no other one
is deleted with it, and none below the partition is.  In order, an ordinal is
created only when every lower one is up, and removed only when every higher
one is gone. -/
structure InOrder (sts : StatefulSet) (spec : StatefulSetSpec) (hash : String) (l : Lineup) (writes : List PodWrite) : Prop where
  update : forall o, Wanted spec o -> l.Deletes writes o -> l.Outdated hash o ->
    forall other, Wanted spec other -> other ≠ o -> l.Up other
  single : forall o other, Wanted spec o -> Wanted spec other -> l.Deletes writes o -> l.Deletes writes other -> other = o
  partition : forall o, Wanted spec o -> l.Deletes writes o -> partitionOf spec ≤ o
  creation : forall pod, .create pod ∈ writes -> Exists fun o => buildPod sts spec o hash = some pod ∧ Wanted spec o ∧
    l.byOrdinal.get o = none ∧ (isParallel spec = false -> forall lower, 0 ≤ lower -> lower < o -> l.Up lower)
  removal : isParallel spec = false -> forall o, desiredPods spec ≤ o -> l.Deletes writes o ->
    forall higher, o < higher -> l.byOrdinal.get higher = none

/-- What a pass requests keeps the order. -/
def Sequential (sts : StatefulSet) (podCache : SortedMap String Pod) (pvcCache : Claims) : Prop :=
  forall uid spec, sts.uid = some uid -> sts.spec = some spec ->
    InOrder sts spec (computeTemplateHash spec.template.json) (lineup sts uid podCache)
      (reconcileStatefulSet sts podCache pvcCache)

/-- Where Pods are replaced and every ordinal is there, the highest one that
is not current, when its Pod is outdated, is the only one that may be down. -/
def ReadyToUpdate (sts : StatefulSet) (podCache : SortedMap String Pod) : Prop :=
  forall uid spec, sts.uid = some uid -> sts.spec = some spec -> isOnDelete spec = false ->
    let l := lineup sts uid podCache
    let hash := computeTemplateHash spec.template.json
    (forall o, Wanted spec o -> Exists fun pod => l.byOrdinal.get o = some pod) ->
    forall o, Wanted spec o -> partitionOf spec ≤ o -> l.Outdated hash o -> ¬ l.Current hash o ->
      (forall higher, o < higher -> higher < desiredPods spec -> l.Current hash higher) ->
      forall other, Wanted spec other -> other ≠ o -> l.Up other

/-! ## What is read from the cache -/

section
variable {sts : StatefulSet} {spec : StatefulSetSpec} {uid hash : String} {podCache : SortedMap String Pod} {pvcCache : Claims}
  {l : Lineup} {o : Int} {pod : Pod}

theorem lineup_name (found : (lineup sts uid podCache).byOrdinal.get o = some pod) :
    ordinalFromPodName sts.name pod.name = some o := by
  rcases List.mem_filterMap.mp (SortedMap.mem_of_get_ofList found) with ⟨listed, -, named⟩
  rcases Option.map_eq_some_iff.mp named with ⟨ordinal, reads, same⟩
  cases same
  exact reads

theorem mem_ordinalsBelow {bound : Int} : o ∈ ordinalsBelow bound <-> 0 ≤ o ∧ o < bound := by
  unfold ordinalsBelow
  rw [List.mem_map]
  constructor
  · rintro ⟨n, listed, rfl⟩
    have below := List.mem_range.mp listed
    refine ⟨Int.natCast_nonneg n, ?_⟩
    change (n : Int) < bound
    omega
  · rintro ⟨natural, below⟩
    refine ⟨o.toNat, List.mem_range.mpr (by omega), Int.toNat_of_nonneg natural⟩

theorem mem_existing : o ∈ l.existing <-> Exists fun pod => l.byOrdinal.get o = some pod := by
  unfold Lineup.existing
  rw [List.mem_map]
  constructor
  · rintro ⟨entry, listed, rfl⟩
    exact ⟨entry.2, SortedMap.mem_entries.mp listed⟩
  · rintro ⟨pod, found⟩
    exact ⟨(o, pod), SortedMap.mem_entries.mpr found, rfl⟩

theorem mem_ready : o ∈ l.ready <-> l.Up o := by
  unfold Lineup.ready
  rw [List.mem_map]
  constructor
  · rintro ⟨entry, listed, rfl⟩
    rcases List.mem_filter.mp listed with ⟨stored, up⟩
    rw [Bool.and_eq_true, Bool.not_eq_true'] at up
    exact ⟨entry.2, SortedMap.mem_entries.mp stored, up.1, up.2⟩
  · rintro ⟨pod, found, stays, ready⟩
    refine ⟨(o, pod), List.mem_filter.mpr ⟨SortedMap.mem_entries.mpr found, ?_⟩, rfl⟩
    rw [stays, ready]
    rfl

theorem podHashes_iff : l.podHashes.get o = some hash <-> l.Current hash o := by
  unfold Lineup.podHashes
  have distinct : (((l.byOrdinal.entries.filter fun entry => !entry.2.terminating).filterMap fun entry =>
      entry.2.podTemplateHash.map fun hash => (entry.1, hash)).map Prod.fst).Nodup := by
    rw [List.map_filterMap]
    apply List.Pairwise.filterMap _ _ (l.byOrdinal.sorted.filter _)
    intro one other ordered first firstIs second secondIs same
    rcases Option.map_eq_some_iff.mp firstIs with ⟨pair, pairIs, isFirst⟩
    rcases Option.map_eq_some_iff.mp secondIs with ⟨pair', pairIs', isSecond⟩
    rcases Option.map_eq_some_iff.mp pairIs with ⟨_, _, made⟩
    rcases Option.map_eq_some_iff.mp pairIs' with ⟨_, _, made'⟩
    rw [← isFirst, ← isSecond, ← made, ← made'] at same
    exact absurd same ordered.ne
  rw [SortedMap.get_ofList distinct, List.mem_filterMap]
  constructor
  · rintro ⟨entry, listed, made⟩
    rcases List.mem_filter.mp listed with ⟨stored, stays⟩
    rcases Option.map_eq_some_iff.mp made with ⟨held, is, same⟩
    cases same
    exact ⟨entry.2, SortedMap.mem_entries.mp stored, (Bool.not_eq_true' _).mp stays, is⟩
  · rintro ⟨pod, found, stays, is⟩
    refine ⟨(o, pod), List.mem_filter.mpr ⟨SortedMap.mem_entries.mpr found, ?_⟩, ?_⟩
    · rw [Bool.not_eq_true']
      exact stays
    · rw [is]
      rfl

/-! ## What is decided -/

/-- An ordinal that is replaced is the highest one at the partition or above
that is not current, and every ordinal is there. -/
theorem toUpdate_iff : toUpdate spec hash l = some o <->
    (isOnDelete spec = false ∧ (forall o, Wanted spec o -> Exists fun pod => l.byOrdinal.get o = some pod)) ∧
      Wanted spec o ∧ partitionOf spec ≤ o ∧ ¬ l.Current hash o ∧
      forall higher, o < higher -> higher < desiredPods spec -> l.Current hash higher := by
  have present : (ordinalsBelow (desiredPods spec)).all l.existing.contains = true <->
      forall o, Wanted spec o -> Exists fun pod => l.byOrdinal.get o = some pod := by
    rw [List.all_eq_true]
    constructor
    · intro every o wanted
      exact mem_existing.mp (List.contains_iff_mem.mp (every o (mem_ordinalsBelow.mpr wanted)))
    · intro every o listed
      exact List.contains_iff_mem.mpr (mem_existing.mpr (every o (mem_ordinalsBelow.mp listed)))
  have decreasing : ((ordinalsBelow (desiredPods spec)).filter fun o => max (partitionOf spec) 0 ≤ o).reverse.Pairwise
      fun first second => second < first := by
    rw [List.pairwise_reverse]
    apply List.Pairwise.filter
    exact List.Pairwise.map _ (fun _ _ less => Int.ofNat_lt.mpr less) List.pairwise_lt_range
  have listed : forall o, o ∈ ((ordinalsBelow (desiredPods spec)).filter fun o => max (partitionOf spec) 0 ≤ o).reverse <->
      Wanted spec o ∧ partitionOf spec ≤ o := by
    intro o
    rw [List.mem_reverse, List.mem_filter, mem_ordinalsBelow, decide_eq_true_eq, max_le_iff]
    exact ⟨fun both => ⟨both.1, both.2.1⟩, fun both => ⟨both.1, both.2, both.1.1⟩⟩
  have differs : forall o, (l.podHashes.get o != some hash) = true <-> ¬ l.Current hash o := by
    intro o
    rw [bne_iff_ne, ne_eq, podHashes_iff]
  have highest : forall {o}, ordinalToUpdate (desiredPods spec) (partitionOf spec) l.podHashes hash = some o ->
      Wanted spec o ∧ partitionOf spec ≤ o ∧ ¬ l.Current hash o ∧
        forall higher, o < higher -> higher < desiredPods spec -> l.Current hash higher := by
    intro o found
    have inside := (listed o).mp (List.mem_of_find?_eq_some found)
    refine ⟨inside.1, inside.2, (differs o).mp (List.find?_eq_some_iff_append.mp found).1, fun higher above below => ?_⟩
    rcases List.find?_eq_some_iff_append.mp found with ⟨-, before, after, whole, passed⟩
    have member := (listed higher).mpr ⟨⟨inside.1.1.trans above.le, below⟩, inside.2.trans above.le⟩
    rw [whole] at member decreasing
    rcases List.mem_append.mp member with earlier | later
    · by_contra behind
      have skipped := passed higher earlier
      rw [Bool.not_eq_true'] at skipped
      exact absurd ((differs higher).mpr behind) (by rw [skipped]; exact Bool.false_ne_true)
    · rcases List.mem_cons.mp later with rfl | later
      · exact absurd above (lt_irrefl _)
      · have less := (List.pairwise_cons.mp (List.pairwise_append.mp decreasing).2.1).1 higher later
        exact absurd above less.asymm
  have unfolded : toUpdate spec hash l = if (ordinalsBelow (desiredPods spec)).all l.existing.contains && !isOnDelete spec then
      ordinalToUpdate (desiredPods spec) (partitionOf spec) l.podHashes hash else none := rfl
  rw [unfolded]
  constructor
  · intro found
    split_ifs at found with holds
    rw [Bool.and_eq_true, Bool.not_eq_true', present] at holds
    exact ⟨⟨holds.2, holds.1⟩, highest found⟩
  · rintro ⟨⟨replaces, every⟩, wanted, atPartition, behind, above⟩
    rw [present.mpr every, replaces]
    cases found : ordinalToUpdate (desiredPods spec) (partitionOf spec) l.podHashes hash with
    | none =>
      have none_ := List.find?_eq_none.mp found o ((listed o).mpr ⟨wanted, atPartition⟩)
      exact absurd ((differs o).mpr behind) none_
    | some other =>
      rcases highest found with ⟨wanted', -, behind', above'⟩
      rcases lt_trichotomy o other with less | rfl | more
      · exact absurd (above other less wanted'.2) behind'
      · rfl
      · exact absurd (above' o more wanted.2) behind

theorem mem_toDelete (listed : o ∈ toDelete spec l) : desiredPods spec ≤ o ∧
    (isParallel spec = false -> forall higher, o < higher -> l.byOrdinal.get higher = none) := by
  unfold toDelete at listed
  split_ifs at listed with waits
  · cases listed
  · have excess := (List.mem_filter.mp listed).1
    cases parallel : isParallel spec with
    | true =>
      rw [parallel] at excess
      exact ⟨of_decide_eq_true (List.mem_filter.mp excess).2, fun contradiction => absurd contradiction.symm Bool.false_ne_true⟩
    | false =>
      rw [parallel] at excess
      have most := List.max?_eq_some_iff.mp (Option.mem_toList.mp excess)
      have large := of_decide_eq_true (List.mem_filter.mp most.1).2
      refine ⟨large, fun _ higher above => ?_⟩
      by_contra found
      have member := mem_existing.mpr (Option.ne_none_iff_exists'.mp found)
      have bound := most.2 higher (List.mem_filter.mpr ⟨member, decide_eq_true (large.trans above.le)⟩)
      exact absurd above (not_lt.mpr bound)

theorem mem_toCreate (listed : o ∈ toCreate spec l) : Wanted spec o ∧ l.byOrdinal.get o = none ∧
    (isParallel spec = false -> forall lower, 0 ≤ lower -> lower < o -> l.Up lower) := by
  have missing : forall o, o ∈ ((ordinalsBelow (desiredPods spec)).filter fun o => !l.existing.contains o) ->
      Wanted spec o ∧ l.byOrdinal.get o = none := by
    intro o member
    rcases List.mem_filter.mp member with ⟨below, absent⟩
    refine ⟨mem_ordinalsBelow.mp below, ?_⟩
    by_contra found
    rw [List.contains_iff_mem.mpr (mem_existing.mpr (Option.ne_none_iff_exists'.mp found))] at absent
    cases absent
  unfold toCreate ordinalsToCreate at listed
  cases parallel : isParallel spec with
  | true =>
    rw [parallel] at listed
    exact ⟨(missing o listed).1, (missing o listed).2, fun contradiction => absurd contradiction.symm Bool.false_ne_true⟩
  | false =>
    rw [parallel] at listed
    dsimp only at listed
    split at listed
    · contradiction
    · split at listed
      · next lowest rest first =>
          split_ifs at listed with ready
          · have same := List.mem_singleton.mp listed
            subst same
            have inside := missing o (first ▸ .head _)
            refine ⟨inside.1, inside.2, fun _ lower natural below => ?_⟩
            have up := List.all_eq_true.mp ready lower (mem_ordinalsBelow.mpr ⟨natural, below⟩)
            exact mem_ready.mp (List.contains_iff_mem.mp up)
          · cases listed
      · cases listed

/-! ## What is requested -/

theorem mem_createOrdinals {ordinals : List Int} {write : PodWrite}
    (written : write ∈ createOrdinals sts spec hash pvcCache ordinals) :
    (Exists fun name => write = .createClaim name) ∨
      Exists fun o => o ∈ ordinals ∧ Exists fun pod => buildPod sts spec o hash = some pod ∧ write = .create pod := by
  induction ordinals with
  | nil => cases written
  | cons ordinal rest ih =>
    rcases List.mem_append.mp written with claim | created
    · rcases List.mem_map.mp claim with ⟨name, -, made⟩
      exact Or.inl ⟨name, made.symm⟩
    · cases built : buildPod sts spec ordinal hash with
      | none =>
        rw [built] at created
        cases created
      | some pod =>
        rw [built] at created
        rcases List.mem_cons.mp created with first | later
        · exact Or.inr ⟨ordinal, .head _, pod, built, first⟩
        · exact (ih later).imp_right fun ⟨o, listed, made⟩ => ⟨o, .tail _ listed, made⟩

theorem mem_delete {name : String} (written : .delete name ∈ l.delete o) :
    Exists fun pod => l.byOrdinal.get o = some pod ∧ pod.name = name := by
  rcases Option.map_eq_some_iff.mp (Option.mem_toList.mp written) with ⟨pod, found, made⟩
  cases made
  exact ⟨pod, found, rfl⟩

theorem reconcile_writes (known : sts.uid = some uid) (specified : sts.spec = some spec)
    (isHash : computeTemplateHash spec.template.json = hash) :
    reconcileStatefulSet sts podCache pvcCache =
      createOrdinals sts spec hash pvcCache (toCreate spec (lineup sts uid podCache)) ++
        (toDelete spec (lineup sts uid podCache)).flatMap (lineup sts uid podCache).delete ++
        (toUpdate spec hash (lineup sts uid podCache)).toList.flatMap (lineup sts uid podCache).delete := by
  unfold reconcileStatefulSet
  rw [known, specified, ← isHash]

theorem deletes_cases (known : sts.uid = some uid) (specified : sts.spec = some spec)
    (isHash : computeTemplateHash spec.template.json = hash)
    (deletes : (lineup sts uid podCache).Deletes (reconcileStatefulSet sts podCache pvcCache) o) :
    o ∈ toDelete spec (lineup sts uid podCache) ∨ toUpdate spec hash (lineup sts uid podCache) = some o := by
  rcases deletes with ⟨pod, found, written⟩
  have own : forall other, .delete pod.name ∈ (lineup sts uid podCache).delete other -> other = o := by
    intro other inside
    rcases mem_delete inside with ⟨pod', found', same⟩
    have reads := lineup_name found'
    rw [same, lineup_name found] at reads
    exact (Option.some.inj reads).symm
  rw [reconcile_writes known specified isHash] at written
  rcases List.mem_append.mp written with (first | update)
  · rcases List.mem_append.mp first with created | removed
    · rcases mem_createOrdinals created with ⟨name, contradiction⟩ | ⟨other, -, pod', -, contradiction⟩
      · cases contradiction
      · cases contradiction
    · rcases List.mem_flatMap.mp removed with ⟨other, listed, inside⟩
      exact Or.inl (own other inside ▸ listed)
  · rcases List.mem_flatMap.mp update with ⟨other, listed, inside⟩
    exact Or.inr (own other inside ▸ Option.mem_toList.mp listed)

theorem deletes_of_toUpdate (known : sts.uid = some uid) (specified : sts.spec = some spec)
    (isHash : computeTemplateHash spec.template.json = hash)
    (updates : toUpdate spec hash (lineup sts uid podCache) = some o) :
    (lineup sts uid podCache).Deletes (reconcileStatefulSet sts podCache pvcCache) o := by
  rcases toUpdate_iff.mp updates with ⟨⟨-, every⟩, wanted, -, -, -⟩
  rcases every o wanted with ⟨pod, found⟩
  refine ⟨pod, found, ?_⟩
  rw [reconcile_writes known specified isHash, updates]
  refine List.mem_append_right _ (List.mem_flatMap.mpr ⟨o, List.mem_singleton_self o, ?_⟩)
  unfold Lineup.delete
  rw [found]
  exact .head _

theorem sequential_iff (sts : StatefulSet) (podCache : SortedMap String Pod) (pvcCache : Claims) :
    Sequential sts podCache pvcCache <-> ReadyToUpdate sts podCache := by
  constructor
  · intro sequential uid spec known specified replaces l hash every o wanted atPartition outdated behind above
    exact (sequential uid spec known specified).update o wanted
      (deletes_of_toUpdate known specified rfl (toUpdate_iff.mpr ⟨⟨replaces, every⟩, wanted, atPartition, behind, above⟩))
      outdated
  · intro ready uid spec known specified
    have cases_ := @deletes_cases sts spec uid (computeTemplateHash spec.template.json) podCache pvcCache
    have updated : forall o, Wanted spec o ->
        (lineup sts uid podCache).Deletes (reconcileStatefulSet sts podCache pvcCache) o ->
        toUpdate spec (computeTemplateHash spec.template.json) (lineup sts uid podCache) = some o := by
      intro o wanted deletes
      exact (cases_ known specified rfl deletes).resolve_left fun removed =>
        absurd (mem_toDelete removed).1 (not_le.mpr wanted.2)
    constructor
    · intro o wanted deletes outdated
      rcases toUpdate_iff.mp (updated o wanted deletes) with ⟨⟨replaces, every⟩, -, atPartition, behind, above⟩
      exact ready uid spec known specified replaces every o wanted atPartition outdated behind above
    · intro o other wanted wanted' deletes deletes'
      have same := (updated o wanted deletes).symm.trans (updated other wanted' deletes')
      exact (Option.some.inj same).symm
    · intro o wanted deletes
      exact (toUpdate_iff.mp (updated o wanted deletes)).2.2.1
    · intro pod written
      rw [reconcile_writes known specified rfl] at written
      rcases List.mem_append.mp written with (first | update)
      · rcases List.mem_append.mp first with created | removed
        · rcases mem_createOrdinals created with ⟨name, contradiction⟩ | ⟨o, listed, pod', built, same⟩
          · cases contradiction
          · cases same
            exact ⟨o, built, mem_toCreate listed⟩
        · rcases List.mem_flatMap.mp removed with ⟨o, -, inside⟩
          rcases Option.map_eq_some_iff.mp (Option.mem_toList.mp inside) with ⟨_, _, contradiction⟩
          cases contradiction
      · rcases List.mem_flatMap.mp update with ⟨o, -, inside⟩
        rcases Option.map_eq_some_iff.mp (Option.mem_toList.mp inside) with ⟨_, _, contradiction⟩
        cases contradiction
    · intro inOrder o beyond deletes
      rcases cases_ known specified rfl deletes with removed | update
      · exact (mem_toDelete removed).2 inOrder
      · exact absurd (toUpdate_iff.mp update).2.1.2 (not_lt.mpr beyond)

end

/-! ## Runs -/

/-- The pass of this step, if there is one, is judged on what it reads. -/
def Judged (good : StatefulSet -> SortedMap String Pod -> Claims -> Prop) (s : WorkloadState StatefulSet Claims) :
    WorkloadStep StatefulSet (WatchEvent PersistentVolumeClaim) Unit -> Prop
  | .pop _ => forall key sts queue, WorkloadController.next s = some (key, sts, queue) -> good sts s.pods s.extra
  | _ => True

theorem Judged.imp {good better : StatefulSet -> SortedMap String Pod -> Claims -> Prop}
    (implies : forall sts pods claims, good sts pods claims -> better sts pods claims) {s : WorkloadState StatefulSet Claims}
    {label : WorkloadStep StatefulSet (WatchEvent PersistentVolumeClaim) Unit} (judged : Judged good s label) :
    Judged better s label := by
  cases label with
  | pop choice => exact fun key sts queue found => implies sts s.pods s.extra (judged key sts queue found)
  | podEvent event | ownEvent event | otherEvent event | retryDue => exact True.intro

/-- Every pass of a run keeps the order exactly when every pass of the run
finds a line-up that is ready. -/
theorem sequential_along_iff (labels : List (WorkloadStep StatefulSet (WatchEvent PersistentVolumeClaim) Unit)) :
    EveryStep controller.step (Judged Sequential) controller.new labels <->
      EveryStep controller.step (Judged fun sts pods _ => ReadyToUpdate sts pods) controller.new labels := by
  constructor
  · exact fun every => every.mono fun _ _ judged => judged.imp fun sts pods claims => (sequential_iff sts pods claims).mp
  · exact fun every => every.mono fun _ _ judged => judged.imp fun sts pods claims => (sequential_iff sts pods claims).mpr

private def database : StatefulSet :=
  ⟨some "default", "db", some "u", some ⟨some 3, ⟨[1], none, true⟩, none, [], none⟩⟩

private def databasePod (name hash : String) (ready : Bool) : Pod :=
  ⟨some "default", name, none, [⟨⟨"u", some true⟩, "StatefulSet", "db"⟩], some hash, some "Running",
    if ready then [⟨"Ready", "True"⟩] else []⟩

/-- The highest Pod has been replaced and is not ready yet, and the other two
are outdated. -/
private def halfUpdated : List (WorkloadStep StatefulSet (WatchEvent PersistentVolumeClaim) Unit) :=
  [.podEvent (.apply (databasePod "db-0" "old" true)), .podEvent (.apply (databasePod "db-1" "old" true)),
    .podEvent (.apply (databasePod "db-2" (computeTemplateHash [1]) false)), .ownEvent (.apply database)]

theorem not_sequential_halfUpdated :
    ¬ EveryStep controller.step (Judged Sequential) controller.new (halfUpdated ++ [.pop ()]) := by
  intro every
  have last := (everyStep_append.mp every).2.1 "default/db" database .empty rfl "u" _ rfl rfl
  have down := last.update 1 (by decide) ⟨databasePod "db-1" "old" true, by decide +kernel, by decide +kernel⟩
    ⟨databasePod "db-1" "old" true, by decide +kernel, by decide +kernel⟩ 2 (by decide) (by decide)
  rcases down with ⟨pod, found, -, ready⟩
  have isPod : (lineup database "u" (run controller.step controller.new halfUpdated).pods).byOrdinal.get 2 =
      some (databasePod "db-2" (computeTemplateHash [1]) false) := by decide +kernel
  rw [isPod] at found
  cases found
  exact absurd ready (by decide)

end StatefulSets
end NotK8s.Controllers
