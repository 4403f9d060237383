import Mathlib.Data.Finset.Sort
import Mathlib.Data.String.Basic
import NotK8s.Library.Run
import NotK8s.Library.Tally

namespace NotK8s.Nodelet

open Library

/-!
# The CPU and the memory manager

Which CPUs and which bytes of a NUMA node are given to one container alone.
A container that asks again keeps what it has while it is served, and then
has the new claim in its place.
-/

/-- The keys of the containers of a sandbox. -/
def underSandbox (sandboxId key : String) : Bool :=
  (sandboxId ++ "/").toList.isPrefixOf key.toList

/-! ## CPUs -/

structure CpuManager where
  totalCpus : Finset Nat
  reserved : Finset Nat
  exclusive : SortedMap String (Finset Nat)

/-- Whole cores, rounded up, in 32 bits. -/
def reservedCpuCount (reservedMillicores : Nat) : Nat :=
  (reservedMillicores + 999) / 1000 % 2 ^ 32

namespace CpuManager

def new (totalCores reservedMillicores : Nat) : CpuManager where
  totalCpus := Finset.range (totalCores % 2 ^ 32)
  reserved := Finset.range (min (reservedCpuCount reservedMillicores) (totalCores % 2 ^ 32))
  exclusive := .empty

variable (m : CpuManager)

def allExclusive : Finset Nat :=
  m.exclusive.entries.foldr (fun entry claimed => entry.2 ∪ claimed) ∅

def allocatableCpus : Finset Nat :=
  m.totalCpus \ m.reserved

def sharedPool : Finset Nat :=
  m.allocatableCpus.filter fun c => c ∉ m.allExclusive

/-- Take CPUs until there are `count`. -/
def topUp (count : Nat) : Finset Nat -> List Nat -> Finset Nat
  | picked, [] => picked
  | picked, cpu :: rest => if picked.card ≥ count then picked else topUp count (insert cpu picked) rest

/-- The preferred CPUs first, then the lowest of the pool. -/
def allocatePreferring (key : String) (count : Nat) (preferred : Option (Finset Nat)) : Option (Finset Nat) × CpuManager :=
  let free := m.sharedPool
  let picked :=
    match preferred with
    | some preferred => ((free ∩ preferred).sort.take count).toFinset
    | none => ∅
  let picked := topUp count picked free.sort
  if picked.card < count then (none, m) else (some picked, { m with exclusive := m.exclusive.insert key picked })

def allocate (key : String) (count : Nat) : Option (Finset Nat) × CpuManager :=
  m.allocatePreferring key count none

def release (key : String) : CpuManager :=
  { m with exclusive := m.exclusive.erase key }

def releaseSandbox (sandboxId : String) : CpuManager :=
  { m with exclusive := m.exclusive.filter fun key _ => !underSandbox sandboxId key }

end CpuManager

inductive CpuCall where
  | allocate (key : String) (count : Nat)
  | allocatePreferring (key : String) (count : Nat) (preferred : Option (Finset Nat))
  | release (key : String)
  | releaseSandbox (sandboxId : String)

/-- The manager, with the size of the last request that each container holds a
claim for. -/
structure CpuRun where
  manager : CpuManager
  requested : String -> Option Nat

namespace CpuRun

def serve (r : CpuRun) (key : String) (count : Nat) (preferred : Option (Finset Nat)) : CpuRun :=
  match r.manager.allocatePreferring key count preferred with
  | (some _, manager) => ⟨manager, fun other => if other = key then some count else r.requested other⟩
  | (none, manager) => { r with manager := manager }

def step (r : CpuRun) : CpuCall -> CpuRun
  | .allocate key count => r.serve key count none
  | .allocatePreferring key count preferred => r.serve key count preferred
  | .release key => ⟨r.manager.release key, fun other => if other = key then none else r.requested other⟩
  | .releaseSandbox sandboxId =>
    ⟨r.manager.releaseSandbox sandboxId, fun other => if underSandbox sandboxId other then none else r.requested other⟩

def start (totalCores reservedMillicores : Nat) : CpuRun :=
  ⟨.new totalCores reservedMillicores, fun _ => none⟩

/-- The exclusive sets and the pool split up what can be allocated. -/
structure Partitioned (r : CpuRun) : Prop where
  sized : forall key, (r.manager.exclusive.get key).map Finset.card = r.requested key
  apart : forall key other cpus others, key ≠ other -> r.manager.exclusive.get key = some cpus ->
    r.manager.exclusive.get other = some others -> Disjoint cpus others
  unreserved : forall key cpus, r.manager.exclusive.get key = some cpus -> Disjoint cpus r.manager.reserved
  disjoint : Disjoint r.manager.sharedPool r.manager.allExclusive
  whole : r.manager.sharedPool ∪ r.manager.allExclusive = r.manager.allocatableCpus

end CpuRun

namespace CpuManager

/-- What one request is answered with, whatever the manager holds. -/
structure Answered (m : CpuManager) (key : String) (count : Nat) (preferred : Option (Finset Nat)) : Prop where
  enough : count ≤ m.sharedPool.card -> (m.allocatePreferring key count preferred).1.isSome
  refused : (m.allocatePreferring key count preferred).1 = none -> (m.allocatePreferring key count preferred).2 = m
  taken : forall picked, (m.allocatePreferring key count preferred).1 = some picked ->
    picked.card = count ∧ picked ⊆ m.sharedPool ∧
      (m.allocatePreferring key count preferred).2 = { m with exclusive := m.exclusive.insert key picked } ∧
      forall cpus, preferred = some cpus -> picked ⊆ cpus ∨ m.sharedPool ∩ cpus ⊆ picked

/-- Every request of a run is answered so. -/
def Serves (r : CpuRun) : CpuCall -> Prop
  | .allocate key count => r.manager.Answered key count none
  | .allocatePreferring key count preferred => r.manager.Answered key count preferred
  | .release _ | .releaseSandbox _ => True

variable {m : CpuManager} {key other : String} {count c : Nat} {preferred : Option (Finset Nat)} {picked cpus : Finset Nat}
  {rest : List Nat}

theorem mem_allExclusive : c ∈ m.allExclusive <-> Exists fun key => Exists fun cpus => m.exclusive.get key = some cpus ∧ c ∈ cpus := by
  have union (entries : List (String × Finset Nat)) : c ∈ entries.foldr (fun entry claimed => entry.2 ∪ claimed) ∅ <->
      Exists fun entry => entry ∈ entries ∧ c ∈ entry.2 := by
    induction entries with
    | nil => simp
    | cons entry entries ih => simp [ih]
  simp only [allExclusive, union, Prod.exists, SortedMap.mem_entries]

theorem topUp_spec (few : picked.card ≤ count) : picked ⊆ topUp count picked rest ∧
    topUp count picked rest ⊆ picked ∪ rest.toFinset ∧ (topUp count picked rest).card ≤ count ∧
    ((topUp count picked rest).card < count -> rest.toFinset ⊆ topUp count picked rest) ∧
    (picked.card = count -> topUp count picked rest = picked) := by
  induction rest generalizing picked with
  | nil => simp [topUp, few]
  | cons cpu rest ih =>
    rw [topUp]
    split_ifs with full
    · exact ⟨subset_rfl, Finset.subset_union_left, few, fun less => by omega, fun _ => rfl⟩
    · have grown : (insert cpu picked).card ≤ count := (Finset.card_insert_le cpu picked).trans (by omega)
      rcases ih grown with ⟨kept, within, small, all, -⟩
      refine ⟨(Finset.subset_insert cpu picked).trans kept, ?_, small, ?_, fun same => by omega⟩
      · refine within.trans ?_
        intro c
        simp only [Finset.mem_union, Finset.mem_insert, List.toFinset_cons]
        tauto
      · intro less
        rw [List.toFinset_cons, Finset.insert_subset_iff]
        exact ⟨kept (Finset.mem_insert_self cpu picked), all less⟩

theorem answered : m.Answered key count preferred := by
  let first : Finset Nat :=
    match preferred with
    | some preferred => ((m.sharedPool ∩ preferred).sort.take count).toFinset
    | none => ∅
  have pool : m.sharedPool.sort.toFinset = m.sharedPool := Finset.sort_toFinset _ _
  have known : first ⊆ m.sharedPool ∧ first.card ≤ count ∧
      forall cpus, preferred = some cpus -> first ⊆ cpus ∧ (first.card = count ∨ m.sharedPool ∩ cpus ⊆ first) := by
    unfold first
    cases preferred with
    | none => simp
    | some cpus =>
      have drawn : ((m.sharedPool ∩ cpus).sort.take count).toFinset ⊆ m.sharedPool ∩ cpus := fun c taken =>
        (Finset.mem_sort _).mp (List.mem_of_mem_take (List.mem_toFinset.mp taken))
      have size : ((m.sharedPool ∩ cpus).sort.take count).toFinset.card = min count (m.sharedPool ∩ cpus).card := by
        rw [List.toFinset_card_of_nodup ((Finset.sort_nodup _ _).sublist (List.take_sublist _ _)), List.length_take,
          Finset.length_sort]
      dsimp only
      refine ⟨drawn.trans Finset.inter_subset_left, by omega, ?_⟩
      rintro _ ⟨⟩
      refine ⟨drawn.trans Finset.inter_subset_right, ?_⟩
      by_cases full : count ≤ (m.sharedPool ∩ cpus).card
      · exact Or.inl (by omega)
      · exact Or.inr (Finset.eq_of_subset_of_card_le drawn (by omega)).ge
  rcases known with ⟨inside, few, prefers⟩
  rcases @topUp_spec count first m.sharedPool.sort few with ⟨kept, within, small, all, exactly⟩
  rw [pool] at within all
  have answer : m.allocatePreferring key count preferred =
      if (topUp count first m.sharedPool.sort).card < count then (none, m)
      else (some (topUp count first m.sharedPool.sort),
        { m with exclusive := m.exclusive.insert key (topUp count first m.sharedPool.sort) }) := rfl
  generalize topUp count first m.sharedPool.sort = result at *
  have drawn : result ⊆ m.sharedPool := within.trans (Finset.union_subset inside subset_rfl)
  by_cases less : result.card < count
  · rw [if_pos less] at answer
    have short : m.sharedPool.card < count := (Finset.card_le_card (all less)).trans_lt less
    exact ⟨fun enough => by omega, fun _ => by rw [answer], fun picked found => by simp [answer] at found⟩
  · rw [if_neg less] at answer
    refine ⟨fun _ => by simp [answer], fun none => by simp [answer] at none, ?_⟩
    intro picked found
    rw [answer] at found ⊢
    obtain rfl := Option.some.inj found
    refine ⟨by omega, drawn, rfl, ?_⟩
    intro cpus same
    rcases prefers cpus same with ⟨onlyThem, full | everyOne⟩
    · exact Or.inl (exactly full ▸ onlyThem)
    · exact Or.inr (everyOne.trans kept)

theorem mem_sharedPool : c ∈ m.sharedPool <-> c ∈ m.allocatableCpus ∧ c ∉ m.allExclusive :=
  Finset.mem_filter

end CpuManager

namespace CpuRun
open CpuManager

variable {r : CpuRun} {key : String} {count : Nat} {preferred : Option (Finset Nat)}

theorem Partitioned.of_claims (sized : forall key, (r.manager.exclusive.get key).map Finset.card = r.requested key)
    (apart : forall key other cpus others, key ≠ other -> r.manager.exclusive.get key = some cpus ->
      r.manager.exclusive.get other = some others -> Disjoint cpus others)
    (inside : forall key cpus, r.manager.exclusive.get key = some cpus -> cpus ⊆ r.manager.allocatableCpus) :
    r.Partitioned where
  sized := sized
  apart := apart
  unreserved key cpus held := Finset.disjoint_of_subset_left (inside key cpus held) Finset.sdiff_disjoint
  disjoint := Finset.disjoint_left.mpr fun _ shared => (mem_sharedPool.mp shared).2
  whole := by
    ext c
    rw [Finset.mem_union, mem_sharedPool]
    constructor
    · rintro (⟨allocatable, -⟩ | claimed)
      · exact allocatable
      · rcases mem_allExclusive.mp claimed with ⟨key, cpus, held, member⟩
        exact inside key cpus held member
    · intro allocatable
      tauto

theorem Partitioned.inside (p : r.Partitioned) {cpus : Finset Nat} (held : r.manager.exclusive.get key = some cpus) :
    cpus ⊆ r.manager.allocatableCpus := fun c member => by
  rw [← p.whole, Finset.mem_union, mem_allExclusive]
  exact Or.inr ⟨key, cpus, held, member⟩

theorem Partitioned.shrink {exclusive : SortedMap String (Finset Nat)} {requested : String -> Option Nat} (p : r.Partitioned)
    (fewer : forall key, exclusive.get key = none ∧ requested key = none ∨
      exclusive.get key = r.manager.exclusive.get key ∧ requested key = r.requested key) :
    Partitioned ⟨{ r.manager with exclusive := exclusive }, requested⟩ := by
  have held {key : String} {cpus : Finset Nat} (found : exclusive.get key = some cpus) :
      r.manager.exclusive.get key = some cpus := by
    rcases fewer key with ⟨gone, -⟩ | ⟨same, -⟩
    · simp [gone] at found
    · rw [← same, found]
  refine .of_claims ?_ ?_ ?_
  · intro key
    rcases fewer key with ⟨gone, free⟩ | ⟨same, kept⟩
    · simp [gone, free]
    · simp [same, kept, p.sized]
  · exact fun key other cpus others different one two => p.apart key other cpus others different (held one) (held two)
  · exact fun key cpus found => p.inside (held found)

theorem Partitioned.serve (p : r.Partitioned) : (r.serve key count preferred).Partitioned := by
  have a : r.manager.Answered key count preferred := answered
  unfold CpuRun.serve
  rcases answer : r.manager.allocatePreferring key count preferred with ⟨_ | picked, manager⟩
  · have same := a.refused (by rw [answer])
    rw [answer] at same
    rwa [show manager = r.manager from same]
  · rcases a.taken picked (by rw [answer]) with ⟨size, drawn, next, -⟩
    rw [answer] at next
    rw [show manager = { r.manager with exclusive := r.manager.exclusive.insert key picked } from next]
    have fresh {other : String} {cpus : Finset Nat} (held : r.manager.exclusive.get other = some cpus) : Disjoint picked cpus :=
      Finset.disjoint_left.mpr fun c mine theirs =>
        (mem_sharedPool.mp (drawn mine)).2 (mem_allExclusive.mpr ⟨other, cpus, held, theirs⟩)
    refine .of_claims ?_ ?_ ?_
    · intro other
      dsimp only
      rw [SortedMap.get_insert]
      split_ifs
      · exact congrArg some size
      · exact p.sized other
    · intro one two cpus others different first second
      dsimp only at first second
      rw [SortedMap.get_insert] at first second
      split_ifs at first second with mine theirs theirs
      · exact absurd (mine.trans theirs.symm) different
      · exact Option.some.inj first ▸ fresh second
      · exact Option.some.inj second ▸ (fresh first).symm
      · exact p.apart one two cpus others different first second
    · intro other cpus held
      dsimp only at held
      rw [SortedMap.get_insert] at held
      split_ifs at held
      · exact Option.some.inj held ▸ fun c member => (mem_sharedPool.mp (drawn member)).1
      · exact p.inside held

theorem Partitioned.step (p : r.Partitioned) (call : CpuCall) : (r.step call).Partitioned := by
  cases call with
  | allocate | allocatePreferring => exact p.serve
  | release key =>
    refine p.shrink fun other => ?_
    rw [SortedMap.get_erase]
    split_ifs
    · exact Or.inl ⟨rfl, rfl⟩
    · exact Or.inr ⟨rfl, rfl⟩
  | releaseSandbox sandboxId =>
    refine p.shrink fun other => ?_
    rw [SortedMap.get_filter]
    cases underSandbox sandboxId other <;> cases r.manager.exclusive.get other <;> simp

theorem partitioned_start (totalCores reservedMillicores : Nat) : (start totalCores reservedMillicores).Partitioned :=
  .of_claims (fun _ => rfl) nofun nofun

end CpuRun

/-! ## Memory -/

/-- What 64 bits hold. -/
abbrev Bytes :=
  Fin (2 ^ 64)

structure MemoryManager where
  capacity : SortedMap Nat Bytes
  pinned : SortedMap String (Nat × Bytes)

inductive MemoryCall where
  | allocate (key : String) (bytes : Bytes)
  | allocatePreferring (key : String) (bytes : Bytes) (preferred : Option Nat)
  | release (key : String)
  | releaseSandbox (sandboxId : String)

namespace MemoryManager
variable (m : MemoryManager)

/-- The bytes in use on a node, added up in 64 bits. -/
def usedOn (node : Nat) : Nat :=
  m.pinned.entries.foldl (fun used entry => if entry.2.1 = node then (used + entry.2.2.val) % 2 ^ 64 else used) 0

def capacityOf (node : Nat) : Nat :=
  (m.capacity.get node).elim 0 Fin.val

def free (node : Nat) : Nat :=
  m.capacityOf node - m.usedOn node

/-- The preferred node, or else the lowest, with room for all the bytes. -/
def choose (bytes : Bytes) (preferred : Option Nat) : Option Nat :=
  match preferred.filter fun node => bytes.val ≤ m.free node with
  | some node => some node
  | none => (m.capacity.entries.map Prod.fst).find? fun node => bytes.val ≤ m.free node

def allocatePreferring (key : String) (bytes : Bytes) (preferred : Option Nat) : Option Nat × MemoryManager :=
  match m.choose bytes preferred with
  | some chosen => (some chosen, { m with pinned := m.pinned.insert key (chosen, bytes) })
  | none => (none, m)

def allocate (key : String) (bytes : Bytes) : Option Nat × MemoryManager :=
  m.allocatePreferring key bytes none

def release (key : String) : MemoryManager :=
  { m with pinned := m.pinned.erase key }

def releaseSandbox (sandboxId : String) : MemoryManager :=
  { m with pinned := m.pinned.filter fun key _ => !underSandbox sandboxId key }

def step : MemoryCall -> MemoryManager
  | .allocate key bytes => (m.allocate key bytes).2
  | .allocatePreferring key bytes preferred => (m.allocatePreferring key bytes preferred).2
  | .release key => m.release key
  | .releaseSandbox sandboxId => m.releaseSandbox sandboxId

/-- The bytes of the containers with a claim on a node. -/
def claimedOn (node : Nat) : Nat :=
  tally (fun _ claim => if claim.1 = node then claim.2.val else 0) m.pinned

/-- No node is claimed beyond its capacity, and the sums do not wrap around. -/
structure Within (capacity : SortedMap Nat Bytes) (m : MemoryManager) : Prop where
  installed : m.capacity = capacity
  bounded : forall node, m.claimedOn node ≤ m.capacityOf node
  exactly : forall node, m.usedOn node = m.claimedOn node

structure Answered (m : MemoryManager) (key : String) (bytes : Bytes) (preferred : Option Nat) : Prop where
  enough : (Exists fun node => (m.capacity.get node).isSome ∧ bytes.val ≤ m.free node) ->
    (m.allocatePreferring key bytes preferred).1.isSome
  refused : (m.allocatePreferring key bytes preferred).1 = none -> (m.allocatePreferring key bytes preferred).2 = m
  prefers : forall node, preferred = some node -> bytes.val ≤ m.free node ->
    (m.allocatePreferring key bytes preferred).1 = some node
  taken : forall node, (m.allocatePreferring key bytes preferred).1 = some node -> bytes.val ≤ m.free node ∧
    (m.allocatePreferring key bytes preferred).2 = { m with pinned := m.pinned.insert key (node, bytes) }

def Serves (m : MemoryManager) : MemoryCall -> Prop
  | .allocate key bytes => m.Answered key bytes none
  | .allocatePreferring key bytes preferred => m.Answered key bytes preferred
  | .release _ | .releaseSandbox _ => True

variable {m : MemoryManager} {key : String} {bytes : Bytes} {preferred : Option Nat} {capacity : SortedMap Nat Bytes}
  {node : Nat}

theorem usedOn_eq : m.usedOn node = m.claimedOn node % 2 ^ 64 := by
  have sums (entries : List (String × Nat × Bytes)) (used : Nat) (small : used < 2 ^ 64) :
      entries.foldl (fun used entry => if entry.2.1 = node then (used + entry.2.2.val) % 2 ^ 64 else used) used =
        (used + (entries.map fun entry => if entry.2.1 = node then entry.2.2.val else 0).sum) % 2 ^ 64 := by
    induction entries generalizing used with
    | nil => exact (Nat.mod_eq_of_lt small).symm
    | cons entry entries ih =>
      rw [List.foldl_cons, List.map_cons, List.sum_cons]
      split_ifs
      · rw [ih _ (Nat.mod_lt _ (Nat.two_pow_pos 64)), Nat.mod_add_mod, Nat.add_assoc]
      · rw [ih _ small, Nat.zero_add]
  refine (sums _ 0 (Nat.two_pow_pos 64)).trans ?_
  rw [Nat.zero_add]
  rfl

theorem capacityOf_lt : m.capacityOf node < 2 ^ 64 := by
  unfold capacityOf
  cases m.capacity.get node with
  | none => exact Nat.two_pow_pos 64
  | some cap => exact cap.isLt

theorem Within.of_bounded (installed : m.capacity = capacity) (bounded : forall node, m.claimedOn node ≤ m.capacityOf node) :
    m.Within capacity :=
  ⟨installed, bounded, fun node => usedOn_eq.trans (Nat.mod_eq_of_lt ((bounded node).trans_lt capacityOf_lt))⟩

theorem choose_some (chosen : m.choose bytes preferred = some node) : bytes.val ≤ m.free node := by
  unfold choose at chosen
  split at chosen
  · next found =>
    rw [← Option.some.inj chosen]
    exact of_decide_eq_true (Option.filter_eq_some_iff.mp found).2
  · have room := List.find?_some chosen
    exact of_decide_eq_true room

theorem answered : m.Answered key bytes preferred where
  enough := by
    rintro ⟨node, installed, room⟩
    have chosen : (m.choose bytes preferred).isSome := by
      unfold choose
      split
      · rfl
      · rcases Option.isSome_iff_exists.mp installed with ⟨cap, found⟩
        have listed := @List.mem_map_of_mem _ _ _ _ Prod.fst (SortedMap.mem_entries.mpr found)
        exact List.find?_isSome.mpr ⟨node, listed, decide_eq_true room⟩
    rcases Option.isSome_iff_exists.mp chosen with ⟨chosen, found⟩
    simp [allocatePreferring, found]
  refused := by
    unfold allocatePreferring
    split
    · nofun
    · exact fun _ => rfl
  prefers node asked room := by
    have chosen : m.choose bytes preferred = some node := by simp [choose, asked, Option.filter, room]
    simp [allocatePreferring, chosen]
  taken node found := by
    unfold allocatePreferring at found ⊢
    cases chosen : m.choose bytes preferred with
    | none => simp [chosen] at found
    | some other =>
      rw [chosen] at found
      obtain rfl := Option.some.inj found
      exact ⟨choose_some chosen, rfl⟩

theorem Within.shrink {pinned : SortedMap String (Nat × Bytes)} (w : m.Within capacity)
    (fewer : forall key, pinned.get key = none ∨ pinned.get key = m.pinned.get key) :
    Within capacity { m with pinned := pinned } := by
  refine .of_bounded w.installed fun node => le_trans (tally_le fun key => ?_) (w.bounded node)
  unfold amountAt
  rcases fewer key with gone | same
  · simp [gone]
  · rw [same]

theorem Within.allocate (w : m.Within capacity) : (m.allocatePreferring key bytes preferred).2.Within capacity := by
  have a : m.Answered key bytes preferred := answered
  cases answer : (m.allocatePreferring key bytes preferred).1 with
  | none => rwa [a.refused answer]
  | some chosen =>
    rcases a.taken chosen answer with ⟨room, next⟩
    rw [next]
    refine .of_bounded w.installed fun node => ?_
    have others : tally (fun _ (claim : Nat × Bytes) => if claim.1 = node then claim.2.val else 0) (m.pinned.erase key) ≤
        m.claimedOn node := tally_le fun other => by
      rw [amountAt_erase]
      split_ifs <;> simp
    have bound := w.bounded node
    have summed : claimedOn { m with pinned := m.pinned.insert key (chosen, bytes) } node =
        (if chosen = node then bytes.val else 0) +
          tally (fun _ (claim : Nat × Bytes) => if claim.1 = node then claim.2.val else 0) (m.pinned.erase key) :=
      (SortedMap.insert_perm_erase.map _).sum_eq.trans (by rw [List.map_cons, List.sum_cons]; rfl)
    rw [summed]
    change _ ≤ m.capacityOf node
    split_ifs with same
    · rw [← same] at others bound ⊢
      rw [free, w.exactly] at room
      omega
    · omega

theorem Within.step (w : m.Within capacity) (call : MemoryCall) : (m.step call).Within capacity := by
  cases call with
  | allocate | allocatePreferring => exact w.allocate
  | release key =>
    refine w.shrink fun other => ?_
    rw [SortedMap.get_erase]
    split_ifs
    · exact Or.inl rfl
    · exact Or.inr rfl
  | releaseSandbox sandboxId =>
    refine w.shrink fun other => ?_
    rw [SortedMap.get_filter]
    cases underSandbox sandboxId other <;> cases m.pinned.get other <;> simp

end MemoryManager

end NotK8s.Nodelet
