import Mathlib.Data.String.Basic
import NotK8s.Library.Run
import NotK8s.Library.SortedMap

namespace NotK8s.Nodelet

open Library

/-!
# Ranges of user-namespace ids

Every pod that asks gets a slot, and with it a range of ids of the host.  The
slots are kept in memory and in one file each, from which a new process takes
them up again.
-/

structure ClaimMeta where
  podUid : String
  slot : Nat
  deriving DecidableEq

/-- The files, each with the claim in it if it can be read. -/
abbrev Checkpoints :=
  SortedMap String (Option ClaimMeta)

def checkpointPath (key : String) : String :=
  String.ofList (key.toList.map fun c => if c = '/' then '_' else c) ++ ".json"

/-- The claims of the files, in the order in which the directory lists them. -/
def restoreClaims (maxSlots : Nat) (entries : List (String × Option ClaimMeta)) : SortedMap String Nat :=
  .ofList (entries.filterMap fun entry =>
    (entry.2.filter fun claim => claim.slot < maxSlots).map fun claim => (claim.podUid, claim.slot))

structure UsernsAllocator where
  baseUid : Nat
  length : Nat
  maxSlots : Nat
  claims : SortedMap String Nat

namespace UsernsAllocator

def new (baseUid length maxSlots : Nat) (entries : List (String × Option ClaimMeta)) : UsernsAllocator where
  baseUid := baseUid
  length := length
  maxSlots := maxSlots
  claims := restoreClaims maxSlots entries

variable (a : UsernsAllocator)

/-- The range of a slot, with sums and products in 32 bits. -/
def range (slot : Nat) : Nat × Nat :=
  ((a.baseUid + slot * a.length) % 2 ^ 32, a.length)

def firstFree : Option Nat :=
  (List.range a.maxSlots).find? fun slot => !(a.claims.entries.map Prod.snd).contains slot

def assigned (key : String) : Option (Nat × Nat) :=
  (a.claims.get key).map a.range

end UsernsAllocator

/-- The allocator of the process and what is on the disk. -/
structure Userns where
  allocator : UsernsAllocator
  disk : Checkpoints

/-- A call, with what becomes of the file, or a new process and the order in
which it reads the directory. -/
inductive UsernsEvent where
  | allocate (key : String) (written : Bool)
  | release (key : String) (removed : Bool)
  | restart (entries : List (String × Option ClaimMeta))

namespace Userns

def start (baseUid length maxSlots : Nat) (disk : Checkpoints) (entries : List (String × Option ClaimMeta)) : Userns :=
  ⟨.new baseUid length maxSlots entries, disk⟩

def allocate (u : Userns) (key : String) (written : Bool) : Option (Nat × Nat) × Userns :=
  match u.allocator.claims.get key with
  | some slot => (some (u.allocator.range slot), u)
  | none =>
    match u.allocator.firstFree with
    | none => (none, u)
    | some slot =>
      (some (u.allocator.range slot),
        { allocator := { u.allocator with claims := u.allocator.claims.insert key slot }
          disk := if written then u.disk.insert (checkpointPath key) (some ⟨key, slot⟩) else u.disk })

def release (u : Userns) (key : String) (removed : Bool) : Userns where
  allocator := { u.allocator with claims := u.allocator.claims.erase key }
  disk := if removed then u.disk.erase (checkpointPath key) else u.disk

def step (u : Userns) : UsernsEvent -> Userns
  | .allocate key written => (u.allocate key written).2
  | .release key removed => u.release key removed
  | .restart entries => start u.allocator.baseUid u.allocator.length u.allocator.maxSlots u.disk entries

/-- No two pods share an id, and no range wraps around. -/
structure Isolated (u : Userns) : Prop where
  apart : forall key other first second, key ≠ other -> u.allocator.assigned key = some first ->
    u.allocator.assigned other = some second -> first.1 + first.2 ≤ second.1 ∨ second.1 + second.2 ≤ first.1
  within : forall key range, u.allocator.assigned key = some range ->
    u.allocator.baseUid ≤ range.1 ∧ range.1 + range.2 ≤ 2 ^ 32

/-- Whoever has a range keeps it until it is released, and is given it again. -/
def Steady (u : Userns) (event : UsernsEvent) : Prop :=
  (forall key written range, event = .allocate key written -> u.allocator.assigned key = some range ->
    (u.allocate key written).1 = some range) ∧
  forall key range, u.allocator.assigned key = some range -> (forall removed, event ≠ .release key removed) ->
    (u.step event).allocator.assigned key = some range

/-- The directory at the start: every claim that counts is in the file named
for its pod, and no two have one slot. -/
structure Clean (maxSlots : Nat) (disk : Checkpoints) : Prop where
  named : forall name claim, disk.get name = some (some claim) -> claim.slot < maxSlots ->
    name = checkpointPath claim.podUid ∧ '/' ∉ claim.podUid.toList
  single : forall name other claim others, disk.get name = some (some claim) -> disk.get other = some (some others) ->
    claim.slot < maxSlots -> claim.slot = others.slot -> name = other

/-- No pod's name has a slash, and what is to be written or removed is. -/
def Orderly (u : Userns) : UsernsEvent -> Prop
  | .allocate key written => '/' ∉ key.toList ∧ written = true
  | .release key removed => '/' ∉ key.toList ∧ removed = true
  | .restart entries => entries.Perm u.disk.entries

/-- The slots are the pods' own, and the files say the same as the memory. -/
structure Sound (u : Userns) : Prop where
  filled : 0 < u.allocator.length
  fits : u.allocator.baseUid + u.allocator.maxSlots * u.allocator.length ≤ 2 ^ 32
  apart : forall key other slot, u.allocator.claims.get key = some slot -> u.allocator.claims.get other = some slot ->
    key = other
  small : forall key slot, u.allocator.claims.get key = some slot -> slot < u.allocator.maxSlots
  plain : forall key slot, u.allocator.claims.get key = some slot -> '/' ∉ key.toList
  filed : forall key slot, u.allocator.claims.get key = some slot ->
    u.disk.get (checkpointPath key) = some (some ⟨key, slot⟩)
  known : forall name claim, u.disk.get name = some (some claim) -> claim.slot < u.allocator.maxSlots ->
    name = checkpointPath claim.podUid ∧ u.allocator.claims.get claim.podUid = some claim.slot

variable {u : Userns} {key other : String} {slot maxSlots baseUid length : Nat} {disk : Checkpoints}
  {entries : List (String × Option ClaimMeta)} {event : UsernsEvent}

theorem checkpointPath_inj (plain : '/' ∉ key.toList) (also : '/' ∉ other.toList)
    (same : checkpointPath key = checkpointPath other) : key = other := by
  have text {name : String} (plain : '/' ∉ name.toList) : (checkpointPath name).toList = name.toList ++ ".json".toList := by
    have kept : (name.toList.map fun c => if c = '/' then '_' else c) = name.toList :=
      (List.map_congr_left fun c listed => if_neg fun slash : c = '/' => plain (slash ▸ listed)).trans (List.map_id _)
    rw [checkpointPath, kept, String.ofList_toList, String.toList_append]
  have texts := congrArg String.toList same
  rw [text plain, text also] at texts
  exact String.toList_injective (List.append_cancel_right texts)

theorem get_restoreClaims (perm : entries.Perm disk.entries)
    (named : forall name claim, disk.get name = some (some claim) -> claim.slot < maxSlots ->
      name = checkpointPath claim.podUid) :
    (restoreClaims maxSlots entries).get key = some slot <->
      slot < maxSlots ∧ disk.get (checkpointPath key) = some (some ⟨key, slot⟩) := by
  have listed (name : String) (claim : ClaimMeta) : (name, some claim) ∈ entries <-> disk.get name = some (some claim) :=
    perm.mem_iff.trans SortedMap.mem_entries
  have distinct : ((entries.filterMap fun entry => (entry.2.filter fun claim => claim.slot < maxSlots).map fun claim =>
      (claim.podUid, claim.slot)).map Prod.fst).Nodup := by
    have names : entries.Pairwise fun entry other => entry.1 ≠ other.1 :=
      (perm.pairwise_iff fun different => different.symm).mpr (disk.sorted.imp ne_of_lt)
    have counted {entry : String × Option ClaimMeta} {claim : String × Nat} (member : entry ∈ entries)
        (found : ((entry.2.filter fun claim => claim.slot < maxSlots).map fun claim => (claim.podUid, claim.slot)) = some claim) :
        entry.1 = checkpointPath claim.1 := by
      rcases Option.map_eq_some_iff.mp found with ⟨held, counts, rfl⟩
      rcases Option.filter_eq_some_iff.mp counts with ⟨content, counts⟩
      exact named _ _ ((listed entry.1 held).mp (content ▸ member)) (of_decide_eq_true counts)
    rw [List.Nodup, List.pairwise_map, List.pairwise_filterMap]
    refine names.imp_of_mem fun one two different claim first other second same => different ?_
    rw [counted one first, counted two second, same]
  rw [restoreClaims, SortedMap.get_ofList distinct, List.mem_filterMap]
  constructor
  · rintro ⟨⟨name, content⟩, member, found⟩
    rcases Option.map_eq_some_iff.mp found with ⟨claim, counted, same⟩
    rcases Option.filter_eq_some_iff.mp counted with ⟨rfl, counts⟩
    obtain ⟨rfl, rfl⟩ := Prod.mk.inj same
    have held := (listed name claim).mp member
    have counts := of_decide_eq_true counts
    exact ⟨counts, named name claim held counts ▸ held⟩
  · rintro ⟨counts, held⟩
    exact ⟨_, (listed _ _).mpr held, by simp [Option.filter, counts]⟩

theorem firstFree_some (found : u.allocator.firstFree = some slot) :
    slot < u.allocator.maxSlots ∧ forall key, u.allocator.claims.get key ≠ some slot := by
  refine ⟨List.mem_range.mp (List.mem_of_find?_eq_some found), fun key held => ?_⟩
  have free := List.find?_some found
  have listed := List.mem_map_of_mem (f := Prod.snd) (SortedMap.mem_entries.mpr held)
  simp_all

theorem sound_start (filled : 0 < length) (fits : baseUid + maxSlots * length ≤ 2 ^ 32) (clean : Clean maxSlots disk)
    (perm : entries.Perm disk.entries) : (start baseUid length maxSlots disk entries).Sound := by
  have restored (key : String) (slot : Nat) := @get_restoreClaims key slot maxSlots disk entries perm
    fun name claim held counts => (clean.named name claim held counts).1
  refine ⟨filled, fits, ?_, ?_, ?_, ?_, ?_⟩
  · intro key other slot one two
    rcases (restored key slot).mp one with ⟨counts, held⟩
    rcases (restored other slot).mp two with ⟨_, also⟩
    have plain := (clean.named _ _ held counts).2
    have plainToo := (clean.named _ _ also counts).2
    exact checkpointPath_inj plain plainToo (clean.single _ _ _ _ held also counts rfl)
  · exact fun key slot found => ((restored key slot).mp found).1
  · intro key slot found
    rcases (restored key slot).mp found with ⟨counts, held⟩
    exact (clean.named _ _ held counts).2
  · exact fun key slot found => ((restored key slot).mp found).2
  · intro name claim held counts
    have path := (clean.named name claim held counts).1
    exact ⟨path, (restored _ _).mpr ⟨counts, path ▸ held⟩⟩

theorem Sound.restart (s : u.Sound) (perm : entries.Perm u.disk.entries) : u.step (.restart entries) = u := by
  have same : restoreClaims u.allocator.maxSlots entries = u.allocator.claims := by
    refine SortedMap.ext_get fun key => Option.ext fun slot => ?_
    rw [get_restoreClaims perm fun name claim held counts => (s.known name claim held counts).1]
    exact ⟨fun found => (s.known _ _ found.2 found.1).2, fun held => ⟨s.small key slot held, s.filed key slot held⟩⟩
  rw [step, start, UsernsAllocator.new, same]

theorem Sound.take (s : u.Sound) (plain : '/' ∉ key.toList) (free : u.allocator.claims.get key = none)
    (found : u.allocator.firstFree = some slot) :
    Sound ⟨{ u.allocator with claims := u.allocator.claims.insert key slot },
      u.disk.insert (checkpointPath key) (some ⟨key, slot⟩)⟩ := by
  rcases firstFree_some found with ⟨small, unused⟩
  have path {other : String} (held : u.allocator.claims.get other ≠ none) (plainToo : '/' ∉ other.toList) :
      checkpointPath other ≠ checkpointPath key := fun same =>
    held (checkpointPath_inj plainToo plain same ▸ free)
  refine ⟨s.filled, s.fits, ?_, ?_, ?_, ?_, ?_⟩
  · intro one two taken first second
    dsimp only at first second
    rw [SortedMap.get_insert] at first second
    split_ifs at first second with mine theirs theirs
    · exact mine.trans theirs.symm
    · exact absurd (Option.some.inj first ▸ second) (unused two)
    · exact absurd (Option.some.inj second ▸ first) (unused one)
    · exact s.apart one two taken first second
  · intro other taken held
    dsimp only at held
    rw [SortedMap.get_insert] at held
    split_ifs at held
    · exact Option.some.inj held ▸ small
    · exact s.small other taken held
  · intro other taken held
    dsimp only at held
    rw [SortedMap.get_insert] at held
    split_ifs at held with same
    · exact same ▸ plain
    · exact s.plain other taken held
  · intro other taken held
    dsimp only at held ⊢
    rw [SortedMap.get_insert] at held ⊢
    split_ifs at held with same
    · rw [if_pos (by rw [same]), same, Option.some.inj held]
    · rw [if_neg (path (by simp [held]) (s.plain other taken held))]
      exact s.filed other taken held
  · intro name claim held counts
    dsimp only at held ⊢
    rw [SortedMap.get_insert] at held ⊢
    split_ifs at held with same
    · obtain rfl := Option.some.inj (Option.some.inj held)
      exact ⟨same, if_pos rfl⟩
    · rcases s.known name claim held counts with ⟨named, taken⟩
      exact ⟨named, (if_neg fun mine => same (named.trans (congrArg checkpointPath mine))).trans taken⟩

theorem Sound.release (s : u.Sound) (plain : '/' ∉ key.toList) : (u.release key true).Sound := by
  have kept {other : String} {taken : Nat} (held : (u.allocator.claims.erase key).get other = some taken) :
      other ≠ key ∧ u.allocator.claims.get other = some taken := by
    rw [SortedMap.get_erase] at held
    split_ifs at held with same
    exact ⟨same, held⟩
  refine ⟨s.filled, s.fits, ?_, ?_, ?_, ?_, ?_⟩
  · exact fun one two taken first second => s.apart one two taken (kept first).2 (kept second).2
  · exact fun other taken held => s.small other taken (kept held).2
  · exact fun other taken held => s.plain other taken (kept held).2
  · intro other taken held
    rcases kept held with ⟨different, before⟩
    have path := fun same => different (checkpointPath_inj (s.plain other taken before) plain same)
    exact SortedMap.get_erase.trans ((if_neg path).trans (s.filed other taken before))
  · intro name claim held counts
    replace held : (u.disk.erase (checkpointPath key)).get name = some (some claim) := held
    rw [SortedMap.get_erase] at held
    split_ifs at held with same
    rcases s.known name claim held counts with ⟨named, taken⟩
    exact ⟨named, SortedMap.get_erase.trans ((if_neg fun mine => same (named.trans (congrArg checkpointPath mine))).trans taken)⟩

theorem Sound.step (s : u.Sound) (orderly : u.Orderly event) : (u.step event).Sound := by
  cases event with
  | allocate key written =>
    rcases orderly with ⟨plain, rfl⟩
    cases held : u.allocator.claims.get key with
    | some slot => simpa only [Userns.step, Userns.allocate, held] using s
    | none =>
      cases found : u.allocator.firstFree with
      | none => simpa only [Userns.step, Userns.allocate, held, found] using s
      | some slot => simpa only [Userns.step, Userns.allocate, held, found, if_true] using s.take plain held found
  | release key removed =>
    rcases orderly with ⟨plain, rfl⟩
    exact s.release plain
  | restart entries =>
    rw [s.restart orderly]
    exact s

theorem Sound.ends (s : u.Sound) (small : slot < u.allocator.maxSlots) :
    u.allocator.baseUid + slot * u.allocator.length + u.allocator.length ≤ 2 ^ 32 := by
  have fits := s.fits
  have below := Nat.mul_le_mul_right u.allocator.length (Nat.succ_le_of_lt small)
  rw [Nat.succ_mul] at below
  omega

theorem Sound.isolated (s : u.Sound) : u.Isolated := by
  have known {key : String} {range : Nat × Nat} (held : u.allocator.assigned key = some range) :
      Exists fun slot => u.allocator.claims.get key = some slot ∧ slot < u.allocator.maxSlots ∧
        range = (u.allocator.baseUid + slot * u.allocator.length, u.allocator.length) := by
    rcases Option.map_eq_some_iff.mp held with ⟨slot, taken, rfl⟩
    have small := s.small key slot taken
    have ends := s.ends small
    have filled := s.filled
    exact ⟨slot, taken, small, by rw [UsernsAllocator.range, Nat.mod_eq_of_lt (by omega)]⟩
  constructor
  · intro key other first second different one two
    rcases known one with ⟨slot, taken, -, rfl⟩
    rcases known two with ⟨slot', taken', -, rfl⟩
    have apart : slot ≠ slot' := fun same => different (s.apart key other slot taken (same ▸ taken'))
    rcases Nat.lt_or_gt_of_ne apart with less | more
    · have below := Nat.mul_le_mul_right u.allocator.length (Nat.succ_le_of_lt less)
      rw [Nat.succ_mul] at below
      exact Or.inl (by dsimp only; omega)
    · have below := Nat.mul_le_mul_right u.allocator.length (Nat.succ_le_of_lt more)
      rw [Nat.succ_mul] at below
      exact Or.inr (by dsimp only; omega)
  · intro key range held
    rcases known held with ⟨slot, -, small, rfl⟩
    exact ⟨Nat.le_add_right _ _, s.ends small⟩

theorem Sound.steady (s : u.Sound) (orderly : u.Orderly event) : u.Steady event := by
  constructor
  · rintro key written range rfl held
    rcases Option.map_eq_some_iff.mp held with ⟨slot, taken, rfl⟩
    simp [Userns.allocate, taken]
  · intro key range held kept
    cases event with
    | allocate other written =>
      cases taken : u.allocator.claims.get other with
      | some slot => simpa only [Userns.step, Userns.allocate, taken] using held
      | none =>
        cases found : u.allocator.firstFree with
        | none => simpa only [Userns.step, Userns.allocate, taken, found] using held
        | some slot =>
          have different : key ≠ other := by
            rintro rfl
            simp [UsernsAllocator.assigned, taken] at held
          simp only [Userns.step, Userns.allocate, taken, found]
          exact (congrArg _ (SortedMap.get_insert.trans (if_neg different))).trans held
    | release other removed =>
      have different : key ≠ other := fun same => kept removed (same ▸ rfl)
      exact (congrArg _ (SortedMap.get_erase.trans (if_neg different))).trans held
    | restart entries =>
      rw [s.restart orderly]
      exact held

/-- Where the slots fit 32 bits and the files are in order, ranges stay apart,
and whoever has one keeps it, through any calls and new processes. -/
theorem ranges_isolated (filled : 0 < length) (fits : baseUid + maxSlots * length ≤ 2 ^ 32) (clean : Clean maxSlots disk)
    (perm : entries.Perm disk.entries) {events : List UsernsEvent}
    (every : EveryStep step Orderly (start baseUid length maxSlots disk entries) events) :
    AlongRun step Isolated (start baseUid length maxSlots disk entries) events ∧
      EveryStep step Steady (start baseUid length maxSlots disk entries) events := by
  have keeps := fun u event (s : Sound u) (orderly : Orderly u event) => s.step orderly
  have initial := sound_start filled fits clean perm
  exact ⟨(AlongRun.of_invariant keeps initial every).mono fun u s => s.isolated,
    .of_invariant keeps (fun u event s orderly => s.steady orderly) initial every⟩

/-- Two pods, and a process that starts after them. -/
theorem twoPods_isolated :
    AlongRun step Isolated (start 100000 65536 4 .empty []) [.allocate "pod-1" true, .allocate "pod-2" true, .restart
      [("pod-1.json", some ⟨"pod-1", 0⟩), ("pod-2.json", some ⟨"pod-2", 1⟩)]] := by
  refine (ranges_isolated (by decide) (by decide) ?_ (.refl _) ?_).1
  · exact ⟨nofun, nofun⟩
  · exact ⟨⟨by decide, rfl⟩, ⟨by decide, rfl⟩, by unfold Orderly; decide +kernel, True.intro⟩

/-- Two files with one slot give it to two pods, and a slot that ends past 32
bits wraps around. -/
theorem sharedSlot_not_isolated :
    ¬ Isolated (start 100000 65536 4 (.ofList [("a.json", some ⟨"a", 0⟩), ("b.json", some ⟨"b", 0⟩)])
        [("a.json", some ⟨"a", 0⟩), ("b.json", some ⟨"b", 0⟩)]) ∧
      ¬ Isolated (start 4294901760 65536 2 (.ofList [("a.json", some ⟨"a", 1⟩)]) [("a.json", some ⟨"a", 1⟩)]) := by
  constructor
  · intro isolated
    have shared := isolated.apart "a" "b" (100000, 65536) (100000, 65536) (by decide) (by decide +kernel) (by decide +kernel)
    omega
  · intro isolated
    have wrapped := isolated.within "a" (0, 65536) (by decide +kernel)
    exact absurd wrapped.1 (by decide +kernel)

end Userns
end NotK8s.Nodelet
