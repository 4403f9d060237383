import NotK8s.Controllers.NodeIpam

namespace NotK8s.Controllers

open Library

/-!
# Disjoint podCIDRs

The informer has a feed: a list of the Nodes in any order, and after it every
change, until it lists again and what it had not delivered is lost.  A block
is taken when the allocator has it marked or the feed still carries it, and a
marked block is held by a Node or by a deletion that the feed still carries.
-/

/-! ## Steps -/

structure IpamWorld where
  /-- The podCIDRs of the Nodes on the API server. -/
  server : SortedMap String (Option String)
  feed : List (WatchEvent Node)
  controller : NodeIpam

namespace IpamWorld

inductive Step where
  | create (name : String) (podCidr : Option String)
  /-- Another writer writes the Node. -/
  | write (name : String) (podCidr : Option String)
  | remove (name : String)
  | list (order : List (String × Option String))
  | deliver
  | pop (outcome : Outcome)

/-- The Nodes as the informer lists them. -/
def listing (order : List (String × Option String)) : List (WatchEvent Node) :=
  relist (order.map fun entry => ⟨entry.1, entry.2⟩)

/-- The work that the next pop takes: the queue after it, and the cached Node. -/
def work (w : IpamWorld) : Option (KeyedWorkQueue String × Option Node) :=
  w.controller.queue.pop.map fun popped => (popped.2, w.controller.nodes.get popped.1)

/-- The patch that the next pop makes. -/
def patch (w : IpamWorld) : Option (String × String) :=
  w.work.bind fun taken => taken.2.bind fun node =>
    ({ w.controller with queue := taken.1 }.prepare node).2.map fun cidr => (node.name, cidr)

/-- A patch of a Node that does not exist fails. -/
def patched (w : IpamWorld) (node : Node) (cidr : String) (prepared : NodeIpam) (outcome : Outcome) : IpamWorld :=
  match w.server.get node.name, outcome with
  | some _, .done =>
    ⟨w.server.insert node.name (some cidr), w.feed ++ [.apply ⟨node.name, some cidr⟩],
      prepared.conclude node.name cidr true⟩
  | some _, .lost =>
    ⟨w.server.insert node.name (some cidr), w.feed ++ [.apply ⟨node.name, some cidr⟩],
      prepared.conclude node.name cidr false⟩
  | _, _ => { w with controller := prepared.conclude node.name cidr false }

def popped (w : IpamWorld) (outcome : Outcome) : IpamWorld :=
  match w.work with
  | none => w
  | some (queue, none) => { w with controller := { w.controller with queue := queue } }
  | some (queue, some node) =>
    match { w.controller with queue := queue }.prepare node with
    | (prepared, none) => { w with controller := prepared }
    | (prepared, some cidr) => w.patched node cidr prepared outcome

def step (w : IpamWorld) : Step -> IpamWorld
  | .create name podCidr =>
    match w.server.get name with
    | some _ => w
    | none => { w with server := w.server.insert name podCidr, feed := w.feed ++ [.apply ⟨name, podCidr⟩] }
  | .write name podCidr =>
    match w.server.get name with
    | some _ => { w with server := w.server.insert name podCidr, feed := w.feed ++ [.apply ⟨name, podCidr⟩] }
    | none => w
  | .remove name =>
    match w.server.get name with
    | some podCidr => { w with server := w.server.erase name, feed := w.feed ++ [.delete ⟨name, podCidr⟩] }
    | none => w
  | .list order => if order.Perm w.server.entries then { w with feed := listing order } else w
  | .deliver =>
    match w.feed with
    | [] => w
    | event :: feed => { w with feed := feed, controller := w.controller.event event }
  | .pop outcome => w.popped outcome

def start (server : SortedMap String (Option String)) (order : List (String × Option String)) (allocator : CidrAllocator) :
    IpamWorld where
  server := server
  feed := listing order
  controller := .start allocator

end IpamWorld

/-! ## What is asked of a run -/

/-- The event tells a podCIDR of the Node. -/
def Tells (event : WatchEvent Node) (name cidr : String) : Prop :=
  event = .apply ⟨name, some cidr⟩ ∨ event = .initApply ⟨name, some cidr⟩

/-- The block of a podCIDR. -/
def blockOf (cidr : String) : Option Block :=
  match parseIpv4Cidr cidr with
  | .error _ => none
  | .ok (addr, length) => some ⟨addr, length⟩

/-- The podCIDR has the mask size or stays out of the cluster CIDR. -/
def Suitable (cluster : Block) (nodePrefix : Nat) (cidr : String) : Prop :=
  forall block, block ∈ blockOf cidr -> block.length = nodePrefix ∨ cluster.Apart block

/-- An existing Node has this block of the allocator. -/
def HeldBy (a : CidrAllocator) (server : SortedMap String (Option String)) (name cidr : String) (index : Nat) : Prop :=
  server.get name = some (some cidr) ∧ a.marked cidr = some index

/-- What is asked of a step.  A podCIDR that is set is not changed; another
mask size stays out of the cluster CIDR; no deletion that is still to be
delivered is lost in a list; when a deletion is delivered no other Node that
was told has the block; and a podCIDR is allocated to a Node that has none,
when the feed carries none that is not marked. -/
def Orderly (cluster : Block) (w : IpamWorld) : IpamWorld.Step -> Prop
  | .create _ podCidr => forall cidr, cidr ∈ podCidr -> Suitable cluster w.controller.allocator.nodePrefix cidr
  | .write name podCidr =>
    (forall cidr, cidr ∈ podCidr -> Suitable cluster w.controller.allocator.nodePrefix cidr) ∧
      forall old, w.server.get name = some (some old) -> podCidr = some old
  | .remove _ => True
  | .list _ =>
    forall name cidr index, .delete ⟨name, some cidr⟩ ∈ w.feed -> w.controller.allocator.marked cidr = some index ->
      index ∈ w.controller.allocator.allocated ->
        Exists fun other => Exists fun otherCidr => HeldBy w.controller.allocator w.server other otherCidr index
  | .deliver =>
    forall name cidr feed index, w.feed = .delete ⟨name, some cidr⟩ :: feed ->
      w.controller.allocator.marked cidr = some index -> forall other otherCidr,
        HeldBy w.controller.allocator w.server other otherCidr index ->
          Exists fun event => event ∈ feed ∧ Tells event other otherCidr
  | .pop _ =>
    forall name cidr, w.patch = some (name, cidr) -> (forall old, w.server.get name ≠ some (some old)) ∧
      forall event other otherCidr index, event ∈ w.feed -> Tells event other otherCidr ->
        w.controller.allocator.marked otherCidr = some index -> index ∈ w.controller.allocator.allocated

/-- A podCIDR that is written lies in the cluster CIDR, apart from the
podCIDRs of the other Nodes. -/
def WritesApart (cluster : Block) (w : IpamWorld) : IpamWorld.Step -> Prop
  | .pop _ =>
    forall name cidr, w.patch = some (name, cidr) -> Exists fun block => blockOf cidr = some block ∧
      block.Within cluster ∧ forall other otherCidr otherBlock, other ≠ name ->
        w.server.get other = some (some otherCidr) -> blockOf otherCidr = some otherBlock -> block.Apart otherBlock
  | _ => True

/-- A block that is not free is that of a Node, or of a Node whose deletion
is still to be delivered. -/
def Freed (w : IpamWorld) : Prop :=
  forall index, index ∈ w.controller.allocator.allocated ->
    (Exists fun name => Exists fun cidr => HeldBy w.controller.allocator w.server name cidr index) ∨
      Exists fun name => Exists fun cidr =>
        .delete ⟨name, some cidr⟩ ∈ w.feed ∧ w.controller.allocator.marked cidr = some index

/-! ## The allocator -/

theorem marked_of_same {a b : CidrAllocator} (same : b.base = a.base ∧ b.nodePrefix = a.nodePrefix) (cidr : String) :
    b.marked cidr = a.marked cidr := by
  rcases b with ⟨_, _, _, _⟩
  rcases same with ⟨rfl, rfl⟩
  rfl

/-- The allocator as it was made but for what is allocated. -/
def SameSettings (a b : CidrAllocator) : Prop :=
  b.base = a.base ∧ b.nodePrefix = a.nodePrefix ∧ b.totalBlocks = a.totalBlocks

section
variable {a b : CidrAllocator} {cidr : String} {index : Nat}

theorem SameSettings.marked (same : SameSettings a b) (cidr : String) : b.marked cidr = a.marked cidr :=
  marked_of_same ⟨same.1, same.2.1⟩ cidr

theorem sameSettings_mark (a : CidrAllocator) (cidr : String) : SameSettings a (a.markAllocated cidr) := by
  unfold CidrAllocator.markAllocated
  split
  · exact ⟨rfl, rfl, rfl⟩
  · exact ⟨rfl, rfl, rfl⟩

theorem sameSettings_release (a : CidrAllocator) (cidr : String) : SameSettings a (a.release cidr) := by
  unfold CidrAllocator.release
  split
  · exact ⟨rfl, rfl, rfl⟩
  · exact ⟨rfl, rfl, rfl⟩

theorem SameSettings.trans {c : CidrAllocator} (first : SameSettings a b) (second : SameSettings b c) :
    SameSettings a c :=
  ⟨second.1.trans first.1, second.2.1.trans first.2.1, second.2.2.trans first.2.2⟩

theorem mem_mark : index ∈ (a.markAllocated cidr).allocated <-> a.marked cidr = some index ∨ index ∈ a.allocated := by
  unfold CidrAllocator.markAllocated
  split
  · next unmarked =>
      rw [unmarked]
      exact ⟨Or.inr, fun either => either.resolve_left nofun⟩
  · next other marked =>
      rw [marked, Finset.mem_insert, Option.some.injEq, eq_comm]

theorem mem_release : index ∈ (a.release cidr).allocated <-> a.marked cidr ≠ some index ∧ index ∈ a.allocated := by
  unfold CidrAllocator.release
  split
  · next unmarked =>
      rw [unmarked]
      exact ⟨fun allocated => ⟨nofun, allocated⟩, And.right⟩
  · next other marked =>
      rw [marked, Finset.mem_erase, ne_eq, ne_eq, Option.some.injEq, eq_comm (a := index)]

theorem allocate_some {cidr : String} (taken : a.allocate = some (cidr, b)) :
    Exists fun index => index < a.totalBlocks ∧ index ∉ a.allocated ∧ cidr = a.subnetOf index ∧
      b = { a with allocated := insert index a.allocated } := by
  rcases Option.map_eq_some_iff.mp taken with ⟨index, found, made⟩
  have free := List.find?_some found
  have inside := List.mem_range.mp (List.mem_of_find?_eq_some found)
  have parts := Prod.ext_iff.mp made
  exact ⟨index, inside, of_decide_eq_true free, parts.1.symm, parts.2.symm⟩

/-! ## Text -/

theorem unsigned_octets (a b c d : Nat) :
    (Text.split '.' (Nat.toDigits 10 a ++ '.' :: (Nat.toDigits 10 b ++ '.' :: (Nat.toDigits 10 c ++
      '.' :: Nat.toDigits 10 d)))).mapM Text.unsigned = some [a, b, c, d] := by
  have dot : forall n, '.' ∉ Nat.toDigits 10 n := Text.not_mem_toDigits (by decide)
  rw [Text.split_append (dot a), Text.split_append (dot b), Text.split_append (dot c), Text.split_piece (dot d)]
  simp only [List.mapM_cons, List.mapM_nil, Text.unsigned_toDigits]
  rfl

theorem parseIpv4_formatIpv4 {addr : Nat} (small : addr < 2 ^ 32) : parseIpv4 (formatIpv4 addr) = some addr := by
  unfold parseIpv4 formatIpv4
  rw [unsigned_octets]
  dsimp only
  rw [if_pos (by omega)]
  congr 1
  omega

theorem slash_not_mem_formatIpv4 (addr : Nat) : '/' ∉ formatIpv4 addr := by
  have slash : forall n, '/' ∉ Nat.toDigits 10 n := Text.not_mem_toDigits (by decide)
  unfold formatIpv4
  simp only [List.mem_append, List.mem_cons, slash, or_false, false_or]
  decide

theorem parseIpv4Cidr_format {addr length : Nat} (small : addr < 2 ^ 32) (short : length ≤ 32) :
    parseIpv4Cidr (String.ofList (formatIpv4 addr ++ '/' :: Nat.toDigits 10 length)) = .ok (addr, length) := by
  unfold parseIpv4Cidr
  rw [String.toList_ofList, Text.splitOnce_append (slash_not_mem_formatIpv4 addr)]
  dsimp only
  rw [parseIpv4_formatIpv4 small, Text.unsigned_toDigits]
  have byte : (some length).filter (fun n => decide (n ≤ 255)) = some length := by
    rw [Option.filter_some, if_pos (decide_eq_true (by omega))]
  rw [byte]
  dsimp only
  rw [if_neg (by omega)]

theorem parseIpv4_small {text : List Char} {addr : Nat} (parsed : parseIpv4 text = some addr) : addr < 2 ^ 32 := by
  unfold parseIpv4 at parsed
  split at parsed
  · split at parsed
    · next bounds =>
        cases parsed
        omega
    · cases parsed
  · cases parsed

theorem parseIpv4Cidr_small {s : String} {addr length : Nat} (parsed : parseIpv4Cidr s = .ok (addr, length)) :
    addr < 2 ^ 32 ∧ length ≤ 32 := by
  unfold parseIpv4Cidr at parsed
  split at parsed
  · cases parsed
  · split at parsed
    · cases parsed
    · next known =>
        split at parsed
        · cases parsed
        · split at parsed
          · cases parsed
          · next fits =>
              cases parsed
              exact ⟨parseIpv4_small known, by omega⟩

/-! ## Blocks of the allocator -/

/-- The cluster CIDR and the mask size of an allocator. -/
structure Geometry (a : CidrAllocator) (cluster : Block) : Prop where
  mask : 1 ≤ a.nodePrefix ∧ a.nodePrefix ≤ 32
  base : a.base = cluster.address
  ordered : cluster.length ≤ a.nodePrefix
  blocks : a.totalBlocks ≤ 2 ^ (a.nodePrefix - cluster.length)
  aligned : cluster.Aligned
  small : cluster.address < 2 ^ 32

theorem geometry_of_new {clusterCidr : String} {nodePrefix : Nat} {cluster : Block}
    (made : CidrAllocator.new clusterCidr nodePrefix = .ok a) (parsed : blockOf clusterCidr = some cluster)
    (mask : 1 ≤ nodePrefix ∧ nodePrefix ≤ 32) (aligned : cluster.Aligned) : Geometry a cluster := by
  unfold blockOf at parsed
  unfold CidrAllocator.new at made
  split at made
  · cases made
  · next base basePrefix read =>
      rw [read] at parsed
      cases parsed
      split at made
      · cases made
      · next ordered =>
          cases made
          refine ⟨mask, rfl, Nat.not_lt.mp ordered, ?_, aligned, (parseIpv4Cidr_small read).1⟩
          rw [if_pos (by omega)]
          exact Nat.min_le_left _ _

theorem Geometry.of_same {cluster : Block} (geometry : Geometry a cluster) (same : SameSettings a b) : Geometry b cluster := by
  rcases same with ⟨sameBase, samePrefix, sameTotal⟩
  refine ⟨?_, ?_, ?_, ?_, geometry.aligned, geometry.small⟩
  · rw [samePrefix]
    exact geometry.mask
  · rw [sameBase]
    exact geometry.base
  · rw [samePrefix]
    exact geometry.ordered
  · rw [sameTotal, samePrefix]
    exact geometry.blocks

section
variable {cluster : Block} (geometry : Geometry a cluster)
include geometry

theorem Geometry.blockSize_eq : a.blockSize = Block.size a.nodePrefix := by
  have mask := geometry.mask
  unfold CidrAllocator.blockSize Block.size
  split
  · next full =>
      rw [show 32 - a.nodePrefix = 0 by omega]
      rfl
  · rw [Nat.mod_eq_of_lt (by omega)]

section

variable (inside : index < a.totalBlocks)
include inside

theorem Geometry.address_lt :
    cluster.address + (index + 1) * Block.size a.nodePrefix ≤ 2 ^ 32 := by
  have ordered := geometry.ordered
  have mask := geometry.mask
  have few := Nat.lt_of_lt_of_le inside geometry.blocks
  have part : (index + 1) * Block.size a.nodePrefix ≤ Block.size cluster.length := by
    rw [Block.size_split ordered mask.2]
    exact Nat.mul_le_mul_right _ few
  have whole : Block.size cluster.length ∣ 2 ^ 32 := Nat.pow_dvd_pow 2 (by omega)
  have starts : Block.size cluster.length ∣ cluster.address := Nat.dvd_of_mod_eq_zero geometry.aligned
  have small := geometry.small
  have room : cluster.address + Block.size cluster.length ≤ 2 ^ 32 := by
    rcases whole with ⟨blocks, total⟩
    rcases starts with ⟨number, first⟩
    rw [first, total] at small ⊢
    have below := Nat.lt_of_mul_lt_mul_left small
    have next := Nat.mul_le_mul_left (Block.size cluster.length) below
    rw [Nat.succ_eq_add_one, Nat.mul_add, Nat.mul_one] at next
    exact next
  omega

theorem Geometry.addressOf_eq :
    a.addressOf index = cluster.address + index * Block.size a.nodePrefix := by
  have below := geometry.address_lt inside
  have positive := Block.size_pos a.nodePrefix
  rw [Nat.add_mul, Nat.one_mul] at below
  unfold CidrAllocator.addressOf
  rw [geometry.base, geometry.blockSize_eq]
  exact Nat.mod_eq_of_lt (by omega)

theorem Geometry.subnetOf_block :
    parseIpv4Cidr (a.subnetOf index) = .ok (cluster.address + index * Block.size a.nodePrefix, a.nodePrefix) := by
  have below := geometry.address_lt inside
  have positive := Block.size_pos a.nodePrefix
  rw [Nat.add_mul, Nat.one_mul] at below
  unfold CidrAllocator.subnetOf
  rw [geometry.addressOf_eq inside]
  exact parseIpv4Cidr_format (by omega) geometry.mask.2

theorem Geometry.indexOf_eq {addr : Nat}
    (same : addr / Block.size a.nodePrefix = (cluster.address + index * Block.size a.nodePrefix) / Block.size a.nodePrefix) :
    a.indexOf addr = index := by
  have positive := Block.size_pos a.nodePrefix
  have below := geometry.address_lt inside
  have zero := Block.aligned_longer geometry.aligned geometry.ordered geometry.mask.2
  have starts := Nat.div_add_mod cluster.address (Block.size a.nodePrefix)
  rw [zero, Nat.add_zero] at starts
  rw [Nat.add_mul_div_right _ _ positive] at same
  have within := Nat.div_add_mod addr (Block.size a.nodePrefix)
  have offset := Nat.mod_lt addr positive
  rw [same, Nat.mul_add, starts] at within
  rw [Nat.add_mul, Nat.one_mul] at below
  have commuted := Nat.mul_comm index (Block.size a.nodePrefix)
  unfold CidrAllocator.indexOf
  rw [geometry.base, geometry.blockSize_eq]
  have shift : addr + 2 ^ 32 - cluster.address = (Block.size a.nodePrefix * index + addr % Block.size a.nodePrefix) + 2 ^ 32 := by
    omega
  rw [shift, Nat.add_mod_right, Nat.mod_eq_of_lt (by omega), Nat.mul_add_div positive, Nat.div_eq_of_lt offset, Nat.add_zero]

theorem Geometry.marked_subnetOf : a.marked (a.subnetOf index) = some index := by
  unfold CidrAllocator.marked
  rw [geometry.subnetOf_block inside]
  dsimp only
  rw [if_pos rfl, geometry.indexOf_eq inside rfl]

theorem Geometry.marked_of_meet {block : Block} (read : blockOf cidr = some block)
    (length : block.length = a.nodePrefix)
    (meet : ¬ (Block.mk (cluster.address + index * Block.size a.nodePrefix) a.nodePrefix).Apart block) :
    a.marked cidr = some index := by
  have same := Block.same_of_not_apart length.symm meet
  unfold blockOf at read
  unfold CidrAllocator.marked
  cases parsed : parseIpv4Cidr cidr with
  | error reason =>
    rw [parsed] at read
    cases read
  | ok pair =>
    rw [parsed] at read
    cases read
    dsimp only at length same ⊢
    rw [if_pos length, geometry.indexOf_eq inside same.symm]

theorem Geometry.within :
    (Block.mk (cluster.address + index * Block.size a.nodePrefix) a.nodePrefix).Within cluster :=
  Block.within_of_part geometry.aligned geometry.ordered geometry.mask.2 (Nat.lt_of_lt_of_le inside geometry.blocks)

end

end

end

/-! ## What every run keeps -/

/-- A podCIDR that the feed tells is still that of the Node, or a deletion
follows it. -/
def Truthful (server : SortedMap String (Option String)) : List (WatchEvent Node) -> Prop
  | [] => True
  | event :: rest =>
    (forall name cidr, Tells event name cidr ->
      server.get name = some (some cidr) ∨ .delete ⟨name, some cidr⟩ ∈ rest) ∧ Truthful server rest

/-- The block is that of a Node, or of a deletion that the feed carries. -/
def Held (a : CidrAllocator) (server : SortedMap String (Option String)) (feed : List (WatchEvent Node)) (index : Nat) :
    Prop :=
  (Exists fun name => Exists fun cidr => HeldBy a server name cidr index) ∨
    Exists fun name => Exists fun cidr => .delete ⟨name, some cidr⟩ ∈ feed ∧ a.marked cidr = some index

structure Tracked (made : CidrAllocator) (cluster : Block) (w : IpamWorld) : Prop where
  settings : SameSettings made w.controller.allocator
  idle : forall name, w.controller.pending.get name = none
  suitable : forall name cidr, w.server.get name = some (some cidr) -> Suitable cluster made.nodePrefix cidr
  known : forall name cidr index, HeldBy made w.server name cidr index ->
    index ∈ w.controller.allocator.allocated ∨ Exists fun event => event ∈ w.feed ∧ Tells event name cidr
  held : forall index, index ∈ w.controller.allocator.allocated -> Held made w.server w.feed index
  truthful : Truthful w.server w.feed

theorem Truthful.change {server server' : SortedMap String (Option String)} {feed : List (WatchEvent Node)}
    (truthful : Truthful server feed) {event : WatchEvent Node}
    (stays : forall name cidr, server.get name = some (some cidr) ->
      server'.get name = some (some cidr) ∨ event = .delete ⟨name, some cidr⟩)
    (told : forall name cidr, Tells event name cidr -> server'.get name = some (some cidr)) :
    Truthful server' (feed ++ [event]) := by
  induction feed with
  | nil => exact ⟨fun name cidr tells => Or.inl (told name cidr tells), True.intro⟩
  | cons head rest ih =>
    refine ⟨fun name cidr tells => ?_, ih truthful.2⟩
    rcases truthful.1 name cidr tells with present | deleted
    · rcases stays name cidr present with still | now
      · exact Or.inl still
      · exact Or.inr (List.mem_append_right _ (List.mem_singleton.mpr now.symm))
    · exact Or.inr (List.mem_append_left _ deleted)

theorem Tracked.change {made : CidrAllocator} {cluster : Block} {w : IpamWorld} (tracked : Tracked made cluster w)
    {server' : SortedMap String (Option String)} {event : WatchEvent Node}
    (arises : forall name cidr, server'.get name = some (some cidr) ->
      w.server.get name = some (some cidr) ∨ Tells event name cidr ∧ Suitable cluster made.nodePrefix cidr)
    (stays : forall name cidr, w.server.get name = some (some cidr) ->
      server'.get name = some (some cidr) ∨ event = .delete ⟨name, some cidr⟩)
    (told : forall name cidr, Tells event name cidr -> server'.get name = some (some cidr)) :
    Tracked made cluster ⟨server', w.feed ++ [event], w.controller⟩ := by
  refine ⟨tracked.settings, tracked.idle, fun name cidr present => ?_, fun name cidr index holds => ?_,
    fun index allocated => ?_, tracked.truthful.change stays told⟩
  · rcases arises name cidr present with before | new
    · exact tracked.suitable name cidr before
    · exact new.2
  · rcases arises name cidr holds.1 with before | new
    · rcases tracked.known name cidr index ⟨before, holds.2⟩ with marked | ⟨other, member, tells⟩
      · exact Or.inl marked
      · exact Or.inr ⟨other, List.mem_append_left _ member, tells⟩
    · exact Or.inr ⟨event, List.mem_append_right _ (List.mem_singleton_self event), new.1⟩
  · rcases tracked.held index allocated with ⟨name, cidr, holds⟩ | ⟨name, cidr, member, marked⟩
    · rcases stays name cidr holds.1 with still | deleted
      · exact Or.inl ⟨name, cidr, still, holds.2⟩
      · exact Or.inr ⟨name, cidr, List.mem_append_right _ (List.mem_singleton.mpr deleted.symm), holds.2⟩
    · exact Or.inr ⟨name, cidr, List.mem_append_left _ member, marked⟩

theorem Tracked.controller {made : CidrAllocator} {cluster : Block} {w : IpamWorld} (tracked : Tracked made cluster w)
    {controller : NodeIpam} (settings : SameSettings w.controller.allocator controller.allocator)
    (idle : forall name, controller.pending.get name = none)
    (keeps : forall index, index ∈ w.controller.allocator.allocated -> index ∈ controller.allocator.allocated)
    (holds : forall index, index ∈ controller.allocator.allocated ->
      index ∈ w.controller.allocator.allocated ∨ Exists fun name => Exists fun cidr => HeldBy made w.server name cidr index) :
    Tracked made cluster { w with controller := controller } := by
  refine ⟨tracked.settings.trans settings, idle, tracked.suitable, fun name cidr index held => ?_,
    fun index allocated => ?_, tracked.truthful⟩
  · exact (tracked.known name cidr index held).imp_left (keeps index)
  · rcases holds index allocated with before | now
    · exact tracked.held index before
    · exact Or.inl now

theorem not_tells_delete {node : Node} {name cidr : String} : ¬ Tells (.delete node) name cidr := by
  rintro (equal | equal) <;> cases equal

theorem Tracked.observe {made : CidrAllocator} {cluster : Block} {w : IpamWorld} (tracked : Tracked made cluster w)
    {node : Node} {event : WatchEvent Node} {feed : List (WatchEvent Node)} (head : w.feed = event :: feed)
    (isTold : event = .apply node ∨ event = .initApply node) :
    Tracked made cluster { w with feed := feed, controller := w.controller.observe node } := by
  have truthful := tracked.truthful
  rw [head] at truthful
  have notDelete : forall other, WatchEvent.delete other ≠ event := by
    rintro other rfl
    rcases isTold with equal | equal <;> cases equal
  have allocator : (w.controller.observe node).allocator =
      node.podCidr.elim w.controller.allocator w.controller.allocator.markAllocated :=
    by cases node; cases ‹Option String› <;> exact (apply_ite NodeIpam.allocator _ _ _).trans (ite_self _)
  have pending : (w.controller.observe node).pending = w.controller.pending := by
    simp only [NodeIpam.observe, apply_ite NodeIpam.pending, ite_self]
  have allocated : forall index, index ∈ (w.controller.observe node).allocator.allocated <->
      (Exists fun cidr => node.podCidr = some cidr ∧ made.marked cidr = some index) ∨
        index ∈ w.controller.allocator.allocated := by
    intro index
    rw [allocator]
    cases node.podCidr with
    | none =>
        exact ⟨Or.inr, fun either => either.resolve_left (by rintro ⟨_, ⟨⟩, _⟩)⟩
    | some cidr =>
        rw [Option.elim_some, mem_mark, tracked.settings.marked]
        constructor
        · exact Or.imp_left fun marked => ⟨cidr, rfl, marked⟩
        · rintro (⟨_, same, marked⟩ | before)
          · cases same
            exact Or.inl marked
          · exact Or.inr before
  refine ⟨?_, fun name => ?_, tracked.suitable, fun name cidr index holds => ?_, fun index marked => ?_, truthful.2⟩
  · rw [allocator]
    cases node.podCidr with
    | none => exact tracked.settings
    | some => exact tracked.settings.trans (sameSettings_mark _ _)
  · rw [pending]
    exact tracked.idle name
  · rcases tracked.known name cidr index holds with before | ⟨other, member, tells⟩
    · exact Or.inl ((allocated index).mpr (Or.inr before))
    · rw [head] at member
      rcases List.mem_cons.mp member with here | later
      · left
        apply (allocated index).mpr
        left
        rw [here] at tells
        refine ⟨cidr, ?_, holds.2⟩
        rcases isTold with equal | equal <;> rcases tells with same | same <;> rw [equal] at same <;> cases same <;> rfl
      · exact Or.inr ⟨other, later, tells⟩
  · rcases (allocated index).mp marked with ⟨cidr, set, isMarked⟩ | before
    · have tells : Tells event node.name cidr := by
        rcases node with ⟨name, podCidr⟩
        dsimp only at set ⊢
        rw [set] at isTold
        exact isTold
      rcases truthful.1 node.name cidr tells with present | deleted
      · exact Or.inl ⟨node.name, cidr, present, isMarked⟩
      · exact Or.inr ⟨node.name, cidr, deleted, isMarked⟩
    · rcases tracked.held index before with holds | ⟨name, cidr, member, isMarked⟩
      · exact Or.inl holds
      · rw [head] at member
        rcases List.mem_cons.mp member with here | later
        · exact absurd here (notDelete _)
        · exact Or.inr ⟨name, cidr, later, isMarked⟩

theorem Tracked.forget {made : CidrAllocator} {cluster : Block} {w : IpamWorld} (tracked : Tracked made cluster w)
    {node : Node} {feed : List (WatchEvent Node)} (head : w.feed = .delete node :: feed)
    (others : forall cidr index, node.podCidr = some cidr -> made.marked cidr = some index -> forall other otherCidr,
      HeldBy made w.server other otherCidr index -> Exists fun event => event ∈ feed ∧ Tells event other otherCidr) :
    Tracked made cluster { w with feed := feed, controller := w.controller.forget node } := by
  have truthful := tracked.truthful
  rw [head] at truthful
  have allocator : (w.controller.forget node).allocator =
      node.podCidr.elim w.controller.allocator w.controller.allocator.release := by
    unfold NodeIpam.forget
    cases node.podCidr <;> rw [tracked.idle] <;> rfl
  have pending : (w.controller.forget node).pending = w.controller.pending := by
    unfold NodeIpam.forget
    rw [tracked.idle]
  have allocated : forall index, index ∈ (w.controller.forget node).allocator.allocated <->
      (forall cidr, node.podCidr = some cidr -> made.marked cidr ≠ some index) ∧
        index ∈ w.controller.allocator.allocated := by
    intro index
    rw [allocator]
    cases node.podCidr with
    | none =>
        exact ⟨fun before => ⟨fun _ no => (by cases no), before⟩, And.right⟩
    | some cidr =>
        rw [Option.elim_some, mem_release, tracked.settings.marked]
        constructor
        · rintro ⟨unmarked, before⟩
          refine ⟨fun other same => ?_, before⟩
          cases same
          exact unmarked
        · rintro ⟨unmarked, before⟩
          exact ⟨unmarked cidr rfl, before⟩
  refine ⟨?_, fun name => ?_, tracked.suitable, fun name cidr index holds => ?_, fun index marked => ?_, truthful.2⟩
  · rw [allocator]
    cases node.podCidr with
    | none => exact tracked.settings
    | some => exact tracked.settings.trans (sameSettings_release _ _)
  · rw [pending]
    exact tracked.idle name
  · rcases tracked.known name cidr index holds with before | ⟨other, member, tells⟩
    · by_cases released : Exists fun own => node.podCidr = some own ∧ made.marked own = some index
      · rcases released with ⟨own, set, marked⟩
        exact Or.inr (others own index set marked name cidr holds)
      · exact Or.inl ((allocated index).mpr ⟨fun own set marked => released ⟨own, set, marked⟩, before⟩)
    · rw [head] at member
      rcases List.mem_cons.mp member with here | later
      · rw [here] at tells
        exact absurd tells not_tells_delete
      · exact Or.inr ⟨other, later, tells⟩
  · have before := (allocated index).mp marked
    rcases tracked.held index before.2 with holds | ⟨name, cidr, member, isMarked⟩
    · exact Or.inl holds
    · rw [head] at member
      rcases List.mem_cons.mp member with here | later
      · cases here
        exact absurd isMarked (before.1 cidr rfl)
      · exact Or.inr ⟨name, cidr, later, isMarked⟩

theorem Tracked.skip {made : CidrAllocator} {cluster : Block} {w : IpamWorld} (tracked : Tracked made cluster w)
    {event : WatchEvent Node} {feed : List (WatchEvent Node)} (head : w.feed = event :: feed)
    (silent : event = .init ∨ event = .initDone) : Tracked made cluster { w with feed := feed } := by
  have truthful := tracked.truthful
  rw [head] at truthful
  refine ⟨tracked.settings, tracked.idle, tracked.suitable, fun name cidr index holds => ?_, fun index marked => ?_,
    truthful.2⟩
  · rcases tracked.known name cidr index holds with before | ⟨other, member, tells⟩
    · exact Or.inl before
    · rw [head] at member
      rcases List.mem_cons.mp member with here | later
      · rw [here] at tells
        rcases silent with equal | equal <;> rcases tells with same | same <;> rw [equal] at same <;> cases same
      · exact Or.inr ⟨other, later, tells⟩
  · rcases tracked.held index marked with holds | ⟨name, cidr, member, isMarked⟩
    · exact Or.inl holds
    · rw [head] at member
      rcases List.mem_cons.mp member with here | later
      · rcases silent with equal | equal <;> rw [equal] at here <;> cases here
      · exact Or.inr ⟨name, cidr, later, isMarked⟩

theorem mem_listing {order : List (String × Option String)} {event : WatchEvent Node} :
    event ∈ IpamWorld.listing order <->
      event = .init ∨ (Exists fun entry => entry ∈ order ∧ event = .initApply ⟨entry.1, entry.2⟩) ∨ event = .initDone := by
  unfold IpamWorld.listing relist
  rw [List.map_map, List.cons_append, List.mem_cons, List.mem_append, List.mem_map, List.mem_singleton]
  constructor
  · rintro (isInit | ⟨entry, member, made⟩ | done)
    · exact Or.inl isInit
    · exact Or.inr (Or.inl ⟨entry, member, made.symm⟩)
    · exact Or.inr (Or.inr done)
  · rintro (isInit | ⟨entry, member, made⟩ | done)
    · exact Or.inl isInit
    · exact Or.inr (Or.inl ⟨entry, member, made.symm⟩)
    · exact Or.inr (Or.inr done)

theorem truthful_of_told {server : SortedMap String (Option String)} {feed : List (WatchEvent Node)}
    (told : forall event name cidr, event ∈ feed -> Tells event name cidr -> server.get name = some (some cidr)) :
    Truthful server feed := by
  induction feed with
  | nil => exact True.intro
  | cons event rest ih =>
    exact ⟨fun name cidr tells => Or.inl (told event name cidr List.mem_cons_self tells),
      ih fun other name cidr member => told other name cidr (.tail _ member)⟩

theorem told_listing {server : SortedMap String (Option String)} {order : List (String × Option String)}
    (every : order.Perm server.entries) {event : WatchEvent Node} {name cidr : String}
    (member : event ∈ IpamWorld.listing order) (tells : Tells event name cidr) : server.get name = some (some cidr) := by
  rcases mem_listing.mp member with isInit | ⟨entry, listed, made⟩ | done
  · rw [isInit] at tells
    rcases tells with same | same <;> cases same
  · rw [made] at tells
    rcases tells with same | same
    · cases same
    · rcases entry with ⟨entryName, podCidr⟩
      cases same
      exact SortedMap.mem_entries.mp (every.mem_iff.mp listed)
  · rw [done] at tells
    rcases tells with same | same <;> cases same

theorem Tracked.list {made : CidrAllocator} {cluster : Block} {w : IpamWorld} (tracked : Tracked made cluster w)
    {order : List (String × Option String)} (every : order.Perm w.server.entries)
    (kept : forall name cidr index, .delete ⟨name, some cidr⟩ ∈ w.feed -> made.marked cidr = some index ->
      index ∈ w.controller.allocator.allocated ->
        Exists fun other => Exists fun otherCidr => HeldBy made w.server other otherCidr index) :
    Tracked made cluster { w with feed := IpamWorld.listing order } := by
  refine ⟨tracked.settings, tracked.idle, tracked.suitable, fun name cidr index holds => Or.inr ?_, fun index marked => ?_,
    truthful_of_told fun event name cidr => told_listing every⟩
  · have listed := every.mem_iff.mpr (SortedMap.mem_entries.mpr holds.1)
    exact ⟨.initApply ⟨name, some cidr⟩, mem_listing.mpr (Or.inr (Or.inl ⟨_, listed, rfl⟩)), Or.inr rfl⟩
  · rcases tracked.held index marked with holds | ⟨name, cidr, member, isMarked⟩
    · exact Or.inl holds
    · exact Or.inl (kept name cidr index member isMarked marked)

/-! ## Pops -/

/-- The controller once it has taken a block for a Node. -/
def NodeIpam.taken (c : NodeIpam) (name : String) (index : Nat) : NodeIpam :=
  { c with
    allocator := { c.allocator with allocated := insert index c.allocator.allocated }
    pending := c.pending.insert name (c.allocator.subnetOf index) }

/-- Between two steps no podCIDR is in flight, so a Node gets a free block
or nothing. -/
theorem prepare_cases {c : NodeIpam} (idle : forall name, c.pending.get name = none) (node : Node) :
    c.prepare node = (c, none) ∨
      Exists fun index => index < c.allocator.totalBlocks ∧ index ∉ c.allocator.allocated ∧
        c.prepare node = (c.taken node.name index, some (c.allocator.subnetOf index)) := by
  unfold NodeIpam.prepare
  rw [idle]
  split
  · exact Or.inl rfl
  · dsimp only
    split
    · exact Or.inl rfl
    · next cidr allocator taken =>
        rcases allocate_some taken with ⟨index, inside, free, isCidr, isAllocator⟩
        rw [isCidr, isAllocator]
        exact Or.inr ⟨index, inside, free, rfl⟩

theorem conclude_idle {c : NodeIpam} {name cidr : String} (alone : forall other, other ≠ name -> c.pending.get other = none)
    (succeeded : Bool) (other : String) : (c.conclude name cidr succeeded).pending.get other = none := by
  have erased : (c.pending.erase name).get other = none := by
    rw [SortedMap.get_erase]
    split
    · rfl
    · next apart => exact alone other apart
  unfold NodeIpam.conclude
  cases succeeded with
  | true =>
    simp only [if_true]
    split
    · exact erased
    · exact erased
  | false =>
    simp only [Bool.false_eq_true, if_false]
    split
    · next missing =>
        by_cases same : other = name
        · rw [same]
          exact missing
        · exact alone other same
    · exact erased

theorem conclude_allocator_done (c : NodeIpam) (name cidr : String) :
    (c.conclude name cidr true).allocator = c.allocator := by
  simp only [NodeIpam.conclude, if_true]
  split
  · rfl
  · rfl

theorem conclude_allocator_failed {c : NodeIpam} {name cidr inFlight : String} (held : c.pending.get name = some inFlight) :
    (c.conclude name cidr false).allocator = c.allocator.release cidr := by
  simp only [NodeIpam.conclude, Bool.false_eq_true, if_false, held]

section
variable {made : CidrAllocator} {cluster : Block} {w : IpamWorld}

section

variable (tracked : Tracked made cluster w)
include tracked

theorem Tracked.patch_eq {name cidr : String} (patched : w.patch = some (name, cidr)) :
    Exists fun index => index < made.totalBlocks ∧ index ∉ w.controller.allocator.allocated ∧
      cidr = w.controller.allocator.subnetOf index := by
  rcases Option.bind_eq_some_iff.mp patched with ⟨⟨queue, cached⟩, _, inner⟩
  rcases Option.bind_eq_some_iff.mp inner with ⟨node, _, prepared⟩
  rcases Option.map_eq_some_iff.mp prepared with ⟨found, isPatch, pair⟩
  rcases prepare_cases (c := { w.controller with queue := queue }) tracked.idle node with nothing | ⟨index, inside, free, taken⟩
  · rw [nothing] at isPatch
    cases isPatch
  · rw [taken] at isPatch
    cases isPatch
    refine ⟨index, ?_, free, (Prod.ext_iff.mp pair).2.symm⟩
    rw [← tracked.settings.2.2]
    exact inside

section

variable (geometry : Geometry made cluster)
include geometry

theorem Tracked.patched
    {queue : KeyedWorkQueue String} {node : Node} {index : Nat} (inside : index < made.totalBlocks)
    (free : index ∉ w.controller.allocator.allocated) (outcome : Outcome)
    (unset : forall old, w.server.get node.name ≠ some (some old)) :
    Tracked made cluster (w.patched node (w.controller.allocator.subnetOf index)
      (NodeIpam.taken { w.controller with queue := queue } node.name index) outcome) := by
  have settled := geometry.of_same tracked.settings
  have insideNow : index < w.controller.allocator.totalBlocks := by
    rw [tracked.settings.2.2]
    exact inside
  have marked : w.controller.allocator.marked (w.controller.allocator.subnetOf index) = some index :=
    settled.marked_subnetOf insideNow
  have alone : forall other, other ≠ node.name ->
      (NodeIpam.taken { w.controller with queue := queue } node.name index).pending.get other = none := by
    intro other apart
    rw [NodeIpam.taken, SortedMap.get_insert, if_neg apart]
    exact tracked.idle other
  have inFlight : (NodeIpam.taken { w.controller with queue := queue } node.name index).pending.get node.name =
      some (w.controller.allocator.subnetOf index) := by
    rw [NodeIpam.taken, SortedMap.get_insert, if_pos rfl]
  have released : forall cidr, cidr = w.controller.allocator.subnetOf index -> forall other,
      other ∈ ((NodeIpam.taken { w.controller with queue := queue } node.name index).conclude node.name cidr
        false).allocator.allocated <-> other ∈ w.controller.allocator.allocated := by
    rintro cidr rfl other
    rw [conclude_allocator_failed inFlight, mem_release]
    have sameMark : (NodeIpam.taken { w.controller with queue := queue } node.name index).allocator.marked
        (w.controller.allocator.subnetOf index) = some index := marked
    rw [sameMark]
    show some index ≠ some other ∧ other ∈ insert index w.controller.allocator.allocated <-> _
    rw [Finset.mem_insert, ne_eq, Option.some.injEq]
    constructor
    · rintro ⟨apart, same | before⟩
      · exact absurd same.symm apart
      · exact before
    · intro before
      exact ⟨fun same => free (same ▸ before), Or.inr before⟩
  have givenBack : forall server feed, Tracked made cluster ⟨server, feed, w.controller⟩ ->
      Tracked made cluster ⟨server, feed, (NodeIpam.taken { w.controller with queue := queue } node.name index).conclude
        node.name (w.controller.allocator.subnetOf index) false⟩ := by
    intro server feed changed
    refine changed.controller ?_ (conclude_idle alone false) (fun other before => (released _ rfl other).mpr before)
      fun other now => Or.inl ((released _ rfl other).mp now)
    rw [conclude_allocator_failed inFlight]
    exact SameSettings.trans ⟨rfl, rfl, rfl⟩ (sameSettings_release _ _)
  have written : Tracked made cluster ⟨w.server.insert node.name (some (w.controller.allocator.subnetOf index)),
      w.feed ++ [.apply ⟨node.name, some (w.controller.allocator.subnetOf index)⟩], w.controller⟩ := by
    refine tracked.change (fun name cidr present => ?_) (fun name cidr present => Or.inl ?_) (fun name cidr tells => ?_)
    · rw [SortedMap.get_insert] at present
      split at present
      · next same =>
          cases present
          refine Or.inr ⟨Or.inl (by rw [same]), fun block read => Or.inl ?_⟩
          unfold blockOf at read
          rw [settled.subnetOf_block insideNow] at read
          cases read
          exact tracked.settings.2.1
      · exact Or.inl present
    · rw [SortedMap.get_insert, if_neg]
      · exact present
      · rintro rfl
        exact unset cidr present
    · rcases tells with same | same
      · cases same
        rw [SortedMap.get_insert, if_pos rfl]
      · cases same
  unfold IpamWorld.patched
  split
  · refine written.controller ?_ (conclude_idle alone true) (fun other before => ?_) fun other now => ?_
    · rw [conclude_allocator_done]
      exact ⟨rfl, rfl, rfl⟩
    · rw [conclude_allocator_done]
      exact Finset.mem_insert_of_mem before
    · rw [conclude_allocator_done] at now
      rcases Finset.mem_insert.mp now with same | before
      · refine Or.inr ⟨node.name, w.controller.allocator.subnetOf index, ?_, ?_⟩
        · rw [SortedMap.get_insert, if_pos rfl]
        · rw [← tracked.settings.marked, same]
          exact marked
      · exact Or.inl before
  · exact givenBack _ _ written
  · exact givenBack _ _ tracked

theorem Tracked.popped (outcome : Outcome)
    (unset : forall name cidr, w.patch = some (name, cidr) -> forall old, w.server.get name ≠ some (some old)) :
    Tracked made cluster (w.popped outcome) := by
  unfold IpamWorld.popped
  have requeued : forall queue, Tracked made cluster { w with controller := { w.controller with queue := queue } } :=
    fun queue => tracked.controller ⟨rfl, rfl, rfl⟩ tracked.idle (fun _ => id) fun _ => Or.inl
  split
  · exact tracked
  · next queue _ => exact requeued queue
  · next queue node working =>
      rcases prepare_cases (c := { w.controller with queue := queue }) tracked.idle node with nothing | ⟨index, inside, free, taken⟩
      · rw [nothing]
        exact requeued queue
      · rw [taken]
        have patchEq : w.patch = some (node.name, w.controller.allocator.subnetOf index) := by
          unfold IpamWorld.patch
          rw [working, Option.bind_some, Option.bind_some, taken]
          rfl
        have insideMade : index < made.totalBlocks := by
          rw [← tracked.settings.2.2]
          exact inside
        exact tracked.patched geometry insideMade free outcome (unset _ _ patchEq)

theorem Tracked.step {taken : IpamWorld.Step}
    (orderly : Orderly cluster w taken) : Tracked made cluster (w.step taken) := by
  have settled : forall {podCidr : Option String}, (forall cidr, cidr ∈ podCidr ->
      Suitable cluster w.controller.allocator.nodePrefix cidr) -> forall cidr, podCidr = some cidr ->
        Suitable cluster made.nodePrefix cidr := by
    intro podCidr suitable cidr set
    have fact := suitable cidr set
    rw [tracked.settings.2.1] at fact
    exact fact
  have heldBy : forall {other otherCidr : String} {index : Nat},
      HeldBy w.controller.allocator w.server other otherCidr index <-> HeldBy made w.server other otherCidr index := by
    intro other otherCidr index
    unfold HeldBy
    rw [tracked.settings.marked]
  have inserted : forall (name : String) (podCidr : Option String),
      (forall cidr, podCidr = some cidr -> Suitable cluster made.nodePrefix cidr) ->
      (forall old, w.server.get name = some (some old) -> podCidr = some old) ->
      Tracked made cluster { w with server := w.server.insert name podCidr, feed := w.feed ++ [.apply ⟨name, podCidr⟩] } := by
    intro name podCidr suitable same
    refine tracked.change (fun other cidr present => ?_) (fun other cidr present => Or.inl ?_) (fun other cidr tells => ?_)
    · rw [SortedMap.get_insert] at present
      split at present
      · next equal =>
          cases present
          exact Or.inr ⟨Or.inl (by rw [equal]), suitable cidr rfl⟩
      · exact Or.inl present
    · rw [SortedMap.get_insert]
      split
      · next equal => rw [same cidr (equal ▸ present)]
      · exact present
    · rcases tells with equal | equal
      · cases equal
        rw [SortedMap.get_insert, if_pos rfl]
      · cases equal
  cases taken with
  | create name podCidr =>
    simp only [IpamWorld.step]
    split
    · exact tracked
    · next absent =>
        refine inserted name podCidr (settled orderly) fun old present => ?_
        rw [absent] at present
        cases present
  | write name podCidr =>
    simp only [IpamWorld.step]
    split
    · exact inserted name podCidr (settled orderly.1) orderly.2
    · exact tracked
  | remove name =>
    simp only [IpamWorld.step]
    split
    · next podCidr present =>
        refine tracked.change (fun other cidr held => Or.inl ?_) (fun other cidr held => ?_)
          (fun other cidr tells => absurd tells not_tells_delete)
        · rw [SortedMap.get_erase] at held
          split at held
          · cases held
          · exact held
        · rw [SortedMap.get_erase]
          split
          · next same =>
              rw [same, present] at held
              cases held
              right
              rw [same]
          · exact Or.inl held
    · exact tracked
  | list order =>
    simp only [IpamWorld.step]
    split
    · next every =>
        refine tracked.list every fun name cidr index member marked allocated => ?_
        rw [← tracked.settings.marked] at marked
        rcases orderly name cidr index member marked allocated with ⟨other, otherCidr, holds⟩
        exact ⟨other, otherCidr, heldBy.mp holds⟩
    · exact tracked
  | deliver =>
    simp only [IpamWorld.step]
    split
    · exact tracked
    · next event feed head =>
        cases event with
        | apply node => exact tracked.observe head (Or.inl rfl)
        | initApply node => exact tracked.observe head (Or.inr rfl)
        | init => exact tracked.skip head (Or.inl rfl)
        | initDone => exact tracked.skip head (Or.inr rfl)
        | delete node =>
          refine tracked.forget head fun cidr index set marked other otherCidr holds => ?_
          rcases node with ⟨name, podCidr⟩
          dsimp only at set
          rw [set] at head
          rw [← tracked.settings.marked] at marked
          exact orderly name cidr feed index head marked other otherCidr (heldBy.mpr holds)
  | pop outcome =>
    exact tracked.popped geometry outcome fun name cidr patched => (orderly name cidr patched).1

theorem Tracked.writesApart {taken : IpamWorld.Step}
    (orderly : Orderly cluster w taken) : WritesApart cluster w taken := by
  cases taken with
  | pop outcome =>
    intro name cidr patched
    rcases tracked.patch_eq patched with ⟨index, inside, free, isCidr⟩
    have settled := geometry.of_same tracked.settings
    have insideNow : index < w.controller.allocator.totalBlocks := by
      rw [tracked.settings.2.2]
      exact inside
    have read : blockOf cidr = some ⟨cluster.address + index * Block.size w.controller.allocator.nodePrefix,
        w.controller.allocator.nodePrefix⟩ := by
      unfold blockOf
      rw [isCidr, settled.subnetOf_block insideNow]
    refine ⟨_, read, settled.within insideNow, fun other otherCidr otherBlock _ present otherRead => ?_⟩
    rcases tracked.suitable other otherCidr present otherBlock otherRead with length | outside
    · -- A block of the mask size that meets it would be marked.
      by_contra meet
      rw [← tracked.settings.2.1] at length
      have marked := settled.marked_of_meet insideNow otherRead length meet
      have holds : HeldBy made w.server other otherCidr index := ⟨present, tracked.settings.marked otherCidr ▸ marked⟩
      rcases tracked.known other otherCidr index holds with before | ⟨event, member, tells⟩
      · exact free before
      · exact free ((orderly name cidr patched).2 event other otherCidr index member tells marked)
    · exact Block.Apart.of_within (settled.within insideNow) outside
  | create name podCidr | write name podCidr | remove name | list order | deliver => exact True.intro

end

theorem Tracked.freed : Freed w := by
  intro index allocated
  rcases tracked.held index allocated with ⟨name, cidr, present, marked⟩ | ⟨name, cidr, member, marked⟩
  · exact Or.inl ⟨name, cidr, present, (tracked.settings.marked cidr).trans marked⟩
  · exact Or.inr ⟨name, cidr, member, (tracked.settings.marked cidr).trans marked⟩

end

end

theorem tracked_start {made : CidrAllocator} {cluster : Block} {server : SortedMap String (Option String)}
    {order : List (String × Option String)} (every : order.Perm server.entries) (empty : made.allocated = ∅)
    (suitable : forall name cidr, server.get name = some (some cidr) -> Suitable cluster made.nodePrefix cidr) :
    Tracked made cluster (IpamWorld.start server order made) := by
  refine ⟨⟨rfl, rfl, rfl⟩, fun name => rfl, suitable, fun name cidr index holds => Or.inr ?_, fun index marked => ?_,
    truthful_of_told fun event name cidr => told_listing every⟩
  · have listed := every.mem_iff.mpr (SortedMap.mem_entries.mpr holds.1)
    exact ⟨.initApply ⟨name, some cidr⟩, mem_listing.mpr (Or.inr (Or.inl ⟨_, listed, rfl⟩)), Or.inr rfl⟩
  · have absurd_ : index ∈ made.allocated := marked
    rw [empty] at absurd_
    exact absurd absurd_ (Finset.notMem_empty index)

theorem new_allocated {clusterCidr : String} {nodePrefix : Nat} {made : CidrAllocator}
    (isNew : CidrAllocator.new clusterCidr nodePrefix = .ok made) :
    made.nodePrefix = nodePrefix ∧ made.allocated = ∅ := by
  unfold CidrAllocator.new at isNew
  split at isNew
  · cases isNew
  · split at isNew
    · cases isNew
    · cases isNew
      exact ⟨rfl, rfl⟩

/-- With a cluster CIDR that is written with the first of its addresses, every
run whose steps are orderly writes only podCIDRs in the cluster CIDR that are
apart from those of the other Nodes, and frees every block that no Node has. -/
theorem podCidrs_apart (clusterCidr : String) (nodePrefix : Nat) (made : CidrAllocator) (cluster : Block)
    (isNew : CidrAllocator.new clusterCidr nodePrefix = .ok made) (parsed : blockOf clusterCidr = some cluster)
    (mask : 1 ≤ nodePrefix ∧ nodePrefix ≤ 32) (aligned : cluster.Aligned) (server : SortedMap String (Option String))
    (suitable : forall name cidr, server.get name = some (some cidr) -> Suitable cluster nodePrefix cidr)
    (order : List (String × Option String)) (every : order.Perm server.entries) (steps : List IpamWorld.Step)
    (orderly : EveryStep IpamWorld.step (Orderly cluster) (IpamWorld.start server order made) steps) :
    EveryStep IpamWorld.step (WritesApart cluster) (IpamWorld.start server order made) steps ∧
      AlongRun IpamWorld.step Freed (IpamWorld.start server order made) steps := by
  have geometry := geometry_of_new isNew parsed mask aligned
  rcases new_allocated isNew with ⟨samePrefix, empty⟩
  have initial : Tracked made cluster (IpamWorld.start server order made) :=
    tracked_start every empty (samePrefix ▸ suitable)
  have keeps : forall (w : IpamWorld) (taken : IpamWorld.Step), Tracked made cluster w -> Orderly cluster w taken ->
      Tracked made cluster (w.step taken) := fun w taken tracked good => tracked.step geometry good
  have each : forall (w : IpamWorld) (taken : IpamWorld.Step), Tracked made cluster w -> Orderly cluster w taken ->
      WritesApart cluster w taken := fun w taken tracked good => tracked.writesApart geometry good
  exact ⟨EveryStep.of_invariant keeps each initial orderly,
    (AlongRun.of_invariant keeps initial orderly).mono fun w tracked => tracked.freed⟩

private def halves : CidrAllocator :=
  ⟨10 * 16777216, 25, 2, ∅⟩

private def halvesCluster : Block :=
  ⟨10 * 16777216, 24⟩

private def bareNode : SortedMap String (Option String) :=
  SortedMap.empty.insert "a" none

/-- The list is delivered, and the Node gets the first half. -/
theorem podCidrs_apart_halves :
    EveryStep IpamWorld.step (WritesApart halvesCluster) (IpamWorld.start bareNode [("a", none)] halves)
        [.deliver, .deliver, .deliver, .pop .done] ∧
      AlongRun IpamWorld.step Freed (IpamWorld.start bareNode [("a", none)] halves)
        [.deliver, .deliver, .deliver, .pop .done] := by
  have told : forall name cidr, bareNode.get name = some (some cidr) -> Suitable halvesCluster 25 cidr := by
    intro name cidr present
    unfold bareNode at present
    rw [SortedMap.get_insert] at present
    split at present
    · cases present
    · cases present
  refine podCidrs_apart "10.0.0.0/24" 25 halves halvesCluster (by decide +kernel) (by decide +kernel) (by decide)
    (by decide +kernel) bareNode told [("a", none)] (List.Perm.refl _) [.deliver, .deliver, .deliver, .pop .done] ?_
  refine ⟨?_, ?_, ?_, ?_, True.intro⟩
  · intro name cidr feed index head
    cases head
  · intro name cidr feed index head
    cases head
  · intro name cidr feed index head
    cases head
  · intro name cidr patched
    have isA : IpamWorld.patch (run IpamWorld.step (IpamWorld.start bareNode [("a", none)] halves)
        [.deliver, .deliver, .deliver]) = some ("a", "10.0.0.0/25") := by decide +kernel
    have same := isA.symm.trans patched
    cases same
    refine ⟨fun old present => ?_, nofun⟩
    cases (show bareNode.get "a" = some none by decide +kernel).symm.trans present

private def taggedNode : SortedMap String (Option String) :=
  (SortedMap.empty.insert "a" none).insert "b" (some "10.0.0.0/25")

/-- The list has delivered the Node without a podCIDR and not yet the one that
has the first half. -/
theorem podCidrs_not_apart_partialList :
    CidrAllocator.new "10.0.0.0/24" 25 = .ok halves ∧
      ¬ EveryStep IpamWorld.step (WritesApart halvesCluster)
        (IpamWorld.start taggedNode [("a", none), ("b", some "10.0.0.0/25")] halves) [.deliver, .deliver, .pop .done] := by
  refine ⟨by decide +kernel, fun every => ?_⟩
  rcases every.2.2.1 "a" "10.0.0.0/25" (by decide +kernel) with ⟨block, read, _, apart⟩
  have clash := apart "b" "10.0.0.0/25" block (by decide) (by decide +kernel) read
  exact clash block.address rfl rfl

end NotK8s.Controllers
