import Mathlib.Data.Finset.Basic
import NotK8s.Controllers.SharedWatch
import NotK8s.Controllers.WorkQueue
import NotK8s.Library.Cidr
import NotK8s.Library.Text

namespace NotK8s.Controllers

open Library

/-!
# Pod CIDRs of Nodes

The allocator hands out blocks of the cluster CIDR by their index.  What it
knows of the Nodes is what the informer told it.
-/

/-! ## Addresses as text -/

def parseIpv4 (s : List Char) : Option Nat :=
  match (Text.split '.' s).mapM Text.unsigned with
  | some [a, b, c, d] =>
    if a ≤ 255 ∧ b ≤ 255 ∧ c ≤ 255 ∧ d ≤ 255 then some (((a * 256 + b) * 256 + c) * 256 + d) else none
  | _ => none

def formatIpv4 (addr : Nat) : List Char :=
  Nat.toDigits 10 (addr / 16777216 % 256) ++ '.' :: (Nat.toDigits 10 (addr / 65536 % 256) ++
    '.' :: (Nat.toDigits 10 (addr / 256 % 256) ++ '.' :: Nat.toDigits 10 (addr % 256)))

def parseIpv4Cidr (s : String) : Except String (Nat × Nat) :=
  match Text.splitOnce '/' s.toList with
  | none => .error ("'" ++ s ++ "' is not a CIDR (missing '/')")
  | some (addrText, prefixText) =>
    match parseIpv4 addrText with
    | none => .error ("'" ++ String.ofList addrText ++ "' is not a valid IPv4 address")
    | some addr =>
      match (Text.unsigned prefixText).filter (· ≤ 255) with
      | none => .error ("'" ++ String.ofList prefixText ++ "' is not a valid prefix length")
      | some length =>
        if 32 < length then
          .error ("'" ++ s ++ "': prefix length " ++ toString length ++ " is greater than 32")
        else .ok (addr, length)

/-! ## The allocator -/

structure CidrAllocator where
  base : Nat
  nodePrefix : Nat
  totalBlocks : Nat
  allocated : Finset Nat
  deriving DecidableEq

namespace CidrAllocator

/-- The mask size is that of an unsigned byte. -/
def new (clusterCidr : String) (nodePrefix : Nat) : Except String CidrAllocator :=
  match parseIpv4Cidr clusterCidr with
  | .error _ => .error ("parsing cluster CIDR '" ++ clusterCidr ++ "'")
  | .ok (base, basePrefix) =>
    if nodePrefix < basePrefix then
      .error ("node CIDR mask size (/" ++ toString nodePrefix ++ ") must be >= the cluster CIDR's own prefix (/" ++
        toString basePrefix ++ ") — a per-node block can't be larger than the range it comes from.")
    else
      let blocks := if nodePrefix - basePrefix < 64 then 2 ^ (nodePrefix - basePrefix) else 2 ^ 64 - 1
      .ok ⟨base, nodePrefix, min blocks (2 ^ 32 - 1), ∅⟩

/-- A shift by all 32 bits shifts by none. -/
def blockSize (a : CidrAllocator) : Nat :=
  if 32 ≤ a.nodePrefix then 1 else 2 ^ ((32 - a.nodePrefix) % 32)

def indexOf (a : CidrAllocator) (addr : Nat) : Nat :=
  (addr + 2 ^ 32 - a.base) % 2 ^ 32 / a.blockSize

def addressOf (a : CidrAllocator) (index : Nat) : Nat :=
  (a.base + index * a.blockSize) % 2 ^ 32

/-- The index that a podCIDR stands for, when it has the mask size. -/
def marked (a : CidrAllocator) (subnet : String) : Option Nat :=
  match parseIpv4Cidr subnet with
  | .error _ => none
  | .ok (addr, length) => if length = a.nodePrefix then some (a.indexOf addr) else none

def markAllocated (a : CidrAllocator) (subnet : String) : CidrAllocator :=
  match a.marked subnet with
  | none => a
  | some index => { a with allocated := insert index a.allocated }

def release (a : CidrAllocator) (subnet : String) : CidrAllocator :=
  match a.marked subnet with
  | none => a
  | some index => { a with allocated := a.allocated.erase index }

def subnetOf (a : CidrAllocator) (index : Nat) : String :=
  String.ofList (formatIpv4 (a.addressOf index) ++ '/' :: Nat.toDigits 10 a.nodePrefix)

def allocate (a : CidrAllocator) : Option (String × CidrAllocator) :=
  ((List.range a.totalBlocks).find? fun index => index ∉ a.allocated).map fun index =>
    (a.subnetOf index, { a with allocated := insert index a.allocated })

end CidrAllocator

/-! ## The controller -/

structure Node where
  name : String
  podCidr : Option String
  deriving DecidableEq

/-- The state of `run`. -/
structure NodeIpam where
  allocator : CidrAllocator
  nodes : SortedMap String Node
  pending : SortedMap String String
  queue : KeyedWorkQueue String

namespace NodeIpam

def start (allocator : CidrAllocator) : NodeIpam where
  allocator := allocator
  nodes := .empty
  pending := .empty
  queue := .empty

def hasCidr (node : Option Node) : Bool :=
  (node.bind Node.podCidr).isSome

/-- An object that is listed or applied. -/
def observe (c : NodeIpam) (node : Node) : NodeIpam :=
  let marked :=
    match node.podCidr with
    | none => c.allocator
    | some cidr => c.allocator.markAllocated cidr
  -- An older object without a podCIDR does not replace a cached one that has it.
  if hasCidr (some node) || !hasCidr (c.nodes.get node.name) then
    { c with
      allocator := marked
      nodes := c.nodes.insert node.name node
      queue := c.queue.enqueue node.name }
  else { c with allocator := marked }

def forget (c : NodeIpam) (node : Node) : NodeIpam :=
  let released :=
    match node.podCidr with
    | none => c.allocator
    | some cidr => c.allocator.release cidr
  match c.pending.get node.name with
  | none => { c with allocator := released, nodes := c.nodes.erase node.name }
  | some inFlight =>
    { c with
      allocator := released.release inFlight
      pending := c.pending.erase node.name
      nodes := c.nodes.erase node.name }

def event (c : NodeIpam) : WatchEvent Node -> NodeIpam
  | .apply node => c.observe node
  | .initApply node => c.observe node
  | .delete node => c.forget node
  | .init => c
  | .initDone => c

/-- What `reconcile_node` does before its patch: the state, and the podCIDR
it patches onto the Node if there is one to patch. -/
def prepare (c : NodeIpam) (node : Node) : NodeIpam × Option String :=
  match node.podCidr with
  | some existing =>
    match c.pending.get node.name with
    | none => (c, none)
    | some inFlight =>
      let dropped := { c with pending := c.pending.erase node.name }
      if inFlight = existing then (dropped, none)
      else ({ dropped with allocator := c.allocator.release inFlight }, none)
  | none =>
    match c.pending.get node.name with
    | some inFlight => (c, some inFlight)
    | none =>
      match c.allocator.allocate with
      | none => (c, none)
      | some (cidr, allocator) =>
        ({ c with allocator := allocator, pending := c.pending.insert node.name cidr }, some cidr)

/-- What the patch's reply makes of it. -/
def conclude (c : NodeIpam) (name cidr : String) (succeeded : Bool) : NodeIpam :=
  let dropped := { c with pending := c.pending.erase name }
  if succeeded then
    match c.nodes.get name with
    | none => dropped
    | some cached => { dropped with nodes := c.nodes.insert name { cached with podCidr := some cidr } }
  else
    match c.pending.get name with
    | none => c
    | some _ => { dropped with allocator := c.allocator.release cidr }

end NodeIpam

end NotK8s.Controllers
