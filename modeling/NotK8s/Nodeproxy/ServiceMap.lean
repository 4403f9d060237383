import NotK8s.Library.Copies
import NotK8s.Nodeproxy.Rules

namespace NotK8s.Nodeproxy

open Library

/-!
# What the two generators make of a packet

A packet that matches an nft rule is sent on by that rule; one that reaches
the chain goes through the rules it matches in order.  Which position of the
destinations is taken depends on a draw, on the client or on a turn.
-/

structure Packet where
  family : Family
  daddr : String
  isLocal : Bool
  proto : String
  dport : Int
  deriving DecidableEq

def Traffic.covers (traffic : Traffic) (packet : Packet) : Bool :=
  decide (traffic.family = packet.family ∧ traffic.proto = packet.proto ∧ traffic.dport = packet.dport) &&
    match traffic.address with
    | some address => decide (address = packet.daddr)
    | none => packet.isLocal

/-- Where a connection may go, and how likely each position is, given the
hash of its client and how many connections the rule has seen. -/
structure Selection where
  destinations : List Backend
  weight : Nat -> Nat -> Nat -> ℚ

namespace Selection

def positions (s : Selection) : Nat :=
  s.destinations.length

/-- Every position is as likely as any other. -/
def Equal (s : Selection) : Prop :=
  forall clientHash turn i, i < s.positions -> s.weight clientHash turn i = 1 / s.positions

/-- Every position is taken by some connection. -/
def Reachable (s : Selection) : Prop :=
  forall i, i < s.positions -> Exists fun clientHash => Exists fun turn => 0 < s.weight clientHash turn i

/-- Every client has one position for all its connections. -/
def FixedPerClient (s : Selection) : Prop :=
  forall clientHash, Exists fun i => i < s.positions ∧ forall turn, s.weight clientHash turn i = 1

/-- What a method asks of the selection. -/
def Fair (s : Selection) : LbMethod -> Prop
  | .random => s.Equal
  | .roundRobin => s.Reachable
  | .sourceHash => s.Reachable ∧ s.FixedPerClient

end Selection

def Selector.weight (n : Nat) : Selector -> Nat -> Nat -> Nat -> ℚ
  | .numgenRandom, _, _, i => if i < n then 1 / n else 0
  | .numgenInc, _, turn, i => if turn % n = i then 1 else 0
  | .jhash _, clientHash, _, i => if clientHash % n = i then 1 else 0

def Target.selection : Target -> Selection
  | .bare backend => { destinations := [backend], weight := fun _ _ i => if i = 0 then 1 else 0 }
  | .map lb backends => { destinations := backends, weight := lb.weight backends.length }

/-- The chain, as the rules of it that a packet matches. -/
def chainSelection (rules : List StatisticRule) : Selection where
  destinations := rules.map StatisticRule.destination
  weight := fun _ _ i => reach (rules.map fun rule => rule.probability.getD 1) i

/-- What the two generators are given. -/
structure Setting where
  walk : Walk
  ipFamily : IpFamily
  lbMethod : LbMethod
  caps : Caps
  localAddrs : List String

namespace Setting
variable (g : Setting) (packet : Packet)

def enabled (family : Family) : Bool :=
  g.ipFamily.families.contains family

def nftMatching : List NftRule :=
  (nftRules g.walk g.ipFamily g.lbMethod g.caps g.localAddrs).filter fun rule => rule.traffic.covers packet

def chainMatching : List StatisticRule :=
  (statisticRules g.walk g.ipFamily g.caps packet.family).filter fun rule => rule.traffic.covers packet

/-- One selection for each nft rule that the packet matches, and one for the
chain if it matches a rule there. -/
def selections : List Selection :=
  (g.nftMatching packet).map (fun rule => rule.target.selection) ++
    if g.chainMatching packet = [] then [] else [chainSelection (g.chainMatching packet)]

end Setting

/-! ## What a frontend is owed -/

namespace Frontend
variable (f : Frontend) (g : Setting)

/-- The packets a frontend answers to, as far as the kernel lets it. -/
def traffic : List Traffic :=
  if f.delegated g.caps then f.statisticTraffic else f.nftTraffic g.caps g.localAddrs

def method : LbMethod :=
  selectedMethod f.service g.lbMethod

/-- The kernel has what the method needs. -/
def Capable : Prop :=
  match f.method g with
  | .random | .roundRobin => g.caps.numgen = true
  | .sourceHash => g.caps.jhash = true

/-- The chain stands in. -/
def Fallback : Prop :=
  g.caps.numgen = false ∧ g.caps.statistic f.family = true ∧ f.sticky = false

/-- The chain stands in for a method that asks for one backend per client. -/
def Rerandomised : Prop :=
  f.method g = .sourceHash ∧ f.delegated g.caps = true

/-- The rules do for a packet of this frontend what the Service asks. -/
def Implements (packet : Packet) : Prop :=
  if f.backends = [] then g.nftMatching packet = [] ∧ g.chainMatching packet = []
  else
    Exists fun s => g.selections packet = [s] ∧ (forall backend, backend ∈ s.destinations -> backend ∈ f.backends) ∧
      (f.Capable g ∨ f.Fallback g -> s.destinations = f.backends ∧ s.Fair (f.method g)) ∧
      (g.chainMatching packet ≠ [] -> s.Equal)

/-- How often a packet is matched by the traffic of a frontend with
backends. -/
def hits (packet : Packet) : Nat :=
  if f.backends = [] then 0 else ((f.traffic g).filter fun traffic => traffic.covers packet).length

end Frontend

/-- The frontends with backends that answer to a packet, each as often as it
does. -/
def Setting.claimants (g : Setting) (packet : Packet) : List Frontend :=
  copied (fun f => f.hits g packet) (frontends g.walk g.enabled)

/-! ## Frontends of the enabled families -/

theorem serviceFrontends_filter (walk : Walk) (enabled among : Family -> Bool) (key : String) (svc : Service) :
    (serviceFrontends walk enabled key svc).filter (fun f => among f.family) =
      serviceFrontends walk (fun family => enabled family && among family) key svc := by
  unfold serviceFrontends
  cases svc.spec with
  | none => rfl
  | some spec =>
    cases splitKey key with
    | none => rfl
    | some parts =>
      simp only [List.filter_flatMap]
      congr 1
      funext clusterIp
      by_cases headless : (clusterIp = "" || clusterIp = "None") = true
      · simp only [if_pos headless, List.filter_nil]
      · by_cases isEnabled : enabled (Family.of clusterIp) = true
        · by_cases isAmong : among (Family.of clusterIp) = true
          · simp [headless, isEnabled, isAmong, List.filter_map, Function.comp_def]
          · simp [headless, isEnabled, isAmong, List.filter_map, Function.comp_def]
        · simp [headless, isEnabled]

theorem frontends_filter (walk : Walk) (enabled among : Family -> Bool) :
    (frontends walk enabled).filter (fun f => among f.family) =
      frontends walk fun family => enabled family && among family := by
  unfold frontends
  rw [List.filter_flatMap]
  congr 1
  funext entry
  exact serviceFrontends_filter walk enabled among entry.1 entry.2

theorem enabled_of_mem {walk : Walk} {enabled : Family -> Bool} {f : Frontend} (member : f ∈ frontends walk enabled) :
    enabled f.family = true := by
  have same : frontends walk enabled = (frontends walk enabled).filter fun f => enabled f.family := by
    rw [frontends_filter]
    simp only [Bool.and_self]
  rw [same, List.mem_filter] at member
  exact member.2

/-! ## The rules of one frontend -/

namespace Frontend

/-- The rule of the chain for the backend at a position. -/
def statisticRule (f : Frontend) (entry : Backend × Nat) (traffic : Traffic) : StatisticRule where
  traffic := traffic
  probability := if entry.2 + 1 = f.backends.length then none else some (1 / ((f.backends.length - entry.2 : Nat) : ℚ))
  destination := entry.1

section
variable {f : Frontend} {g : Setting}

theorem statisticRules_of_delegated (delegated : f.delegated g.caps = true) :
    f.statisticRules g.caps = f.backends.zipIdx.flatMap fun entry => (f.traffic g).map (f.statisticRule entry) := by
  unfold statisticRules traffic
  simp only [delegated, Bool.not_true, Bool.false_eq_true, if_false, if_true]
  rfl

theorem statisticRules_of_not_delegated (delegated : f.delegated g.caps = false) : f.statisticRules g.caps = [] := by
  simp [statisticRules, delegated]

theorem nftRules_of_delegated (delegated : f.delegated g.caps = true) :
    f.nftRules g.lbMethod g.caps g.localAddrs = [] := by
  simp [nftRules, delegated]

theorem nftRules_of_not_delegated (delegated : f.delegated g.caps = false) {target : Target}
    (isTarget : dnatTarget (lbExpr f.service g.lbMethod f.family g.caps) f.backends = some target) :
    f.nftRules g.lbMethod g.caps g.localAddrs = (f.traffic g).map fun traffic => ⟨traffic, target⟩ := by
  simp [nftRules, traffic, delegated, isTarget]

theorem not_delegated_of_empty (empty : f.backends = []) : f.delegated g.caps = false := by
  simp [delegated, Caps.delegatesToStatistic, empty]

theorem nftRules_of_empty (empty : f.backends = []) : f.nftRules g.lbMethod g.caps g.localAddrs = [] := by
  simp [nftRules, not_delegated_of_empty empty, empty, dnatTarget]

theorem family_of_mem_statisticTraffic {traffic : Traffic} (member : traffic ∈ f.statisticTraffic) :
    traffic.family = f.family := by
  rcases List.mem_cons.mp member with rfl | member
  · rfl
  · cases node : f.nodePort with
    | none => simp [node] at member
    | some nodePort =>
      simp only [node, List.mem_singleton] at member
      rw [member]

end

theorem exists_dnatTarget (lb : Option Selector) {backends : List Backend} (ready : backends ≠ []) :
    Exists fun target => dnatTarget lb backends = some target := by
  rcases backends with _ | ⟨first, _ | ⟨second, rest⟩⟩
  · exact absurd rfl ready
  · exact ⟨_, rfl⟩
  · cases lb with
    | none | some lb => exact ⟨_, rfl⟩

variable (g : Setting) (packet : Packet) (f : Frontend)

def nftHits : List NftRule :=
  (f.nftRules g.lbMethod g.caps g.localAddrs).filter fun rule => rule.traffic.covers packet

def chainHits : List StatisticRule :=
  (f.statisticRules g.caps).filter fun rule => rule.traffic.covers packet

/-- How many rules one hit of a frontend is. -/
def share : Nat :=
  if f.delegated g.caps then f.backends.length else 1

variable {f g packet}

theorem chainHits_of_delegated (delegated : f.delegated g.caps = true) :
    f.chainHits g packet = f.backends.zipIdx.flatMap fun entry =>
      ((f.traffic g).filter fun traffic => traffic.covers packet).map (f.statisticRule entry) := by
  rw [chainHits, statisticRules_of_delegated delegated, List.filter_flatMap]
  simp only [List.filter_map]
  rfl

theorem nftHits_of_not_delegated (delegated : f.delegated g.caps = false) {target : Target}
    (isTarget : dnatTarget (lbExpr f.service g.lbMethod f.family g.caps) f.backends = some target) :
    f.nftHits g packet =
      ((f.traffic g).filter fun traffic => traffic.covers packet).map fun traffic => ⟨traffic, target⟩ := by
  rw [nftHits, nftRules_of_not_delegated delegated isTarget, List.filter_map]
  rfl

/-- A frontend's hits are in one of the two, and each of them is its share. -/
theorem length_hits : (f.nftHits g packet).length + (f.chainHits g packet).length = f.hits g packet * f.share g := by
  by_cases empty : f.backends = []
  · simp [nftHits, chainHits, hits, nftRules_of_empty empty,
      statisticRules_of_not_delegated (not_delegated_of_empty empty), empty]
  · cases delegated : f.delegated g.caps with
    | true =>
      rw [nftHits, nftRules_of_delegated delegated, chainHits_of_delegated delegated, hits, if_neg empty, share,
        if_pos delegated]
      simp [List.length_flatMap, Nat.mul_comm]
    | false =>
      rcases exists_dnatTarget (lbExpr f.service g.lbMethod f.family g.caps) empty with ⟨target, isTarget⟩
      rw [chainHits, statisticRules_of_not_delegated delegated, nftHits_of_not_delegated delegated isTarget, hits,
        if_neg empty, share, delegated, List.length_map]
      simp

theorem settled (none : f.hits g packet = 0) : f.nftHits g packet = [] ∧ f.chainHits g packet = [] := by
  have total := @length_hits g packet f
  rw [none, Nat.zero_mul] at total
  exact ⟨List.length_eq_zero_iff.mp (by omega), List.length_eq_zero_iff.mp (by omega)⟩

theorem backends_of_hits (hit : 0 < f.hits g packet) : f.backends ≠ [] := by
  intro empty
  rw [hits, if_pos empty] at hit
  exact Nat.lt_irrefl 0 hit

theorem share_pos (hit : 0 < f.hits g packet) : 0 < f.share g := by
  unfold share
  split
  · exact List.length_pos_iff.mpr (backends_of_hits hit)
  · exact Nat.one_pos

end Frontend

/-! ## The rules a packet matches, frontend by frontend -/

theorem Traffic.covers_family {traffic : Traffic} {packet : Packet} (covers : traffic.covers packet = true) :
    traffic.family = packet.family := by
  simp only [Traffic.covers, Bool.and_eq_true, decide_eq_true_eq] at covers
  exact covers.1.1

theorem Frontend.chainHits_other {f : Frontend} {g : Setting} {packet : Packet} (other : f.family ≠ packet.family) :
    f.chainHits g packet = [] := by
  apply List.filter_eq_nil_iff.mpr
  intro rule member covers
  apply other
  rw [<- Traffic.covers_family covers]
  cases delegated : f.delegated g.caps with
  | false =>
    rw [statisticRules_of_not_delegated delegated] at member
    cases member
  | true =>
    rw [statisticRules_of_delegated delegated] at member
    simp only [List.mem_flatMap, List.mem_map, traffic, if_pos delegated] at member
    rcases member with ⟨entry, _, traffic, inTraffic, rfl⟩
    exact (family_of_mem_statisticTraffic inTraffic).symm

namespace Setting
variable (g : Setting) (packet : Packet)

theorem nftMatching_eq :
    g.nftMatching packet = (frontends g.walk g.enabled).flatMap fun f => f.nftHits g packet := by
  rw [nftMatching, nftRules, List.filter_flatMap]
  rfl

/-- The chain of the packet's family holds the rules of every frontend that
the packet could be for. -/
theorem chainMatching_eq :
    g.chainMatching packet = (frontends g.walk g.enabled).flatMap fun f => f.chainHits g packet := by
  have ofFamily : ((frontends g.walk g.enabled).flatMap fun f => f.chainHits g packet) =
      (frontends g.walk fun family => g.enabled family && decide (family = packet.family)).flatMap fun f =>
        f.chainHits g packet := by
    rw [<- frontends_filter g.walk g.enabled fun family => decide (family = packet.family)]
    induction frontends g.walk g.enabled with
    | nil => rfl
    | cons f rest ih =>
      rw [List.flatMap_cons, ih]
      by_cases same : f.family = packet.family
      · rw [List.filter_cons_of_pos (by simpa using same), List.flatMap_cons]
      · rw [List.filter_cons_of_neg (by simpa using same), Frontend.chainHits_other same, List.nil_append]
  rw [ofFamily, chainMatching, statisticRules]
  cases isEnabled : g.ipFamily.families.contains packet.family with
  | false =>
    have none : (frontends g.walk fun family => g.enabled family && decide (family = packet.family)) = [] := by
      apply List.eq_nil_iff_forall_not_mem.mpr
      intro f member
      have both := enabled_of_mem member
      simp only [Bool.and_eq_true, decide_eq_true_eq] at both
      rw [both.2, enabled, isEnabled] at both
      cases both.1
    rw [none]
    rfl
  | true =>
    have same : (fun family => g.enabled family && decide (family = packet.family)) =
        fun other => decide (other = packet.family) := by
      funext family
      by_cases equal : family = packet.family
      · simp only [equal, enabled, isEnabled, decide_true, Bool.and_self]
      · simp only [equal, decide_false, Bool.and_false]
    rw [same, Bool.not_true, if_neg Bool.false_ne_true, List.filter_flatMap]
    rfl

theorem length_matching :
    (g.nftMatching packet).length + (g.chainMatching packet).length =
      ((g.claimants packet).map fun f => f.share g).sum := by
  rw [claimants, sum_copied, nftMatching_eq, chainMatching_eq]
  induction frontends g.walk g.enabled with
  | nil => rfl
  | cons f rest ih =>
    rw [List.flatMap_cons, List.flatMap_cons, List.length_append, List.length_append, List.map_cons, List.sum_cons,
      <- ih, <- Frontend.length_hits]
    omega

end Setting

/-! ## The chain of one frontend -/

section
variable (f : Frontend) (traffic : Traffic)

/-- The rules of the chain for one hit of a frontend. -/
def Frontend.chainOf : List StatisticRule :=
  f.backends.zipIdx.map fun entry => f.statisticRule entry traffic

theorem destinations_chainOf : (chainSelection (f.chainOf traffic)).destinations = f.backends := by
  rw [chainSelection, Frontend.chainOf, List.map_map]
  exact List.zipIdx_map_fst 0 f.backends

theorem probabilities_chainOf :
    ((f.chainOf traffic).map fun rule => rule.probability.getD 1) = evenly f.backends.length := by
  rw [Frontend.chainOf, List.map_map, evenly_eq_map, List.range_eq_range', <- List.zipIdx_map_snd 0 f.backends,
    List.map_map]
  apply List.map_congr_left
  intro entry member
  by_cases last : entry.2 + 1 = f.backends.length
  · have left : f.backends.length - entry.2 = 1 := by omega
    simp [Frontend.statisticRule, last, left]
  · simp [Frontend.statisticRule, last]

theorem equal_chainOf : (chainSelection (f.chainOf traffic)).Equal := by
  intro clientHash turn i inside
  have positions : (chainSelection (f.chainOf traffic)).positions = f.backends.length := by
    rw [Selection.positions, destinations_chainOf]
  rw [positions] at inside ⊢
  have reached := reach_evenly inside
  rw [<- probabilities_chainOf f traffic] at reached
  exact reached

end

/-! ## What an nft rule selects -/

namespace Selection
variable {s : Selection}

theorem Equal.reachable (equal : s.Equal) : s.Reachable := by
  intro i inside
  refine ⟨0, 0, ?_⟩
  rw [equal 0 0 i inside]
  have some : (0 : ℚ) < s.positions := Nat.cast_pos.mpr (Nat.zero_lt_of_lt inside)
  exact one_div_pos.mpr some

/-- Where more than one position is as likely as any other, no client is
fixed to one. -/
theorem Equal.not_fixed (equal : s.Equal) (several : 1 < s.positions) : ¬ s.FixedPerClient := by
  intro fixed
  rcases fixed 0 with ⟨i, inside, whole⟩
  have certain := whole 0
  rw [equal 0 0 i inside, div_eq_one_iff_eq (Nat.cast_ne_zero.mpr (by omega))] at certain
  have one : s.positions = 1 := Nat.cast_injective (R := ℚ) (by rw [<- certain, Nat.cast_one])
  omega

theorem fair_bare (backend : Backend) (method : LbMethod) : (Target.bare backend).selection.Fair method := by
  have certain : forall clientHash turn, (Target.bare backend).selection.weight clientHash turn 0 = 1 :=
    fun _ _ => rfl
  have equal : (Target.bare backend).selection.Equal := by
    intro clientHash turn i inside
    have first : i = 0 := Nat.lt_one_iff.mp inside
    rw [first, certain]
    simp [positions, Target.selection]
  cases method with
  | random => exact equal
  | roundRobin => exact equal.reachable
  | sourceHash => exact ⟨equal.reachable, fun clientHash => ⟨0, Nat.one_pos, certain clientHash⟩⟩

theorem fair_map {f : Frontend} {g : Setting} {lb : Selector} {backends : List Backend}
    (selected : lbExpr f.service g.lbMethod f.family g.caps = some lb) (ready : backends ≠ []) :
    (Target.map lb backends).selection.Fair (f.method g) := by
  have some : 0 < backends.length := List.length_pos_iff.mpr ready
  unfold lbExpr at selected
  unfold Frontend.method
  cases method : selectedMethod f.service g.lbMethod with
  | random =>
    simp only [method, Option.ite_none_right_eq_some, Option.some.injEq] at selected
    rw [<- selected.2]
    intro clientHash turn i inside
    exact if_pos inside
  | roundRobin =>
    simp only [method, Option.ite_none_right_eq_some, Option.some.injEq] at selected
    rw [<- selected.2]
    intro i inside
    have taken : (Target.map .numgenInc backends).selection.weight 0 i i = 1 := if_pos (Nat.mod_eq_of_lt inside)
    exact ⟨0, i, by rw [taken]; exact one_pos⟩
  | sourceHash =>
    simp only [method, Option.ite_none_right_eq_some, Option.some.injEq] at selected
    rw [<- selected.2]
    constructor
    · intro i inside
      have taken : (Target.map (.jhash f.family) backends).selection.weight i 0 i = 1 :=
        if_pos (Nat.mod_eq_of_lt inside)
      exact ⟨i, 0, by rw [taken]; exact one_pos⟩
    · intro clientHash
      exact ⟨clientHash % backends.length, Nat.mod_lt clientHash some, fun turn => if_pos rfl⟩

end Selection

theorem destinations_dnatTarget {lb : Option Selector} {backends : List Backend} {target : Target}
    (isTarget : dnatTarget lb backends = some target) :
    forall backend, backend ∈ target.selection.destinations -> backend ∈ backends := by
  rcases backends with _ | ⟨first, _ | ⟨second, rest⟩⟩
  · cases isTarget
  · cases isTarget
    exact fun backend member => member
  · cases lb with
    | none =>
      cases isTarget
      intro backend member
      rw [List.mem_singleton.mp member]
      exact .head _
    | some lb =>
      cases isTarget
      exact fun backend member => member

theorem fair_dnatTarget {f : Frontend} {g : Setting} {target : Target} (delegated : f.delegated g.caps = false)
    (able : f.Capable g ∨ f.Fallback g)
    (isTarget : dnatTarget (lbExpr f.service g.lbMethod f.family g.caps) f.backends = some target) :
    target.selection.destinations = f.backends ∧ target.selection.Fair (f.method g) := by
  rcases several : f.backends with _ | ⟨first, _ | ⟨second, rest⟩⟩
  · rw [several] at isTarget
    cases isTarget
  · rw [several] at isTarget
    cases isTarget
    exact ⟨rfl, Selection.fair_bare first (f.method g)⟩
  · have capable : f.Capable g := by
      rcases able with capable | ⟨numgen, statistic, sticky⟩
      · exact capable
      · simp [Frontend.delegated, Caps.delegatesToStatistic, several, numgen, statistic, sticky] at delegated
    have selected : Exists fun lb => lbExpr f.service g.lbMethod f.family g.caps = some lb := by
      unfold Frontend.Capable Frontend.method at capable
      unfold lbExpr
      cases method : selectedMethod f.service g.lbMethod <;> simp only [method] at capable <;> simp [capable]
    rcases selected with ⟨lb, isLb⟩
    rw [isLb, several] at isTarget
    cases isTarget
    exact ⟨rfl, Selection.fair_map isLb (List.cons_ne_nil _ _)⟩

/-! ## When a packet is served -/

namespace Frontend
variable {f : Frontend} {g : Setting} {packet : Packet}

/-- A packet that one frontend alone answers to, once, is served by the rules
of that frontend. -/
theorem matching_of_claimant (claimed : g.claimants packet = [f]) :
    g.nftMatching packet = f.nftHits g packet ∧ g.chainMatching packet = f.chainHits g packet ∧
      Exists fun traffic => ((f.traffic g).filter fun traffic => traffic.covers packet) = [traffic] := by
  have nft := flatMap_of_copied (fun h none => (@settled g packet h none).1) claimed
  have chain := flatMap_of_copied (fun h none => (@settled g packet h none).2) claimed
  refine ⟨(Setting.nftMatching_eq g packet).trans nft.2, (Setting.chainMatching_eq g packet).trans chain.2, ?_⟩
  have once := nft.1
  have ready := @backends_of_hits g packet f (by omega)
  rw [hits, if_neg ready] at once
  exact List.length_eq_one_iff.mp once

theorem delegated_iff :
    f.delegated g.caps = true <->
      1 < f.backends.length ∧ g.caps.numgen = false ∧ g.caps.statistic f.family = true ∧ f.sticky = false := by
  simp [delegated, Caps.delegatesToStatistic, and_assoc]

theorem mem_claimants (member : f ∈ frontends g.walk g.enabled) (ready : f.backends ≠ []) {traffic : Traffic}
    (ours : traffic ∈ f.traffic g) (covers : traffic.covers packet = true) : f ∈ g.claimants packet := by
  apply mem_copied.mpr
  refine ⟨member, ?_⟩
  rw [hits, if_neg ready]
  exact List.length_pos_iff.mpr (List.ne_nil_of_mem (List.mem_filter.mpr ⟨ours, covers⟩))

theorem share_of_claimant {h : Frontend} (claims : h ∈ g.claimants packet) : 0 < h.share g :=
  @share_pos g packet h (mem_copied.mp claims).2

theorem matching_none_iff : g.nftMatching packet = [] ∧ g.chainMatching packet = [] <-> g.claimants packet = [] := by
  have total := Setting.length_matching g packet
  constructor
  · rintro ⟨nft, chain⟩
    rw [nft, chain] at total
    exact eq_nil_of_sum (fun h claims => share_of_claimant claims) total.symm
  · intro none
    rw [none, List.map_nil, List.sum_nil] at total
    exact ⟨List.length_eq_zero_iff.mp (by omega), List.length_eq_zero_iff.mp (by omega)⟩

theorem matched_of_claimant (claims : f ∈ g.claimants packet) :
    if f.delegated g.caps then g.chainMatching packet ≠ [] else g.nftMatching packet ≠ [] := by
  have present := mem_copied.mp claims
  have lengths := @length_hits g packet f
  have positive := Nat.mul_pos present.2 (share_of_claimant claims)
  cases delegated : f.delegated g.caps with
  | true =>
    rw [if_pos rfl, Setting.chainMatching_eq]
    intro none
    have chain := List.flatMap_eq_nil_iff.mp none f present.1
    rw [chain, nftHits, nftRules_of_delegated delegated] at lengths
    simp only [List.filter_nil, List.length_nil] at lengths
    omega
  | false =>
    rw [if_neg Bool.false_ne_true, Setting.nftMatching_eq]
    intro none
    have nft := List.flatMap_eq_nil_iff.mp none f present.1
    rw [nft, chainHits, statisticRules_of_not_delegated delegated] at lengths
    simp only [List.filter_nil, List.length_nil] at lengths
    omega

theorem able_of_delegated (delegated : f.delegated g.caps = true) : f.Fallback g :=
  (delegated_iff.mp delegated).2

theorem claimed_of_implements (claims : f ∈ g.claimants packet) (ready : f.backends ≠ [])
    (implements : f.Implements g packet) : g.claimants packet = [f] := by
  apply eq_singleton_of_sum (fun h => share_of_claimant) claims
  rw [<- Setting.length_matching]
  rw [Implements, if_neg ready] at implements
  rcases implements with ⟨s, single, _, able, _⟩
  have matched := matched_of_claimant claims
  unfold share
  cases delegated : f.delegated g.caps with
  | true =>
    rw [delegated, if_pos rfl] at matched
    rw [Setting.selections, if_neg matched] at single
    have lengths := congrArg List.length single
    rw [List.length_append, List.length_map, List.length_singleton, List.length_singleton] at lengths
    have nft : g.nftMatching packet = [] := List.length_eq_zero_iff.mp (by omega)
    rw [nft, List.map_nil, List.nil_append, List.cons.injEq] at single
    have whole := (able (Or.inr (able_of_delegated delegated))).1
    rw [<- single.1] at whole
    rw [nft, if_pos rfl, <- whole]
    simp [chainSelection]
  | false =>
    rw [delegated, if_neg Bool.false_ne_true] at matched
    have lengths := congrArg List.length single
    rw [Setting.selections, List.length_append, List.length_map, List.length_singleton] at lengths
    have some := List.length_pos_iff.mpr matched
    by_cases chain : g.chainMatching packet = []
    · rw [if_pos chain, List.length_nil] at lengths
      rw [chain, List.length_nil, if_neg Bool.false_ne_true]
      exact lengths
    · rw [if_neg chain, List.length_singleton] at lengths
      omega

theorem implements_of_delegated (claimed : g.claimants packet = [f]) (ready : f.backends ≠ [])
    (delegated : f.delegated g.caps = true) : f.Implements g packet <-> f.method g ≠ .sourceHash := by
  rcases matching_of_claimant claimed with ⟨nft, chain, traffic, hit⟩
  rw [nftHits, nftRules_of_delegated delegated, List.filter_nil] at nft
  rw [chainHits_of_delegated delegated, hit] at chain
  have rules : g.chainMatching packet = f.chainOf traffic := by
    rw [chain, chainOf]
    exact List.map_eq_flatMap.symm
  have several := (delegated_iff.mp delegated).1
  have some : g.chainMatching packet ≠ [] := by
    intro none
    have destinations := destinations_chainOf f traffic
    rw [<- rules, none] at destinations
    exact ready destinations.symm
  have selections : g.selections packet = [chainSelection (f.chainOf traffic)] := by
    rw [Setting.selections, nft, if_neg some, rules]
    rfl
  have equal := equal_chainOf f traffic
  have destinations := destinations_chainOf f traffic
  rw [Implements, if_neg ready]
  constructor
  · rintro ⟨s, single, _, able, _⟩ hashed
    rw [selections, List.cons.injEq] at single
    have fair := (able (Or.inr (able_of_delegated delegated))).2
    rw [hashed, <- single.1] at fair
    exact equal.not_fixed (by rw [Selection.positions, destinations]; exact several) fair.2
  · intro notHashed
    refine ⟨_, selections, fun backend member => destinations ▸ member, fun _ => ⟨destinations, ?_⟩, fun _ => equal⟩
    cases method : f.method g with
    | random => exact equal
    | roundRobin => exact equal.reachable
    | sourceHash => exact absurd method notHashed

theorem implements_of_not_delegated (claimed : g.claimants packet = [f]) (ready : f.backends ≠ [])
    (delegated : f.delegated g.caps = false) : f.Implements g packet := by
  rcases matching_of_claimant claimed with ⟨nft, chain, traffic, hit⟩
  rcases exists_dnatTarget (lbExpr f.service g.lbMethod f.family g.caps) ready with ⟨target, isTarget⟩
  rw [chainHits, statisticRules_of_not_delegated delegated, List.filter_nil] at chain
  rw [nftHits_of_not_delegated delegated isTarget, hit] at nft
  rw [Implements, if_neg ready]
  refine ⟨target.selection, ?_, destinations_dnatTarget isTarget, fun able => fair_dnatTarget delegated able isTarget,
    fun some => absurd chain some⟩
  rw [Setting.selections, nft, chain, if_pos rfl]
  rfl

/-- A frontend's packet is served as the Service asks exactly when no other
port with backends answers to it, and the chain does not stand in for a method
that keeps a client to one backend. -/
theorem implements_iff (member : f ∈ frontends g.walk g.enabled) {traffic : Traffic} (ours : traffic ∈ f.traffic g)
    (covers : traffic.covers packet = true) :
    f.Implements g packet <->
      if f.backends = [] then g.claimants packet = [] else g.claimants packet = [f] ∧ ¬ f.Rerandomised g := by
  by_cases ready : f.backends = []
  · rw [Implements, if_pos ready, if_pos ready]
    exact matching_none_iff
  · rw [if_neg ready]
    have claims := mem_claimants member ready ours covers
    constructor
    · intro implements
      have claimed := claimed_of_implements claims ready implements
      exact ⟨claimed, fun rerandomised =>
        (implements_of_delegated claimed ready rerandomised.2).mp implements rerandomised.1⟩
    · rintro ⟨claimed, kept⟩
      cases delegated : f.delegated g.caps with
      | true => exact (implements_of_delegated claimed ready delegated).mpr fun hashed => kept ⟨hashed, delegated⟩
      | false => exact implements_of_not_delegated claimed ready delegated

end Frontend

/-! ## Two backends without `numgen` -/

def webPort : ServicePort where
  name := some "http"
  port := 80
  protocol := none
  nodePort := some 30080

def webSpec : ServiceSpec where
  clusterIps := some ["10.96.0.9"]
  clusterIp := some "10.96.0.9"
  ports := some [webPort]
  sessionAffinity := none

def webFrontService : Service where
  metadata := { inNamespace := some "shop", name := "web", labels := none }
  spec := some webSpec

def webEndpoints : EndpointSlice where
  metadata := { inNamespace := some "shop", name := "web-1",
                labels := some (SortedMap.empty.insert "kubernetes.io/service-name" "web") }
  addressType := "IPv4"
  ports := some [{ name := some "http", port := some 8080 }]
  endpoints := [{ addresses := ["10.244.1.5"], ready := some true }, { addresses := ["10.244.2.7"], ready := none }]

/-- A kernel with no selector but the hash, and the statistic match of
xtables. -/
def withoutNumgen : Caps where
  fib := true
  numgen := false
  jhash := true
  statisticV4 := true
  statisticV6 := false

def webSetting (lbMethod : LbMethod) : Setting where
  walk := { services := [("shop/web", webFrontService)], endpointSlices := [webEndpoints] }
  ipFamily := .dual
  lbMethod := lbMethod
  caps := withoutNumgen
  localAddrs := ["192.168.1.20"]

def webFrontend : Frontend where
  service := webFrontService
  clusterIp := "10.96.0.9"
  family := .v4
  port := webPort
  backends := [("10.244.1.5", 8080), ("10.244.2.7", 8080)]

def webPacket : Packet where
  family := .v4
  daddr := "10.96.0.9"
  isLocal := false
  proto := "tcp"
  dport := 80

theorem webFrontend_mem (lbMethod : LbMethod) :
    webFrontend ∈ frontends (webSetting lbMethod).walk (webSetting lbMethod).enabled := by
  have only : frontends (webSetting lbMethod).walk (webSetting lbMethod).enabled = [webFrontend] := by
    cases lbMethod <;> decide +kernel
  rw [only]
  exact .head _

theorem webFrontend_claims (lbMethod : LbMethod) : (webSetting lbMethod).claimants webPacket = [webFrontend] := by
  cases lbMethod <;> decide +kernel

/-- In turn, by default: the chain spreads the connections instead. -/
theorem webFrontend_implements : webFrontend.Implements (webSetting .roundRobin) webPacket :=
  (Frontend.implements_iff (webFrontend_mem .roundRobin)
    (by decide +kernel : webFrontend.clusterTraffic ∈ _) (by decide +kernel)).mpr
    (by
      rw [if_neg (by decide)]
      exact ⟨webFrontend_claims .roundRobin, fun rerandomised => absurd rerandomised.1 (by decide +kernel)⟩)

/-- By the hash of the client, by default, on a kernel that has the hash: the
chain takes the Service over all the same, and draws anew for every
connection. -/
theorem webFrontend_not_implements :
    webFrontend ∈ frontends (webSetting .sourceHash).walk (webSetting .sourceHash).enabled ∧
      webFrontend.clusterTraffic ∈ webFrontend.traffic (webSetting .sourceHash) ∧
      webFrontend.clusterTraffic.covers webPacket = true ∧
      webFrontend.Capable (webSetting .sourceHash) ∧
      ¬ webFrontend.Implements (webSetting .sourceHash) webPacket := by
  refine ⟨webFrontend_mem .sourceHash, by decide +kernel, by decide +kernel, rfl, ?_⟩
  intro implements
  have delegated : webFrontend.delegated (webSetting .sourceHash).caps = true := by decide +kernel
  exact (Frontend.implements_of_delegated (webFrontend_claims .sourceHash) (List.cons_ne_nil _ _) delegated).mp
    implements (by decide +kernel)

end NotK8s.Nodeproxy
