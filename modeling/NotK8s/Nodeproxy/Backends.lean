import NotK8s.Nodeproxy.ServiceMap

namespace NotK8s.Nodeproxy

open Library

/-!
# Where a Service port leads

The backends of a Service port are gathered slice by slice.  Which pairs of an
address and a port are among them is settled by what the slices say; their
order is that in which the map of the slices is walked.
-/

/-- A slice of a Service, in a family. -/
def Owned (inNamespace svcName : String) (family : Family) (slice : EndpointSlice) : Prop :=
  slice.metadata.inNamespace = some inNamespace ∧ slice.addressType = family.addressType ∧
    (slice.metadata.labels.bind fun labels => labels.get "kubernetes.io/service-name") = some svcName

instance (inNamespace svcName : String) (family : Family) : DecidablePred (Owned inNamespace svcName family) := fun _ =>
  inferInstanceAs (Decidable (_ ∧ _ ∧ _))

/-- The first port of a slice with the name of a Service port. -/
def publishedPort (port : ServicePort) (slice : EndpointSlice) : Option EndpointPort :=
  (slice.ports.getD []).find? fun p => p.name = port.name

theorem matchedPort_eq {port : ServicePort} {slice : EndpointSlice} : matchedPort port (slice.ports.getD []) =
    match publishedPort port slice with
    | some found => some found
    | none => if (slice.ports.getD []).length = 1 then (slice.ports.getD []).head? else none :=
  rfl

def Ready (slice : EndpointSlice) (addr : String) : Prop :=
  Exists fun ep => ep ∈ slice.endpoints ∧ ep.ready.getD true = true ∧ addr ∈ ep.addresses

/-- What a slice of the Service adds to the backends. -/
def contribution (port : ServicePort) (slice : EndpointSlice) : List Backend :=
  ((matchedPort port (slice.ports.getD [])).bind EndpointPort.port).elim [] (sliceBackends slice)

section
variable {inNamespace svcName addr : String} {port : ServicePort} {family : Family} {slice : EndpointSlice} {n : Int}
  {slices : List EndpointSlice}

theorem mem_contribution : (addr, n) ∈ contribution port slice <-> Ready slice addr ∧
    ((matchedPort port (slice.ports.getD [])).bind EndpointPort.port) = some n := by
  unfold contribution
  cases (matchedPort port (slice.ports.getD [])).bind EndpointPort.port with
  | none => simp
  | some epPort =>
    simp only [Option.elim, sliceBackends, Ready, List.mem_flatMap, List.mem_filter, List.mem_map, Prod.mk.injEq]
    grind

theorem backendsFor_eq : backendsFor inNamespace svcName port family slices =
    (slices.filter fun slice => Owned inNamespace svcName family slice).flatMap (contribution port) := by
  unfold backendsFor
  induction slices with
  | nil => rfl
  | cons slice rest ih =>
    rw [List.flatMap_cons, ih, List.filter_cons]
    simp only [Owned]
    split_ifs with namespace_ type_ label <;> simp_all
    unfold contribution
    cases (matchedPort port (slice.ports.getD [])).bind EndpointPort.port <;> rfl

end

/-! ## The destinations of a port -/

namespace Frontend
variable (f : Frontend) (g : Setting)

/-- Where the rules of both generators lead. -/
def destinations : List Backend :=
  (f.nftRules g.lbMethod g.caps g.localAddrs).flatMap (fun rule => rule.target.selection.destinations) ++
    (f.statisticRules g.caps).map StatisticRule.destination

/-- The kernel can neither select nor leave it to the chain. -/
def Collapses : Prop :=
  f.delegated g.caps = false ∧ lbExpr f.service g.lbMethod f.family g.caps = none

variable {f g} {backend : Backend}

theorem traffic_ne_nil : Exists fun first => Exists fun rest => f.traffic g = first :: rest := by
  unfold traffic
  split_ifs
  · exact ⟨_, _, rfl⟩
  · exact ⟨_, _, rfl⟩

theorem mem_destinations_of_target (delegated : f.delegated g.caps = false) {target : Target}
    (isTarget : dnatTarget (lbExpr f.service g.lbMethod f.family g.caps) f.backends = some target) :
    backend ∈ f.destinations g <-> backend ∈ target.selection.destinations := by
  rcases @traffic_ne_nil f g with ⟨first, rest, some_⟩
  rw [destinations, statisticRules_of_not_delegated delegated, nftRules_of_not_delegated delegated isTarget, some_]
  simp only [List.map_nil, List.append_nil, List.mem_flatMap, List.mem_map]
  constructor
  · rintro ⟨_, ⟨_, _, rfl⟩, member⟩
    exact member
  · exact fun member => ⟨_, ⟨first, .head _, rfl⟩, member⟩

theorem mem_destinations (backend : Backend) : (¬ f.Collapses g -> (backend ∈ f.destinations g <-> backend ∈ f.backends)) ∧
    (f.Collapses g -> (backend ∈ f.destinations g <-> f.backends.head? = some backend)) := by
  cases delegated : f.delegated g.caps with
  | true =>
    refine ⟨fun _ => ?_, fun collapses => by simp [Collapses, delegated] at collapses⟩
    rcases @traffic_ne_nil f g with ⟨first, rest, some_⟩
    rw [destinations, nftRules_of_delegated delegated, statisticRules_of_delegated delegated, some_, List.flatMap_nil,
      List.nil_append]
    constructor
    · intro member
      rcases List.mem_map.mp member with ⟨rule, listed, rfl⟩
      rcases List.mem_flatMap.mp listed with ⟨entry, position, made⟩
      rcases List.mem_map.mp made with ⟨traffic, _, rfl⟩
      change entry.1 ∈ f.backends
      rw [(List.mem_zipIdx' position).2]
      exact List.getElem_mem _
    · intro member
      rcases List.mem_iff_getElem.mp member with ⟨i, inside, rfl⟩
      refine List.mem_map.mpr ⟨f.statisticRule (f.backends[i], i) first, ?_, rfl⟩
      exact List.mem_flatMap.mpr ⟨_, List.mk_mem_zipIdx_iff_getElem?.mpr (by simp [inside]), List.mem_map_of_mem (.head _)⟩
  | false =>
    have choice : f.Collapses g <-> lbExpr f.service g.lbMethod f.family g.caps = none := by simp [Collapses, delegated]
    rw [choice]
    cases target : dnatTarget (lbExpr f.service g.lbMethod f.family g.caps) f.backends with
    | none =>
      have empty : f.backends = [] := by
        by_contra ready
        rcases exists_dnatTarget (lbExpr f.service g.lbMethod f.family g.caps) ready with ⟨_, some_⟩
        simp [target] at some_
      simp [destinations, statisticRules_of_not_delegated delegated, nftRules_of_empty empty, empty]
    | some target_ =>
      rw [mem_destinations_of_target delegated target]
      rcases backends : f.backends with _ | ⟨first, _ | ⟨second, rest⟩⟩
      · simp [backends, dnatTarget] at target
      · rw [backends] at target
        cases target
        simp [Target.selection, eq_comm]
      · rw [backends] at target
        cases lb : lbExpr f.service g.lbMethod f.family g.caps with
        | none =>
          rw [lb] at target
          cases target
          simp [Target.selection, eq_comm]
        | some lb_ =>
          rw [lb] at target
          cases target
          simp [Target.selection]

end Frontend

section
variable {g : Setting} {f : Frontend} {key inNamespace svcName : String} {svc : Service}

theorem backends_of_mem (member : f ∈ serviceFrontends g.walk g.enabled key svc)
    (parts : splitKey key = some (inNamespace, svcName)) :
    f.backends = backendsFor inNamespace svcName f.port f.family g.walk.endpointSlices := by
  unfold serviceFrontends at member
  rw [parts] at member
  split at member
  · next same =>
    cases same
    rcases List.mem_flatMap.mp member with ⟨clusterIp, _, inside⟩
    split_ifs at inside
    · cases inside
    · cases inside
    · rcases List.mem_map.mp inside with ⟨port, _, rfl⟩
      rfl
  · cases member

/-- Every destination of a Service port is a ready address of a slice of its
own, with the port the slice publishes under its name or, where there is none,
with the only port of the slice; and every ready address with the published
port is one, unless the kernel cannot choose and one backend stands for all. -/
theorem port_destinations (member : f ∈ serviceFrontends g.walk g.enabled key svc)
    (parts : splitKey key = some (inNamespace, svcName)) :
    (forall addr n, (addr, n) ∈ f.destinations g -> Exists fun slice => slice ∈ g.walk.endpointSlices ∧
      Owned inNamespace svcName f.family slice ∧ Ready slice addr ∧
        ((publishedPort f.port slice).bind EndpointPort.port = some n ∨
          publishedPort f.port slice = none ∧ (slice.ports.getD []).length = 1)) ∧
      (forall addr n slice, slice ∈ g.walk.endpointSlices -> Owned inNamespace svcName f.family slice -> Ready slice addr ->
        (publishedPort f.port slice).bind EndpointPort.port = some n -> ¬ f.Collapses g -> (addr, n) ∈ f.destinations g) ∧
      (f.Collapses g -> forall backend, backend ∈ f.destinations g <-> f.backends.head? = some backend) := by
  have backends := backends_of_mem member parts
  have gathered (addr : String) (n : Int) : (addr, n) ∈ f.backends <-> Exists fun slice => slice ∈ g.walk.endpointSlices ∧
      Owned inNamespace svcName f.family slice ∧ Ready slice addr ∧
        (matchedPort f.port (slice.ports.getD [])).bind EndpointPort.port = some n := by
    rw [backends, backendsFor_eq, List.mem_flatMap]
    simp only [List.mem_filter, decide_eq_true_eq, mem_contribution, and_assoc]
  refine ⟨?_, ?_, fun collapses backend => (Frontend.mem_destinations backend).2 collapses⟩
  · intro addr n reached
    have inside : (addr, n) ∈ f.backends := by
      by_cases collapses : f.Collapses g
      · exact List.mem_of_mem_head? (((Frontend.mem_destinations _).2 collapses).mp reached)
      · exact ((Frontend.mem_destinations _).1 collapses).mp reached
    rcases (gathered addr n).mp inside with ⟨slice, listed, owned, ready, number⟩
    refine ⟨slice, listed, owned, ready, ?_⟩
    rw [matchedPort_eq] at number
    cases published : publishedPort f.port slice with
    | some found =>
      rw [published] at number
      exact Or.inl number
    | none =>
      rw [published] at number
      by_cases only : (slice.ports.getD []).length = 1
      · exact Or.inr ⟨rfl, only⟩
      · simp [only] at number
  · intro addr n slice listed owned ready number chooses
    refine ((Frontend.mem_destinations _).1 chooses).mpr ((gathered addr n).mpr ⟨slice, listed, owned, ready, ?_⟩)
    rw [matchedPort_eq]
    cases published : publishedPort f.port slice with
    | some found =>
      rw [published] at number
      exact number
    | none => simp [published] at number

end

/-- The second endpoint of the Service, on a kernel with the statistic match. -/
theorem webFrontend_destinations : ("10.244.2.7", 8080) ∈ webFrontend.destinations (webSetting .random) := by
  have member : webFrontend ∈ serviceFrontends (webSetting .random).walk (webSetting .random).enabled "shop/web"
      webFrontService := by decide +kernel
  have parts : splitKey "shop/web" = some ("shop", "web") := by decide +kernel
  refine (port_destinations member parts).2.1 _ _ webEndpoints (.head _) (by decide +kernel) ?_ (by decide +kernel) ?_
  · exact ⟨_, .tail _ (.head _), rfl, .head _⟩
  · exact fun collapses => absurd collapses.1 (by decide +kernel)

/-- On a kernel with nothing to choose by, the second endpoint is not reached;
and a port that no slice publishes leads to the port of another name. -/
theorem bareKernel_collapses :
    (Ready webEndpoints "10.244.2.7" ∧ (publishedPort webPort webEndpoints).bind EndpointPort.port = some 8080 ∧
      ("10.244.2.7", 8080) ∉ webFrontend.destinations
        { webSetting .random with caps := ⟨false, false, false, false, false⟩ }) ∧
      publishedPort { webPort with name := some "metrics" } webEndpoints = none ∧
      backendsFor "shop" "web" { webPort with name := some "metrics" } .v4 [webEndpoints] = webFrontend.backends := by
  refine ⟨⟨⟨_, .tail _ (.head _), rfl, .head _⟩, ?_, ?_⟩, ?_, ?_⟩ <;> decide +kernel

/-! ## Clients that are to stay where they are -/

/-- The backend a target sends a client to, if it goes by the client. -/
def Target.backendOf (clientHash : Nat) : Target -> Option Backend
  | .bare backend => some backend
  | .map (.jhash _) backends => backends[clientHash % backends.length]?
  | .map _ _ => none

/-- A port of a Service, as the loops of the generator find it. -/
def portFrontend (svc : Service) (clusterIp inNamespace svcName : String) (family : Family) (port : ServicePort)
    (slices : List EndpointSlice) : Frontend where
  service := svc
  clusterIp := clusterIp
  family := family
  port := port
  backends := backendsFor inNamespace svcName port family slices

/-- In any two states with the same slices of the Service, in any order and
among any others, the rules send every client to one backend. -/
def KeepsClients (svc : Service) (clusterIp inNamespace svcName : String) (family : Family) (port : ServicePort) (caps : Caps)
    (slices : List EndpointSlice) : Prop :=
  forall one two : List EndpointSlice,
    (one.filter fun slice => Owned inNamespace svcName family slice).Perm
      (slices.filter fun slice => Owned inNamespace svcName family slice) ->
    (two.filter fun slice => Owned inNamespace svcName family slice).Perm
      (slices.filter fun slice => Owned inNamespace svcName family slice) ->
    forall lbMethod lbMethod' localAddrs localAddrs' rule rule',
      rule ∈ (portFrontend svc clusterIp inNamespace svcName family port one).nftRules lbMethod caps localAddrs ->
      rule' ∈ (portFrontend svc clusterIp inNamespace svcName family port two).nftRules lbMethod' caps localAddrs' ->
      forall clientHash, rule.target.backendOf clientHash = rule'.target.backendOf clientHash

/-- What the slices of the Service add is the same list in any order, or at
least begins the same where nothing is hashed. -/
def Settled (caps : Caps) (contributions : List (List Backend)) : Prop :=
  forall first second, first ∈ contributions -> second ∈ contributions ->
    if caps.jhash then first ++ second = second ++ first
    else first ≠ [] -> second ≠ [] -> first.head? = second.head?

section
variable {Item Value : Type*} {add : Item -> List Value} {one two all : List Item}

theorem flatMap_perm (perm : one.Perm two)
    (commute : forall first second, first ∈ one -> second ∈ one -> add first ++ add second = add second ++ add first) :
    one.flatMap add = two.flatMap add := by
  induction perm with
  | nil => rfl
  | cons item _ ih => simp [ih fun first second a b => commute first second (.tail _ a) (.tail _ b)]
  | swap first second rest => simp [← List.append_assoc, commute second first]
  | trans perm _ ih ih' =>
    exact (ih commute).trans (ih' fun first second a b => commute first second (perm.mem_iff.mpr a) (perm.mem_iff.mpr b))

/-- What is put together begins with what one of the lists begins with. -/
theorem head_flatMap (filled : one.flatMap add ≠ []) :
    Exists fun item => item ∈ one ∧ add item ≠ [] ∧ (one.flatMap add).head? = (add item).head? := by
  induction one with
  | nil => exact absurd rfl filled
  | cons item rest ih =>
    by_cases empty : add item = []
    · rw [List.flatMap_cons, empty, List.nil_append] at filled ⊢
      rcases ih filled with ⟨other, listed, some_, head⟩
      exact ⟨other, .tail _ listed, some_, head⟩
    · exact ⟨item, .head _, empty, by rw [List.flatMap_cons, List.head?_append_of_ne_nil _ empty]⟩

theorem exists_front {first second : Item} (a : first ∈ all) (b : second ∈ all) (different : first ≠ second) :
    Exists fun rest => (first :: second :: rest).Perm all := by
  rcases List.append_of_mem a with ⟨before, after, rfl⟩
  have others : second ∈ before ++ after := by
    simp only [List.mem_append, List.mem_cons] at b ⊢
    rcases b with b | rfl | b
    · exact Or.inl b
    · exact absurd rfl different
    · exact Or.inr b
  rcases List.append_of_mem others with ⟨front, back, same⟩
  refine ⟨front ++ back, ?_⟩
  refine List.Perm.trans (List.Perm.cons first ?_) List.perm_middle.symm
  rw [same]
  exact List.perm_middle.symm

end

section
variable {svc : Service} {clusterIp inNamespace svcName : String} {family : Family} {port : ServicePort} {caps : Caps}
  {slices : List EndpointSlice}

/-- The rules of a port go by the client, or lead to the first backend. -/
theorem backendOf_rule (sticky : wantsClientIpAffinity svc = true) {lbMethod : LbMethod} {localAddrs : List String}
    {rule : NftRule}
    (member : rule ∈ (portFrontend svc clusterIp inNamespace svcName family port slices).nftRules lbMethod caps localAddrs)
    (clientHash : Nat) :
    let backends := backendsFor inNamespace svcName port family slices
    backends ≠ [] ∧ rule.target.backendOf clientHash =
      if caps.jhash then backends[clientHash % backends.length]? else backends.head? := by
  intro backends
  have delegated : (portFrontend svc clusterIp inNamespace svcName family port slices).delegated caps = false := by
    simp [Frontend.delegated, Caps.delegatesToStatistic, Frontend.sticky, portFrontend, sticky]
  have lb : lbExpr svc lbMethod family caps = if caps.jhash then some (.jhash family) else none := by
    simp [lbExpr, selectedMethod, sticky]
  unfold Frontend.nftRules at member
  rw [delegated, if_neg Bool.false_ne_true] at member
  simp only [portFrontend, lb] at member
  rw [show backendsFor inNamespace svcName port family slices = backends from rfl] at member
  generalize backends = backends at member ⊢
  rcases backends with _ | ⟨first, _ | ⟨second, rest⟩⟩
  · cases member
  · rcases List.mem_map.mp member with ⟨_, _, rfl⟩
    simp [Target.backendOf, Nat.mod_one]
  · cases jhash : caps.jhash with
    | true | false =>
      rw [jhash] at member
      rcases List.mem_map.mp member with ⟨_, _, rfl⟩
      exact ⟨List.cons_ne_nil _ _, rfl⟩

theorem exists_rule (sticky : wantsClientIpAffinity svc = true)
    (ready : backendsFor inNamespace svcName port family slices ≠ []) : Exists fun rule =>
      rule ∈ (portFrontend svc clusterIp inNamespace svcName family port slices).nftRules .random caps [] := by
  have delegated : (portFrontend svc clusterIp inNamespace svcName family port slices).delegated caps = false := by
    simp [Frontend.delegated, Caps.delegatesToStatistic, Frontend.sticky, portFrontend, sticky]
  rcases Frontend.exists_dnatTarget (lbExpr svc .random family caps) ready with ⟨target, isTarget⟩
  unfold Frontend.nftRules
  rw [delegated, if_neg Bool.false_ne_true]
  simp only [portFrontend, isTarget]
  exact ⟨_, .head _⟩

theorem agree_of_rules (sticky : wantsClientIpAffinity svc = true) {one two : List EndpointSlice} {some_ more : List Backend}
    (here : backendsFor inNamespace svcName port family one = some_)
    (there : backendsFor inNamespace svcName port family two = more) (longer : some_.length = more.length)
    (ready : some_ ≠ []) (answers : forall rule rule',
      rule ∈ (portFrontend svc clusterIp inNamespace svcName family port one).nftRules .random caps [] ->
      rule' ∈ (portFrontend svc clusterIp inNamespace svcName family port two).nftRules .random caps [] ->
      forall clientHash, rule.target.backendOf clientHash = rule'.target.backendOf clientHash) :
    if caps.jhash then some_ = more else some_.head? = more.head? := by
  have ready' : more ≠ [] := fun empty => ready (List.length_eq_zero_iff.mp (longer.trans (congrArg List.length empty)))
  rcases exists_rule sticky (here ▸ ready) with ⟨rule, member⟩
  rcases exists_rule sticky (there ▸ ready') with ⟨rule', member'⟩
  have sent := answers rule rule' member member'
  simp only [backendOf_rule sticky member, backendOf_rule sticky member', here, there] at sent
  split_ifs at sent ⊢ with jhash
  · refine List.ext_getElem? fun i => ?_
    by_cases inside : i < some_.length
    · have position := sent i
      rwa [← longer, Nat.mod_eq_of_lt inside] at position
    · rw [List.getElem?_eq_none (by omega), List.getElem?_eq_none (by omega)]
  · exact sent 0

theorem filter_owned {all : List EndpointSlice} (perm : all.Perm (slices.filter fun slice => Owned inNamespace svcName family slice)) :
    (all.filter fun slice => Owned inNamespace svcName family slice) = all :=
  List.filter_eq_self.mpr fun _ listed => (List.mem_filter.mp (perm.mem_iff.mp listed)).2

theorem settled_of_keepsClients (sticky : wantsClientIpAffinity svc = true)
    (keeps : KeepsClients svc clusterIp inNamespace svcName family port caps slices) :
    Settled caps ((slices.filter fun slice => Owned inNamespace svcName family slice).map (contribution port)) := by
  intro first second
  rw [List.mem_map, List.mem_map]
  rintro ⟨slice, listed, rfl⟩ ⟨other, listed', rfl⟩
  by_cases same : slice = other
  · rw [same]
    split_ifs
    · rfl
    · exact fun _ _ => rfl
  · rcases exists_front listed listed' same with ⟨rest, perm⟩
    have swapped := (List.Perm.swap slice other rest).trans perm
    have own := filter_owned perm
    have own' := filter_owned swapped
    have answers := keeps _ _ (own.symm ▸ perm) (own'.symm ▸ swapped) .random .random [] []
    have here := @backendsFor_eq inNamespace svcName port family (slice :: other :: rest)
    have there := @backendsFor_eq inNamespace svcName port family (other :: slice :: rest)
    rw [own] at here
    rw [own'] at there
    simp only [List.flatMap_cons, ← List.append_assoc] at here there
    by_cases ready : contribution port slice ++ contribution port other = []
    · simp [List.append_eq_nil_iff.mp ready]
    · have longer : forall a b c : List Backend, (a ++ b ++ c).length = (b ++ a ++ c).length := fun a b c => by
        simp only [List.length_append]
        omega
      have agree := agree_of_rules sticky here there (longer _ _ _) (by simp_all) answers
      split_ifs at agree ⊢
      · exact List.append_cancel_right agree
      · intro filled filled'
        simpa only [List.append_assoc, List.head?_append_of_ne_nil _ filled, List.head?_append_of_ne_nil _ filled'] using agree

/-- Every client keeps its backend exactly when the order of the slices does
not matter to the list. -/
theorem keepsClients_iff (sticky : wantsClientIpAffinity svc = true) :
    KeepsClients svc clusterIp inNamespace svcName family port caps slices <->
      Settled caps ((slices.filter fun slice => Owned inNamespace svcName family slice).map (contribution port)) := by
  constructor
  · exact settled_of_keepsClients sticky
  · intro settled one two perm perm' _ _ _ _ rule rule' member member' clientHash
    rcases backendOf_rule sticky member clientHash with ⟨ready, sent⟩
    rcases backendOf_rule sticky member' clientHash with ⟨ready', sent'⟩
    rw [sent, sent']
    rw [backendsFor_eq] at ready ready'
    rw [@backendsFor_eq _ _ _ _ one, @backendsFor_eq _ _ _ _ two]
    have known {all : List EndpointSlice} (perm : List.Perm all (slices.filter fun slice => Owned inNamespace svcName family slice))
        {slice : EndpointSlice} (listed : slice ∈ all) := List.mem_map_of_mem (f := contribution port) (perm.mem_iff.mp listed)
    split_ifs with jhash
    · rw [flatMap_perm (perm.trans perm'.symm) fun first second a b => by
        simpa [jhash] using settled _ _ (known perm a) (known perm b)]
    · rcases head_flatMap ready with ⟨first, listed, filled, head⟩
      rcases head_flatMap ready' with ⟨second, listed', filled', head'⟩
      rw [head, head']
      have begins := settled _ _ (known perm listed) (known perm' listed')
      rw [if_neg jhash] at begins
      exact begins filled filled'

end

/-- Two slices of one endpoint each. -/
def loneEndpoint (addr : String) : EndpointSlice :=
  { webEndpoints with endpoints := [{ addresses := [addr], ready := some true }] }

def stickyService : Service :=
  { webFrontService with spec := some { webSpec with sessionAffinity := some "ClientIP" } }

/-- One slice with both endpoints is a list of its own. -/
theorem oneSlice_keepsClients :
    KeepsClients stickyService "10.96.0.9" "shop" "web" .v4 webPort withoutNumgen [webEndpoints] := by
  refine (keepsClients_iff (by decide +kernel)).mpr fun first second one two => ?_
  rw [show (List.filter _ [webEndpoints]).map _ = [webFrontend.backends] by decide +kernel, List.mem_singleton] at one two
  rw [one, two]
  exact if_pos rfl ▸ rfl

/-- Two slices walked in either order send the first client to either. -/
theorem twoSlices_moveClients : ¬ KeepsClients stickyService "10.96.0.9" "shop" "web" .v4 webPort withoutNumgen
    [loneEndpoint "10.244.1.5", loneEndpoint "10.244.2.7"] := by
  intro keeps
  have same := settled_of_keepsClients (by decide +kernel) keeps [("10.244.1.5", 8080)] [("10.244.2.7", 8080)]
    (by decide +kernel) (by decide +kernel)
  revert same
  decide +kernel

end NotK8s.Nodeproxy
