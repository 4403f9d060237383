import Mathlib.Data.Rat.Floor
import NotK8s.Library.Text
import NotK8s.Nodeproxy.State

namespace NotK8s.Nodeproxy

open Library

/-!
# The two rule generators

The nft ruleset, and the chain that stands in for it where the kernel cannot
select among backends.  A rule is kept as what it is made of, and printed at
the end.  The maps of the state are walked in some order; it is the same for
both generators, and nothing is known of it.
-/

inductive IpFamily where
  | v4 | v6 | dual
  deriving DecidableEq

inductive LbMethod where
  | random | roundRobin | sourceHash
  deriving DecidableEq

inductive Family where
  | v4 | v6
  deriving DecidableEq

namespace Family

def nftWord : Family -> String
  | .v4 => "ip"
  | .v6 => "ip6"

def addressType : Family -> String
  | .v4 => "IPv4"
  | .v6 => "IPv6"

def of (ip : String) : Family :=
  if ip.toList.contains ':' then .v6 else .v4

end Family

def IpFamily.families : IpFamily -> List Family
  | .v4 => [.v4]
  | .v6 => [.v6]
  | .dual => [.v4, .v6]

/-- What the kernel's nftables and xtables can do. -/
structure Caps where
  fib : Bool
  numgen : Bool
  jhash : Bool
  statisticV4 : Bool
  statisticV6 : Bool
  deriving DecidableEq

namespace Caps

def statistic (caps : Caps) : Family -> Bool
  | .v4 => caps.statisticV4
  | .v6 => caps.statisticV6

def delegatesToStatistic (caps : Caps) (family : Family) (backends : Nat) (sticky : Bool) : Bool :=
  decide (backends > 1) && !caps.numgen && caps.statistic family && !sticky

end Caps

/-- The state as its maps are walked. -/
structure Walk where
  services : List (String × Service)
  endpointSlices : List EndpointSlice

/-! ## Backends -/

abbrev Backend :=
  String × Int

/-- The port of a slice that a Service port stands for. -/
def matchedPort (port : ServicePort) (ports : List EndpointPort) : Option EndpointPort :=
  match ports.find? fun p => p.name = port.name with
  | some found => some found
  | none => if ports.length = 1 then ports.head? else none

def sliceBackends (slice : EndpointSlice) (port : Int) : List Backend :=
  (slice.endpoints.filter fun ep => ep.ready.getD true).flatMap fun ep => ep.addresses.map fun addr => (addr, port)

def backendsFor (inNamespace svcName : String) (port : ServicePort) (family : Family) (slices : List EndpointSlice) :
    List Backend :=
  slices.flatMap fun slice =>
    if slice.metadata.inNamespace ≠ some inNamespace then []
    else if slice.addressType ≠ family.addressType then []
    else if (slice.metadata.labels.bind fun labels => labels.get "kubernetes.io/service-name") ≠ some svcName then []
    else
      match (matchedPort port (slice.ports.getD [])).bind EndpointPort.port with
      | some epPort => sliceBackends slice epPort
      | none => []

def wantsClientIpAffinity (svc : Service) : Bool :=
  (svc.spec.bind ServiceSpec.sessionAffinity) = some "ClientIP"

/-! ## Frontends -/

/-- A clusterIP and port of a Service, with the backends it has. -/
structure Frontend where
  service : Service
  clusterIp : String
  family : Family
  port : ServicePort
  backends : List Backend
  deriving DecidableEq

/-- The key of a Service, taken apart again. -/
def splitKey (key : String) : Option (String × String) :=
  (Text.splitOnce '/' key.toList).map fun parts => (String.ofList parts.1, String.ofList parts.2)

def clusterIpsOf (spec : ServiceSpec) : List String :=
  match spec.clusterIps.filter fun ips => !ips.isEmpty with
  | some ips => ips
  | none => spec.clusterIp.toList

/-- The frontends of one Service in the families that are enabled. -/
def serviceFrontends (walk : Walk) (enabled : Family -> Bool) (key : String) (svc : Service) : List Frontend :=
  match svc.spec, splitKey key with
  | some spec, some (inNamespace, name) =>
    (clusterIpsOf spec).flatMap fun clusterIp =>
      if clusterIp = "" || clusterIp = "None" then []
      else if !enabled (Family.of clusterIp) then []
      else
        (spec.ports.getD []).map fun port =>
          { service := svc, clusterIp := clusterIp, family := Family.of clusterIp, port := port,
            backends := backendsFor inNamespace name port (Family.of clusterIp) walk.endpointSlices }
  | _, _ => []

/-- The loops that both generators begin with. -/
def frontends (walk : Walk) (enabled : Family -> Bool) : List Frontend :=
  walk.services.flatMap fun entry => serviceFrontends walk enabled entry.1 entry.2

/-- The packets a rule is for: those to an address, or those to this node. -/
structure Traffic where
  family : Family
  address : Option String
  proto : String
  dport : Int
  deriving DecidableEq

namespace Frontend
variable (f : Frontend)

def proto : String :=
  String.ofList ((f.port.protocol.getD "TCP").toList.map Char.toLower)

def sticky : Bool :=
  wantsClientIpAffinity f.service

def delegated (caps : Caps) : Bool :=
  caps.delegatesToStatistic f.family f.backends.length f.sticky

def clusterTraffic : Traffic where
  family := f.family
  address := some f.clusterIp
  proto := f.proto
  dport := f.port.port

def nodePort : Option Int :=
  f.port.nodePort.filter fun p => p ≠ 0

/-- Without `fib` this node's addresses are matched one by one. -/
def nftTraffic (caps : Caps) (localAddrs : List String) : List Traffic :=
  f.clusterTraffic ::
    match f.nodePort with
    | none => []
    | some nodePort =>
      if caps.fib then [{ family := f.family, address := none, proto := f.proto, dport := nodePort }]
      else
        (localAddrs.filter fun addr => Family.of addr = f.family).map fun addr =>
          { family := f.family, address := some addr, proto := f.proto, dport := nodePort }

def statisticTraffic : List Traffic :=
  f.clusterTraffic ::
    match f.nodePort with
    | none => []
    | some nodePort => [{ family := f.family, address := none, proto := f.proto, dport := nodePort }]

end Frontend

/-! ## The nft ruleset -/

inductive Selector where
  | numgenRandom
  | numgenInc
  | jhash (family : Family)
  deriving DecidableEq

def Selector.render : Selector -> String
  | .numgenRandom => "numgen random"
  | .numgenInc => "numgen inc"
  | .jhash family => s!"jhash {family.nftWord} saddr"

/-- The method for a Service: its affinity overrides the proxy's. -/
def selectedMethod (svc : Service) (defaultMethod : LbMethod) : LbMethod :=
  if wantsClientIpAffinity svc then .sourceHash else defaultMethod

def lbExpr (svc : Service) (defaultMethod : LbMethod) (family : Family) (caps : Caps) : Option Selector :=
  match selectedMethod svc defaultMethod with
  | .random => if caps.numgen then some .numgenRandom else none
  | .roundRobin => if caps.numgen then some .numgenInc else none
  | .sourceHash => if caps.jhash then some (.jhash family) else none

inductive Target where
  | bare (backend : Backend)
  | map (lb : Selector) (backends : List Backend)
  deriving DecidableEq

def dnatTarget (lb : Option Selector) : List Backend -> Option Target
  | [] => none
  | [backend] => some (.bare backend)
  | first :: second :: rest =>
    match lb with
    | none => some (.bare first)
    | some lb => some (.map lb (first :: second :: rest))

/-- An address and port as a destination. -/
def renderDestination (backend : Backend) : String :=
  if backend.1.toList.contains ':' then s!"[{backend.1}]:{backend.2}" else s!"{backend.1}:{backend.2}"

def Target.render : Target -> String
  | .bare backend => renderDestination backend
  | .map lb backends =>
    let entries := String.intercalate ", " (backends.zipIdx.map fun (backend, i) => s!"{i} : {backend.1} . {backend.2}")
    s!"{lb.render} mod {backends.length} map \x7b {entries} \x7d"

structure NftRule where
  traffic : Traffic
  target : Target
  deriving DecidableEq

def NftRule.render (rule : NftRule) : String :=
  let f := rule.traffic.family.nftWord
  match rule.traffic.address with
  | some addr => s!"{f} daddr {addr} {rule.traffic.proto} dport {rule.traffic.dport} dnat to {rule.target.render}"
  | none => s!"fib daddr type local {rule.traffic.proto} dport {rule.traffic.dport} dnat {f} to {rule.target.render}"

/-- The rules of one frontend, unless the chain owns it. -/
def Frontend.nftRules (f : Frontend) (lbMethod : LbMethod) (caps : Caps) (localAddrs : List String) : List NftRule :=
  if f.delegated caps then []
  else
    match dnatTarget (lbExpr f.service lbMethod f.family caps) f.backends with
    | none => []
    | some target => (f.nftTraffic caps localAddrs).map fun traffic => { traffic := traffic, target := target }

/-- The rules of the `prerouting` and the `output` chain. -/
def nftRules (walk : Walk) (ipFamily : IpFamily) (lbMethod : LbMethod) (caps : Caps) (localAddrs : List String) :
    List NftRule :=
  (frontends walk ipFamily.families.contains).flatMap fun f => f.nftRules lbMethod caps localAddrs

def table : String :=
  "not_k8s_svc"

def buildRuleset (walk : Walk) (ipFamily : IpFamily) (lbMethod : LbMethod) (caps : Caps) (localAddrs : List String) :
    String :=
  let rules := nftRules walk ipFamily lbMethod caps localAddrs
  String.join
    ([s!"add table inet {table}\n", s!"flush table inet {table}\n",
        s!"add chain inet {table} prerouting \x7b type nat hook prerouting priority dstnat ; policy accept ; \x7d\n",
        s!"add chain inet {table} output \x7b type nat hook output priority -100 ; policy accept ; \x7d\n",
        s!"add chain inet {table} postrouting \x7b type nat hook postrouting priority srcnat ; policy accept ; \x7d\n",
        s!"add rule inet {table} postrouting ct status dnat masquerade\n"] ++
      rules.map (fun rule => s!"add rule inet {table} prerouting {rule.render}\n") ++
      rules.map fun rule => s!"add rule inet {table} output {rule.render}\n")

/-! ## The statistic chain -/

structure StatisticRule where
  traffic : Traffic
  /-- None takes whatever reaches the rule. -/
  probability : Option ℚ
  destination : Backend
  deriving DecidableEq

/-- A probability below one with eleven decimals. -/
def renderProbability (p : ℚ) : String :=
  let digits := Nat.toDigits 10 (p * 100000000000 + 1 / 2).floor.toNat
  "0." ++ String.ofList (List.replicate (11 - digits.length) '0' ++ digits)

def StatisticRule.render (rule : StatisticRule) : String :=
  let traffic :=
    match rule.traffic.address with
    | some addr => s!"-d {addr}"
    | none => "-m addrtype --dst-type LOCAL"
  let sel :=
    match rule.probability with
    | none => ""
    | some p => s!" -m statistic --mode random --probability {renderProbability p}"
  s!"-A NOTK8S-SVC {traffic} -p {rule.traffic.proto} --dport {rule.traffic.dport}{sel} -j DNAT --to-destination {renderDestination rule.destination}"

/-- The rules of one frontend, if the chain owns it. -/
def Frontend.statisticRules (f : Frontend) (caps : Caps) : List StatisticRule :=
  if !f.delegated caps then []
  else
    f.backends.zipIdx.flatMap fun (backend, i) =>
      let sel : Option ℚ :=
        if i + 1 = f.backends.length then none else some (1 / ((f.backends.length - i : Nat) : ℚ))
      f.statisticTraffic.map fun traffic => { traffic := traffic, probability := sel, destination := backend }

def statisticRules (walk : Walk) (ipFamily : IpFamily) (caps : Caps) (family : Family) : List StatisticRule :=
  if !ipFamily.families.contains family then []
  else (frontends walk fun other => other = family).flatMap fun f => f.statisticRules caps

def buildStatisticRuleset (walk : Walk) (ipFamily : IpFamily) (caps : Caps) (family : Family) : Option String :=
  let rules := statisticRules walk ipFamily caps family
  let lines := String.intercalate "\n" (rules.map StatisticRule.render)
  if rules.isEmpty then none else some s!"*nat\n:NOTK8S-SVC - [0:0]\n{lines}\nCOMMIT\n"

end NotK8s.Nodeproxy
