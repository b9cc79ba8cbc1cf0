/-
# The records of the lab's DNS

`dns.py`: the forward and reverse zones of a topology, from the interfaces of
its nodes and the VIPs of its stacks. `lower` is Python's `str.lower`.
-/
import Mathlib.Data.List.Dedup
import MqResiliency.Lib.Dict
import MqResiliency.Lib.Yaml

namespace MqResiliency
namespace Dns

open Py

/-! ### The topology -/

/-- A node, as far as DNS goes; its `nics` are addresses by plane. -/
structure Node : Type where
  org : Option Str
  nics : Dict Str Str
deriving DecidableEq

/-- A stack: its short name, empty where there is none, and its `qm`. -/
structure StackCfg : Type where
  short : Str
  qm : Dict Str Str
deriving DecidableEq

structure Topology : Type where
  nodes : Dict Str Node
  groups : Dict Str (List Str)
  labStacks : Dict Str StackCfg
deriving DecidableEq

/-! ### Records -/

inductive RecordType : Type where
  | a
  | cname
  | ptr
deriving DecidableEq

def RecordType.text : RecordType → Str
  | a => ['A']
  | cname => "CNAME".toList
  | ptr => "PTR".toList

/-- `Record`. -/
structure Record : Type where
  name : Str
  type : RecordType
  value : Str
deriving DecidableEq

/-- The order of the dataclass. -/
def Record.le (r s : Record) : Bool :=
  if r.name ≠ s.name then strLe r.name s.name
  else if r.type ≠ s.type then strLe r.type.text s.type.text
  else strLe r.value s.value

/-- `sorted(set(recs))`. -/
def sortedSet (recs : List Record) : List Record := recs.dedup.insertionSort fun r s => r.le s = true

theorem mem_sortedSet {r : Record} {recs : List Record} : r ∈ sortedSet recs ↔ r ∈ recs := by
  rw [sortedSet, List.mem_insertionSort, List.mem_dedup]

/-! ### Errors -/

/-- What `DnsError` is raised for. -/
inductive DnsError : Type where
  | badOrg (org : Str)
  | noPrimary (host : Str) (planes : List Str)
  | notIpv4 (ip : Str)
  | noNics (host : Str)
  | undefinedHost (host : Str)
  | moreInfra (org : Str)
  | noInfra (org : Str)
  | noSharedPlane (host infraHost : Str)
deriving DecidableEq

/-- `ZONES`. -/
def zones : List (Str × Str) := [("client".toList, "client.com".toList), ("service".toList, "service.com".toList)]

def clientZone : Str := "client.com".toList

def serviceZone : Str := "service.com".toList

/-- `str(exc)`. -/
def DnsError.message (printable : Char → Bool) : DnsError → Str
  | badOrg org => "node org must be one of ".toList ++ texts (sortedStrs (zones.map Prod.fst)) ++ ", got ".toList ++
      reprStr printable org
  | noPrimary host planes => "node ".toList ++ reprStr printable host ++ " has no primary-eligible interface: ".toList ++
      texts (sortedStrs planes)
  | notIpv4 ip => "not an IPv4 address: ".toList ++ reprStr printable ip
  | noNics host => "node ".toList ++ reprStr printable host ++ " has no nics".toList
  | undefinedHost host => "infra group references undefined host: ".toList ++ host
  | moreInfra org => "more than one infra node for org ".toList ++ reprStr printable org
  | noInfra org => "no infra node for org ".toList ++ reprStr printable org
  | noSharedPlane host infraHost => reprStr printable host ++ " shares no plane with its infra node ".toList ++
      reprStr printable infraHost
where
  texts (ts : List Str) : Str := '[' :: commas (ts.map (reprStr printable)) ++ [']']

/-! ### Names -/

/-- `_PRIMARY_ORDER`. -/
def primaryOrder : List Str := ["net-data-a".toList, "net-data-b".toList, "net-ext".toList, "net-mgmt".toList]

/-- `_suffix`. -/
def suffix (plane : Str) : Str := if "net-".toList <+: plane then plane.drop 4 else plane

/-- `_zone_of`. -/
def zoneOf (spec : Node) : Except DnsError Str :=
  let org := spec.org.getD "client".toList
  match zones.lookup org with
  | some zone => .ok zone
  | none => .error (.badOrg org)

/-- `_primary_plane`. -/
def primaryPlane (host : Str) (nics : Dict Str Str) : Except DnsError Str :=
  match primaryOrder.find? (· ∈ nics.keys) with
  | some plane => .ok plane
  | none => .error (.noPrimary host nics.keys)

/-- The name of an interface. -/
def ifaceName (host plane zone : Str) : Str := host ++ '-' :: suffix plane ++ '.' :: zone

/-- The bare name of a host. -/
def hostName (host zone : Str) : Str := host ++ '.' :: zone

/-- `_rev`. -/
def rev (ip : Str) : Except DnsError (Str × Str) :=
  match ip.splitOn '.' with
  | [a, b, c, d] =>
    let zone := c ++ '.' :: b ++ '.' :: a ++ ".in-addr.arpa".toList
    .ok (zone, d ++ '.' :: zone)
  | _ => .error (.notIpv4 ip)

/-! ### Zones -/

/-- What `f` gives for each, one after the other. -/
def collect {ε α β : Type} (f : α → Except ε (List β)) : List α → Except ε (List β)
  | [] => .ok []
  | a :: as => do
    let bs ← f a
    let cs ← collect f as
    return bs ++ cs

/-- `_node_forward`. -/
def nodeForward (host : Str) (spec : Node) (zone : Str) : Except DnsError (List Record) :=
  if spec.nics.items = [] then .error (.noNics host)
  else do
    let primary ← primaryPlane host spec.nics
    return spec.nics.items.map (fun p => ⟨ifaceName host p.1 zone, .a, p.2⟩) ++
      [⟨hostName host zone, .cname, ifaceName host primary zone⟩]

/-- The VIPs of a queue manager and their labels. -/
def vipLabels : List (Str × Str) := [("vip".toList, "vip-a".toList), ("vip_b".toList, "vip-b".toList),
  ("vip_ext".toList, "vip-ext-a".toList), ("vip_ext_b".toList, "vip-ext-b".toList)]

section
variable (lower : Str → Str) (topo : Topology)

/-- `_vips`. -/
def vips : List (Str × Str) := topo.labStacks.values.flatMap fun cfg =>
  let short := lower cfg.short
  if short = [] then []
  else vipLabels.filterMap fun p =>
    ((cfg.qm.get? p.1).filter (· ≠ [])).map fun ip => (short ++ '-' :: p.2 ++ '.' :: clientZone, ip)

/-- The records of the forward zones, each with its zone. -/
def forwardRecords : Except DnsError (List (Str × Record)) := do
  let recs ← collect (fun p => do
    let zone ← zoneOf p.2
    let recs ← nodeForward p.1 p.2 zone
    return recs.map fun r => (zone, r)) topo.nodes.items
  return recs ++ (vips lower topo).map fun v => (clientZone, ⟨v.1, .a, v.2⟩)

/-- `forward_zones`. -/
def forwardZones : Except DnsError (Dict Str (List Record)) := do
  let recs ← forwardRecords lower topo
  let empty : Dict Str (List Record) := .ofList (zones.map fun z => (z.2, []))
  return (empty.pushes recs).mapValues fun _ recs => sortedSet recs

/-- The PTR record of a name, with its zone. -/
def pointer (name ip : Str) : Except DnsError (Str × Record) := do
  let (zone, owner) ← rev ip
  return (zone, ⟨owner, .ptr, name⟩)

/-- The records of the reverse zones, each with its zone. -/
def reverseRecords : Except DnsError (List (Str × Record)) := do
  let recs ← collect (fun p => do
    let zone ← zoneOf p.2
    collect (fun nic => do return [← pointer (ifaceName p.1 nic.1 zone) nic.2]) p.2.nics.items) topo.nodes.items
  let vipRecs ← collect (fun v => do return [← pointer v.1 v.2]) (vips lower topo)
  return recs ++ vipRecs

/-- `reverse_zones`. -/
def reverseZones : Except DnsError (Dict Str (List Record)) := do
  let recs ← reverseRecords lower topo
  return (Dict.empty.pushes recs).mapValues fun _ recs => sortedSet recs

end

end Dns
end MqResiliency
