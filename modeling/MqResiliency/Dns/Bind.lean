/-
# The name servers of the lab

`bind.py`: the zone files and the two servers' configurations for a topology,
and what each host is told of its resolver. The server of the client org is
the master of its zone and of all reverse zones; each server forwards the
other's zones to it.
-/
import MqResiliency.Dns.Records

namespace MqResiliency
namespace Dns

open Py

/-- What `render` raises: a `DnsError`, or a `KeyError`. -/
inductive RenderError : Type where
  | dns (error : DnsError)
  | key (name : Str)
deriving DecidableEq

def liftDns {α : Type} (x : Except DnsError α) : Except RenderError α := x.mapError .dns

/-! ### The two servers -/

/-- `_org_of`. -/
def orgOf (spec : Node) : Str := if spec.org = some "service".toList then "service".toList else "client".toList

/-- The loop of `_infra_by_org`. -/
def infraFrom (nodes : Dict Str Node) : List Str → Dict Str (Str × Node) → Except DnsError (Dict Str (Str × Node))
  | [], found => .ok found
  | name :: names, found =>
    match nodes.get? name with
    | none => .error (.undefinedHost name)
    | some spec =>
      if (found.get? (orgOf spec)).isSome then .error (.moreInfra (orgOf spec))
      else infraFrom nodes names (found.set (orgOf spec) (name, spec))

/-- The two infra nodes; `infra[org]` is read of these orgs only. -/
structure Infra : Type where
  client : Str × Node
  service : Str × Node

/-- `_infra_by_org`. -/
def infraByOrg (topo : Topology) : Except DnsError Infra := do
  let found ← infraFrom topo.nodes ((topo.groups.get? "infra".toList).getD []) .empty
  match found.get? "client".toList, found.get? "service".toList with
  | some client, some service => return ⟨client, service⟩
  | none, _ => throw (.noInfra "client".toList)
  | _, none => throw (.noInfra "service".toList)

def Infra.of (infra : Infra) (org : Str) : Str × Node := if org = "service".toList then infra.service else infra.client

/-- `_ns_fqdn`. -/
def nsFqdn (host : Str) (spec : Node) : Except DnsError Str := do
  let plane ← primaryPlane host spec.nics
  return ifaceName host plane (← zoneOf spec)

/-! ### Files -/

/-- `_rr`. -/
def rr (r : Record) : Str :=
  r.name ++ ". IN ".toList ++ r.type.text ++ ' ' :: (if r.type = .a then r.value else r.value ++ ['.'])

/-- `_zone_file`. -/
def zoneFile (apex ns : Str) (records : List Record) : Str :=
  ['\n'].intercalate (["; ".toList ++ apex ++ " — generated by `mqlab dns render`; do not edit".toList,
    "$TTL 300".toList,
    "@ IN SOA ".toList ++ ns ++ ". hostmaster.".toList ++ apex ++ ". ( 1 3600 600 86400 300 )".toList,
    "@ IN NS ".toList ++ ns ++ ['.']] ++ records.map rr) ++ ['\n']

/-- A statement of `named.conf.local`. -/
inductive Stanza : Type where
  | master (zone : Str)
  | forward (zone peer : Str)
deriving DecidableEq

/-- `_zone_decl` and `_zone_forward`. -/
def Stanza.text : Stanza → Str
  | master zone => "zone \"".toList ++ zone ++ "\" \x7b type master; file \"/etc/bind/zones/".toList ++ zone ++
      ".zone\"; \x7d;".toList
  | forward zone peer => "zone \"".toList ++ zone ++ "\" \x7b type forward; forwarders \x7b ".toList ++ peer ++
      "; \x7d; \x7d;".toList

/-- `_named_options`. -/
def namedOptions : Str :=
  ("options \x7b\n    directory \"/var/cache/bind\";\n    recursion yes;\n    allow-query \x7b any; \x7d;\n" ++
    "    forwarders \x7b 192.168.121.1; \x7d;\n    forward only;\n    dnssec-validation no;\n" ++
    "    listen-on \x7b any; \x7d;\n    listen-on-v6 \x7b none; \x7d;\n\x7d;\n").toList

/-- What is rendered, before it is text. -/
structure Rendered : Type where
  client : Str
  service : Str
  clientNs : Str
  serviceNs : Str
  forward : Dict Str (List Record)
  reverse : Dict Str (List Record)
  clientLocal : List Stanza
  serviceLocal : List Stanza

section
variable (lower : Str → Str) (topo : Topology)

/-- The zones that the client org's server is master of. -/
def clientZones (rev : Dict Str (List Record)) : List Str := clientZone :: rev.keys

/-- The body of `render`. -/
def rendered : Except RenderError Rendered := do
  let infra ← liftDns (infraByOrg topo)
  let clientNs ← liftDns (nsFqdn infra.client.1 infra.client.2)
  let serviceNs ← liftDns (nsFqdn infra.service.1 infra.service.2)
  let fwd ← liftDns (forwardZones lower topo)
  let rev ← liftDns (reverseZones lower topo)
  match infra.service.2.nics.get? "net-ext".toList, infra.client.2.nics.get? "net-ext".toList with
  | some serviceExt, some clientExt =>
    return {
      client := infra.client.1
      service := infra.service.1
      clientNs := clientNs
      serviceNs := serviceNs
      forward := fwd
      reverse := rev
      clientLocal := (clientZones rev).map .master ++ [.forward serviceZone serviceExt]
      serviceLocal := .master serviceZone :: (clientZones rev).map fun z => .forward z clientExt }
  | _, _ => throw (.key "net-ext".toList)

/-- The text of `named.conf.local`. -/
def localText (stanzas : List Stanza) : Str := ['\n'].intercalate (stanzas.map Stanza.text) ++ ['\n']

/-- `render`. -/
def render : Except RenderError (Dict Str Str) := do
  let r ← rendered lower topo
  let file (zone : Str) : Str := zone ++ ".zone".toList
  return .ofList ([(file clientZone, zoneFile clientZone r.clientNs ((r.forward.get? clientZone).getD [])),
      (file serviceZone, zoneFile serviceZone r.serviceNs ((r.forward.get? serviceZone).getD []))] ++
    r.reverse.items.map (fun p => (file p.1, zoneFile p.1 r.clientNs p.2)) ++
    [("named.conf.local.".toList ++ r.client, localText r.clientLocal),
      ("named.conf.local.".toList ++ r.service, localText r.serviceLocal),
      ("named.conf.options.".toList ++ r.client, namedOptions),
      ("named.conf.options.".toList ++ r.service, namedOptions)])

end

/-! ### Hosts -/

/-- What a host is told. -/
structure HostFacts : Type where
  resolver : Str
  selfIp : Str
  fqdn : Str
deriving DecidableEq

/-- `_resolver_ip`. -/
def resolverIp (host : Str) (spec : Node) (infra : Infra) : Except DnsError Str :=
  if host = infra.client.1 ∨ host = infra.service.1 then .ok "127.0.0.1".toList
  else
    let (infraHost, infraSpec) := infra.of (orgOf spec)
    match primaryOrder.find? fun plane => plane ∈ spec.nics.keys ∧ plane ∈ infraSpec.nics.keys with
    | some plane => .ok ((infraSpec.nics.get? plane).getD [])
    | none => .error (.noSharedPlane host infraHost)

/-- The facts of one host; a host without interfaces is skipped. -/
def factsOf (infra : Infra) (host : Str) (spec : Node) : Except DnsError (List (Str × HostFacts)) :=
  if spec.nics.items = [] then .ok []
  else do
    let primary ← primaryPlane host spec.nics
    let resolver ← resolverIp host spec infra
    let zone ← zoneOf spec
    return [(host, ⟨resolver, (spec.nics.get? primary).getD [], hostName host zone⟩)]

/-- `host_dns_facts`. -/
def hostDnsFacts (topo : Topology) : Except DnsError (Dict Str HostFacts) := do
  let infra ← infraByOrg topo
  let facts ← collect (fun p => factsOf infra p.1 p.2) topo.nodes.items
  return .ofList facts

end Dns
end MqResiliency
