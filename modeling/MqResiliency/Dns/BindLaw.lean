/-
# The rendered DNS is closed

An address record and its pointer are rendered together or not at all; what an
alias, a pointer or a zone names as its target has an address; one of the two
servers is the master of a zone and the other forwards it there (`Closed`,
`closed_of_rendered`). What a host is told agrees with that: its name leads to
its own address, and its resolver is a server's address on a network that both
are on (`facts_agree`).
-/
import MqResiliency.Dns.Bind
import MqResiliency.Dns.RecordsLaw

namespace MqResiliency
namespace Dns

open Py

variable {lower : Str → Str} {topo : Topology}

theorem of_liftDns {α : Type} {x : Except DnsError α} {a : α} (h : liftDns x = .ok a) : x = .ok a := by
  cases x with
  | error e => cases h
  | ok b => exact congrArg _ (Except.ok.inj h)

/-! ### Pointers -/

theorem rev_ok {ip rz owner : Str} (h : rev ip = .ok (rz, owner)) : ∃ a b c d, ip.splitOn '.' = [a, b, c, d] ∧
    owner = d ++ '.' :: (c ++ '.' :: (b ++ '.' :: (a ++ '.' :: ("in-addr".toList ++ '.' :: "arpa".toList)))) := by
  unfold rev at h
  split at h
  · rename_i a b c d hsplit
    obtain ⟨-, rfl⟩ := Prod.mk.inj (Except.ok.inj h)
    refine ⟨a, b, c, d, hsplit, ?_⟩
    simp only [List.append_assoc, List.cons_append]
    rfl
  · cases h

/-- An address has a pointer of its own. -/
theorem rev_injective {ip ip' rz rz' owner : Str} (h : rev ip = .ok (rz, owner)) (h' : rev ip' = .ok (rz', owner)) :
    ip = ip' := by
  obtain ⟨a, b, c, d, hsplit, howner⟩ := rev_ok h
  obtain ⟨a', b', c', d', hsplit', howner'⟩ := rev_ok h'
  have hparts : ∀ {s a b c d : Str}, s.splitOn '.' = [a, b, c, d] →
      (d ++ '.' :: (c ++ '.' :: (b ++ '.' :: (a ++ '.' :: ("in-addr".toList ++ '.' :: "arpa".toList))))).splitOn '.' =
        [d, c, b, a, "in-addr".toList, "arpa".toList] := by
    intro s a b c d hs
    have hdot : ∀ part ∈ [a, b, c, d], '.' ∉ part := fun part hpart => not_mem_of_mem_splitOn (hs ▸ hpart)
    rw [List.splitOn_append_cons_self_of_not_mem (hdot d (by simp)),
      List.splitOn_append_cons_self_of_not_mem (hdot c (by simp)),
      List.splitOn_append_cons_self_of_not_mem (hdot b (by simp)),
      List.splitOn_append_cons_self_of_not_mem (hdot a (by simp))]
    rfl
  have hsame := hparts hsplit
  rw [← howner, howner', hparts hsplit'] at hsame
  have htext : ip.splitOn '.' = ip'.splitOn '.' := by
    rw [hsplit, hsplit']
    grind
  calc ip = ['.'].intercalate (ip.splitOn '.') := (List.intercalate_splitOn '.').symm
    _ = ['.'].intercalate (ip'.splitOn '.') := by rw [htext]
    _ = ip' := List.intercalate_splitOn '.'

/-- Where the reverse zones were rendered, each address has a pointer. -/
theorem exists_rev {zs : Dict Str (List Record)} (h : reverseZones lower topo = .ok zs) {z name ip : Str}
    (ha : Owns lower topo z ⟨name, .a, ip⟩) : ∃ rz owner, rev ip = .ok (rz, owner) := by
  have hpointer : ∀ {name ip : Str} {cs : List (Str × Record)},
      (do return [← pointer name ip] : Except DnsError (List (Str × Record))) = .ok cs →
        ∃ rz owner, rev ip = .ok (rz, owner) := by
    intro name ip cs h
    obtain ⟨p, hp, -⟩ := of_bind_ok h
    obtain ⟨v, hv, -⟩ := of_bind_ok hp
    exact ⟨v.1, v.2, hv⟩
  obtain ⟨ps, hps, -⟩ := of_bind_ok h
  obtain ⟨recs, hrecs, hps⟩ := of_bind_ok hps
  obtain ⟨vipRecs, hvips, -⟩ := of_bind_ok hps
  cases ha with
  | iface hnode hzone hnic =>
    obtain ⟨cs, hcs⟩ := collect_ok hrecs _ (Dict.get?_eq_some.mp hnode)
    obtain ⟨zone, -, hcs⟩ := of_bind_ok hcs
    obtain ⟨ds, hds⟩ := collect_ok hcs _ (Dict.get?_eq_some.mp hnic)
    exact hpointer hds
  | vip hv =>
    obtain ⟨cs, hcs⟩ := collect_ok hvips _ hv
    exact hpointer hcs

/-- What is pointed to from an address has it. -/
theorem Points.owns {rz : Str} {r : Record} (h : Points lower topo rz r) :
    r.type = .ptr ∧ ∃ z ip, Owns lower topo z ⟨r.value, .a, ip⟩ ∧ rev ip = .ok (rz, r.name) := by
  cases h with
  | iface hnode hzone hnic hrev => exact ⟨rfl, _, _, .iface hnode hzone hnic, hrev⟩
  | vip hv hrev => exact ⟨rfl, _, _, .vip hv, hrev⟩

theorem Owns.points {z name ip rz owner : Str} (h : Owns lower topo z ⟨name, .a, ip⟩)
    (hrev : rev ip = .ok (rz, owner)) : Points lower topo rz ⟨owner, .ptr, name⟩ := by
  cases h with
  | iface hnode hzone hnic => exact .iface hnode hzone hnic hrev
  | vip hv => exact .vip hv hrev

/-! ### The two servers -/

/-- The servers found so far are nodes, each of its org. -/
def Found (topo : Topology) (found : Dict Str (Str × Node)) : Prop :=
  ∀ org p, found.get? org = some p → topo.nodes.get? p.1 = some p.2 ∧ orgOf p.2 = org

theorem found_of_infraFrom : ∀ {names : List Str} {found found' : Dict Str (Str × Node)},
    infraFrom topo.nodes names found = .ok found' → Found topo found → Found topo found'
  | [], found, found', h, hfound => Except.ok.inj h ▸ hfound
  | name :: names, found, found', h, hfound => by
    rw [infraFrom] at h
    split at h
    · cases h
    · rename_i spec hspec
      split at h
      · cases h
      · refine found_of_infraFrom h fun org p hp => ?_
        rw [Dict.get?_set] at hp
        split at hp
        · rename_i horg
          obtain rfl := Option.some.inj hp
          exact ⟨hspec, horg.symm⟩
        · exact hfound org p hp

/-- Each server is a node of its org. -/
structure Infra.Of (topo : Topology) (infra : Infra) : Prop where
  client : topo.nodes.get? infra.client.1 = some infra.client.2 ∧ orgOf infra.client.2 = "client".toList
  service : topo.nodes.get? infra.service.1 = some infra.service.2 ∧ orgOf infra.service.2 = "service".toList

theorem infra_of {infra : Infra} (h : infraByOrg topo = .ok infra) : infra.Of topo := by
  obtain ⟨found, hfound, h⟩ := of_bind_ok h
  have hnodes : Found topo found := found_of_infraFrom hfound fun org p hp => absurd hp (by simp)
  split at h
  · rename_i client service hclient hservice
    obtain rfl := Except.ok.inj h
    exact ⟨hnodes _ _ hclient, hnodes _ _ hservice⟩
  · cases h
  · cases h

theorem Infra.Of.ne {infra : Infra} (h : infra.Of topo) : infra.client.1 ≠ infra.service.1 := by
  intro heq
  have hspec : infra.client.2 = infra.service.2 := Option.some.inj (h.client.1.symm.trans (heq ▸ h.service.1))
  have horg : "client".toList = "service".toList := h.client.2.symm.trans (hspec ▸ h.service.2)
  exact absurd horg (by decide)

/-- A server's name as the target of its zones has an address. -/
theorem owns_of_nsFqdn (lower : Str → Str) {host ns : Str} {spec : Node} (hnode : topo.nodes.get? host = some spec)
    (h : nsFqdn host spec = .ok ns) : ∃ z ip, Owns lower topo z ⟨ns, .a, ip⟩ := by
  obtain ⟨plane, hplane, h⟩ := of_bind_ok h
  obtain ⟨zone, hzone, h⟩ := of_bind_ok h
  obtain rfl := Except.ok.inj h
  obtain ⟨ip, hip, -⟩ := mem_of_primaryPlane hplane
  exact ⟨zone, ip, .iface hnode hzone hip⟩

/-! ### What is rendered -/

/-- A zone that the one server is master of, and the other forwards to it. -/
def Served (master forward : List Stanza) (peer zone : Str) : Prop :=
  .master zone ∈ master ∧ .master zone ∉ forward ∧ .forward zone peer ∈ forward ∧ ∀ p, .forward zone p ∉ master

/-- The zones refer to what they have, and each has its server. -/
structure Closed (topo : Topology) (r : Rendered) : Prop where
  pointers : ∀ name ip, (∃ z, InZone r.forward z ⟨name, .a, ip⟩) ↔
    ∃ rz owner, rev ip = .ok (rz, owner) ∧ InZone r.reverse rz ⟨owner, .ptr, name⟩
  reverse : ∀ rz p, InZone r.reverse rz p → p.type = .ptr ∧
    ∃ z ip, InZone r.forward z ⟨p.value, .a, ip⟩ ∧ rev ip = .ok (rz, p.name)
  aliases : ∀ z p, InZone r.forward z p → p.type = .cname → ∃ ip, InZone r.forward z ⟨p.value, .a, ip⟩
  clientNs : ∃ z ip, InZone r.forward z ⟨r.clientNs, .a, ip⟩
  serviceNs : ∃ z ip, InZone r.forward z ⟨r.serviceNs, .a, ip⟩
  hosts : r.client ≠ r.service
  served : ∃ clientSpec serviceSpec clientExt serviceExt,
    topo.nodes.get? r.client = some clientSpec ∧ clientSpec.nics.get? "net-ext".toList = some clientExt ∧
    topo.nodes.get? r.service = some serviceSpec ∧ serviceSpec.nics.get? "net-ext".toList = some serviceExt ∧
    (∀ z, z = clientZone ∨ z ∈ r.reverse.keys → Served r.clientLocal r.serviceLocal clientExt z) ∧
    Served r.serviceLocal r.clientLocal serviceExt serviceZone

/-- A reverse zone is not one of the two forward zones. -/
theorem ne_of_rev {ip rz owner : Str} (h : rev ip = .ok (rz, owner)) : rz ≠ serviceZone := by
  unfold rev at h
  split at h
  · obtain ⟨rfl, -⟩ := Prod.mk.inj (Except.ok.inj h)
    intro heq
    have hlast := congrArg List.getLast? heq
    have harpa : ".in-addr.arpa".toList.getLast? = some 'a' := by decide
    have hcom : serviceZone.getLast? = some 'm' := by decide
    rw [List.getLast?_append, harpa, hcom, Option.some_or] at hlast
    exact absurd hlast (by decide)
  · cases h

theorem serviceZone_notMem {zs : Dict Str (List Record)} (h : reverseZones lower topo = .ok zs) :
    serviceZone ∉ clientZones zs := by
  intro hmem
  rcases List.mem_cons.mp hmem with heq | hmem
  · exact absurd heq (by decide)
  · obtain ⟨ps, hps, h⟩ := of_bind_ok h
    obtain rfl := Except.ok.inj h
    rw [← Dict.get?_isSome, Dict.get?_mapValues, Option.isSome_map, Dict.get?_isSome, Dict.mem_keys_pushes] at hmem
    rcases hmem with hmem | hmem
    · cases hmem
    · obtain ⟨p, hp, hz⟩ := List.mem_map.mp hmem
      obtain ⟨-, z, ip, -, hrev⟩ := ((mem_reverseRecords hps p.1 p.2).mp hp).owns
      exact ne_of_rev hrev hz

/-- **The rendered DNS is closed**, for every topology that renders. -/
theorem closed_of_rendered {r : Rendered} (h : rendered lower topo = .ok r) : Closed topo r := by
  obtain ⟨infra, hinfra, h⟩ := of_bind_ok h
  obtain ⟨clientNs, hclientNs, h⟩ := of_bind_ok h
  obtain ⟨serviceNs, hserviceNs, h⟩ := of_bind_ok h
  obtain ⟨fwd, hfwd, h⟩ := of_bind_ok h
  obtain ⟨rev, hrev, h⟩ := of_bind_ok h
  have hof := infra_of (of_liftDns hinfra)
  replace hfwd := of_liftDns hfwd
  replace hrev := of_liftDns hrev
  split at h
  · rename_i serviceExt clientExt hserviceExt hclientExt
    obtain rfl := Except.ok.inj h
    have hservice := serviceZone_notMem hrev
    exact {
      pointers := fun name ip => by
        constructor
        · rintro ⟨z, hz⟩
          have howns := (mem_forwardZones hfwd).mp hz
          obtain ⟨rz, owner, hip⟩ := exists_rev hrev howns
          exact ⟨rz, owner, hip, (mem_reverseZones hrev).mpr (howns.points hip)⟩
        · rintro ⟨rz, owner, hip, hptr⟩
          obtain ⟨-, z, ip', howns, hip'⟩ := ((mem_reverseZones hrev).mp hptr).owns
          obtain rfl := rev_injective hip hip'
          exact ⟨z, (mem_forwardZones hfwd).mpr howns⟩
      reverse := fun rz p hp => by
        obtain ⟨htype, z, ip, howns, hip⟩ := ((mem_reverseZones hrev).mp hp).owns
        exact ⟨htype, z, ip, (mem_forwardZones hfwd).mpr howns, hip⟩
      aliases := fun z p hp htype => by
        cases (mem_forwardZones hfwd).mp hp with
        | iface => cases htype
        | vip => cases htype
        | host hnode hzone hprimary =>
          obtain ⟨ip, hip, -⟩ := mem_of_primaryPlane hprimary
          exact ⟨ip, (mem_forwardZones hfwd).mpr (.iface hnode hzone hip)⟩
      clientNs := by
        obtain ⟨z, ip, howns⟩ := owns_of_nsFqdn lower hof.client.1 (of_liftDns hclientNs)
        exact ⟨z, ip, (mem_forwardZones hfwd).mpr howns⟩
      serviceNs := by
        obtain ⟨z, ip, howns⟩ := owns_of_nsFqdn lower hof.service.1 (of_liftDns hserviceNs)
        exact ⟨z, ip, (mem_forwardZones hfwd).mpr howns⟩
      hosts := hof.ne
      served := by
        refine ⟨_, _, clientExt, serviceExt, hof.client.1, hclientExt, hof.service.1, hserviceExt, fun z hz => ?_, ?_⟩
        · have hmem : z ∈ clientZones rev := by simpa [clientZones] using hz
          have hne : z ≠ serviceZone := fun heq => hservice (heq ▸ hmem)
          simp [Served, hmem, hne]
        · simp [Served, hservice] }
  · cases h

/-- Two servers, a host of the client org, and a VIP. -/
def smallTopology : Topology where
  nodes := .ofList [("dns-a".toList, ⟨none, .ofList [("net-ext".toList, "10.1.0.2".toList)]⟩),
    ("dns-b".toList, ⟨some "service".toList, .ofList [("net-ext".toList, "10.1.0.3".toList)]⟩),
    ("app".toList, ⟨none, .ofList [("net-data-a".toList, "10.2.0.4".toList), ("net-ext".toList, "10.1.0.4".toList)]⟩)]
  groups := .ofList [("infra".toList, ["dns-a".toList, "dns-b".toList])]
  labStacks := .ofList [("pcmk".toList, ⟨"pcmk".toList, .ofList [("vip".toList, "10.2.0.9".toList)]⟩)]

theorem exists_rendered : ∃ r, rendered id smallTopology = .ok r := by
  have hok : (rendered id smallTopology).isOk = true := by decide +kernel
  cases h : rendered id smallTopology with
  | error e => simp [h, Except.isOk, Except.toBool] at hok
  | ok r => exact ⟨r, rfl⟩

theorem smallTopology_closed : ∃ r, rendered id smallTopology = .ok r ∧ Closed smallTopology r := by
  obtain ⟨r, hr⟩ := exists_rendered
  exact ⟨r, hr, closed_of_rendered hr⟩

/-! ### Hosts -/

/-- What a host with interfaces is told, by what is rendered. -/
structure Told (topo : Topology) (r : Rendered) (host : Str) (spec : Node) (f : HostFacts) : Prop where
  self : ∃ z target, InZone r.forward z ⟨f.fqdn, .cname, target⟩ ∧ InZone r.forward z ⟨target, .a, f.selfIp⟩
  loopback : host = r.client ∨ host = r.service → f.resolver = "127.0.0.1".toList
  server : host ≠ r.client → host ≠ r.service → ∃ server serverSpec plane,
    server = (if orgOf spec = "service".toList then r.service else r.client) ∧
    topo.nodes.get? server = some serverSpec ∧ plane ∈ spec.nics.keys ∧ serverSpec.nics.get? plane = some f.resolver

theorem Infra.Of.node {infra : Infra} (h : infra.Of topo) (org : Str) :
    topo.nodes.get? (infra.of org).1 = some (infra.of org).2 := by
  unfold Infra.of
  split
  · exact h.service.1
  · exact h.client.1

/-- The resolver of a host that is no server is on a network of the host. -/
theorem mem_of_resolverIp {infra : Infra} {host ip : Str} {spec : Node} (h : resolverIp host spec infra = .ok ip)
    (hclient : host ≠ infra.client.1) (hservice : host ≠ infra.service.1) :
    ∃ plane ∈ spec.nics.keys, (infra.of (orgOf spec)).2.nics.get? plane = some ip := by
  unfold resolverIp at h
  rw [if_neg (by simp [hclient, hservice])] at h
  dsimp only at h
  split at h
  · rename_i plane hfind
    obtain rfl := Except.ok.inj h
    have hshared : plane ∈ spec.nics.keys ∧ plane ∈ (infra.of (orgOf spec)).2.nics.keys := by
      simpa using List.find?_some hfind
    obtain ⟨ip, hip⟩ := Option.isSome_iff_exists.mp (Dict.get?_isSome.mpr hshared.2)
    exact ⟨plane, hshared.1, by rw [hip]; rfl⟩
  · cases h

/-- What `factsOf` gives is for the host, and right. -/
theorem told_of_factsOf {r : Rendered} {infra : Infra} {fwd : Dict Str (List Record)} {host : Str} {spec : Node}
    {fs : List (Str × HostFacts)} (hof : infra.Of topo) (hclient : r.client = infra.client.1)
    (hservice : r.service = infra.service.1) (hforward : r.forward = fwd) (hfwd : forwardZones lower topo = .ok fwd)
    (hnode : topo.nodes.get? host = some spec) (h : factsOf infra host spec = .ok fs) :
    (spec.nics.items = [] ∧ fs = []) ∨ ∃ f, fs = [(host, f)] ∧ Told topo r host spec f := by
  unfold factsOf at h
  split at h
  · rename_i hnil
    exact .inl ⟨hnil, (Except.ok.inj h).symm⟩
  · obtain ⟨primary, hprimary, h⟩ := of_bind_ok h
    obtain ⟨resolver, hresolver, h⟩ := of_bind_ok h
    obtain ⟨zone, hzone, h⟩ := of_bind_ok h
    obtain rfl := Except.ok.inj h
    obtain ⟨ip, hip, -⟩ := mem_of_primaryPlane hprimary
    refine .inr ⟨_, rfl, ?_, ?_, ?_⟩
    · refine ⟨zone, ifaceName host primary zone, ?_, ?_⟩
      · rw [hforward]
        exact (mem_forwardZones hfwd).mpr (.host hnode hzone hprimary)
      · rw [hforward, hip]
        exact (mem_forwardZones hfwd).mpr (.iface hnode hzone hip)
    · intro hserver
      rw [hclient, hservice] at hserver
      rw [resolverIp, if_pos hserver] at hresolver
      exact (Except.ok.inj hresolver).symm
    · intro hne hne'
      rw [hclient] at hne
      rw [hservice] at hne'
      obtain ⟨plane, hplane, hget⟩ := mem_of_resolverIp hresolver hne hne'
      refine ⟨(infra.of (orgOf spec)).1, _, plane, ?_, hof.node _, hplane, hget⟩
      rw [hclient, hservice, Infra.of]
      split <;> rfl

/-- **Hosts are told what is rendered**: each with interfaces has its facts, and
they agree with the zones. -/
theorem facts_agree {r : Rendered} {facts : Dict Str HostFacts} (h : rendered lower topo = .ok r)
    (hfacts : hostDnsFacts topo = .ok facts) :
    (∀ host, host ∈ facts.keys ↔ ∃ spec, topo.nodes.get? host = some spec ∧ spec.nics.items ≠ []) ∧
    ∀ host f, facts.get? host = some f → ∃ spec, topo.nodes.get? host = some spec ∧ Told topo r host spec f := by
  obtain ⟨infra, hinfra, h⟩ := of_bind_ok h
  obtain ⟨clientNs, -, h⟩ := of_bind_ok h
  obtain ⟨serviceNs, -, h⟩ := of_bind_ok h
  obtain ⟨fwd, hfwd, h⟩ := of_bind_ok h
  obtain ⟨rev, -, h⟩ := of_bind_ok h
  obtain ⟨infra', hinfra', hfacts⟩ := of_bind_ok hfacts
  obtain rfl := Except.ok.inj ((of_liftDns hinfra).symm.trans hinfra')
  obtain ⟨fs, hfs, hfacts⟩ := of_bind_ok hfacts
  obtain rfl := Except.ok.inj hfacts
  split at h
  · have hr := Except.ok.inj h
    have htold : ∀ p ∈ topo.nodes.items, ∀ cs, factsOf infra p.1 p.2 = .ok cs →
        (p.2.nics.items = [] ∧ cs = []) ∨ ∃ f, cs = [(p.1, f)] ∧ Told topo r p.1 p.2 f := fun p hp cs hcs =>
      told_of_factsOf (infra_of hinfra') (by rw [← hr]) (by rw [← hr]) (by rw [← hr]) (of_liftDns hfwd)
        (Dict.get?_eq_some.mpr hp) hcs
    constructor
    · intro host
      rw [Dict.mem_keys_ofList, List.mem_map]
      constructor
      · rintro ⟨q, hq, rfl⟩
        obtain ⟨p, hp, cs, hcs, hmem⟩ := (mem_collect hfs q).mp hq
        rcases htold p hp cs hcs with ⟨-, rfl⟩ | ⟨f, rfl, -⟩
        · cases hmem
        · obtain rfl := List.mem_singleton.mp hmem
          refine ⟨p.2, Dict.get?_eq_some.mpr hp, fun hnil => ?_⟩
          rw [factsOf, if_pos hnil] at hcs
          cases hcs
      · rintro ⟨spec, hspec, hne⟩
        have hp := Dict.get?_eq_some.mp hspec
        obtain ⟨cs, hcs⟩ := collect_ok hfs _ hp
        rcases htold _ hp cs hcs with ⟨hnil, -⟩ | ⟨f, rfl, -⟩
        · exact absurd hnil hne
        · exact ⟨(host, f), (mem_collect hfs _).mpr ⟨_, hp, _, hcs, List.mem_singleton_self _⟩, rfl⟩
    · intro host f hf
      obtain ⟨before, after, heq, -⟩ := (Dict.get?_ofList_eq_some _).mp hf
      obtain ⟨p, hp, cs, hcs, hmem⟩ := (mem_collect hfs (host, f)).mp (heq ▸ by simp)
      rcases htold p hp cs hcs with ⟨-, rfl⟩ | ⟨f', rfl, htold⟩
      · cases hmem
      · obtain ⟨rfl, rfl⟩ := Prod.mk.inj (List.mem_singleton.mp hmem)
        exact ⟨p.2, Dict.get?_eq_some.mpr hp, htold⟩
  · cases h

theorem smallTopology_told : ∃ r facts, rendered id smallTopology = .ok r ∧ hostDnsFacts smallTopology = .ok facts ∧
    ∀ host f, facts.get? host = some f → ∃ spec, smallTopology.nodes.get? host = some spec ∧
      Told smallTopology r host spec f := by
  obtain ⟨r, hr⟩ := exists_rendered
  have hok : (hostDnsFacts smallTopology).isOk = true := by decide +kernel
  cases hfacts : hostDnsFacts smallTopology with
  | error e => simp [hfacts, Except.isOk, Except.toBool] at hok
  | ok facts => exact ⟨r, facts, hr, rfl, (facts_agree hr hfacts).2⟩

end Dns
end MqResiliency
