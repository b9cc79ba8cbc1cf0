/-
# No other record beside a CNAME

BIND refuses a zone in which a name has a CNAME record and any other. Names are
compared by their characters after `fold`: as they are, or in one case as in
DNS.

The forward zones are free of that if and only if no node is spelled like
another, like an interface of a node of its zone, or like a VIP
(`cnameAlone_iff`).
-/
import MqResiliency.Dns.RecordsLaw

namespace MqResiliency
namespace Dns

open Py

variable {lower : Str → Str} {fold : Char → Char} {topo : Topology}

/-- A name with a CNAME record has that one record. -/
def CnameAlone (fold : Char → Char) (zs : Dict Str (List Record)) : Prop :=
  ∀ z recs, zs.get? z = some recs → ∀ r ∈ recs, r.type = .cname →
    recs.filter (fun r' => r'.name.map fold = r.name.map fold) = [r]

/-- No node is spelled like another, like an interface or like a VIP of its zone. -/
structure SpelledApart (lower : Str → Str) (fold : Char → Char) (topo : Topology) : Prop where
  hosts : ∀ host host' spec spec', topo.nodes.get? host = some spec → topo.nodes.get? host' = some spec' →
    zoneOf spec = zoneOf spec' → host.map fold = host'.map fold → host = host'
  ifaces : ∀ host host' spec spec', topo.nodes.get? host = some spec → topo.nodes.get? host' = some spec' →
    zoneOf spec = zoneOf spec' → ∀ plane ∈ spec'.nics.keys, host.map fold ≠ (host' ++ '-' :: suffix plane).map fold
  vips : ∀ host spec, topo.nodes.get? host = some spec → zoneOf spec = .ok clientZone →
    ∀ v ∈ vips lower topo, (hostName host clientZone).map fold ≠ v.1.map fold

/-! ### Names -/

theorem map_hostName_eq {host host' zone : Str} :
    (hostName host zone).map fold = (hostName host' zone).map fold ↔ host.map fold = host'.map fold := by
  unfold hostName
  rw [List.map_append, List.map_append, List.append_left_inj]

theorem map_hostName_eq_ifaceName {host host' plane zone : Str} :
    (hostName host zone).map fold = (ifaceName host' plane zone).map fold ↔
      host.map fold = (host' ++ '-' :: suffix plane).map fold := by
  unfold hostName ifaceName
  rw [List.map_append, List.map_append, List.append_left_inj]

/-! ### Zones -/

theorem nodup_sortedSet (recs : List Record) : (sortedSet recs).Nodup :=
  (List.perm_insertionSort _ _).nodup_iff.mpr (List.nodup_dedup recs)

theorem nodup_of_forwardZones {zs : Dict Str (List Record)} (h : forwardZones lower topo = .ok zs) {z : Str}
    {recs : List Record} (hz : zs.get? z = some recs) : recs.Nodup := by
  obtain ⟨ps, -, h⟩ := of_bind_ok h
  obtain rfl := Except.ok.inj h
  rw [Dict.get?_mapValues] at hz
  obtain ⟨recs', -, rfl⟩ := Option.map_eq_some_iff.mp hz
  exact nodup_sortedSet recs'

/-- A list in which one element only satisfies `p`, and once. -/
theorem filter_eq_singleton {α : Type} {p : α → Bool} {a : α} {l : List α} (hl : l.Nodup) (ha : a ∈ l) (hp : p a) :
    l.filter p = [a] ↔ ∀ b ∈ l, p b → b = a := by
  constructor
  · intro h b hb hpb
    have hmem : b ∈ l.filter p := List.mem_filter.mpr ⟨hb, hpb⟩
    rw [h] at hmem
    exact List.mem_singleton.mp hmem
  · intro h
    have hperm : (l.filter p).Perm [a] := by
      refine (List.perm_ext_iff_of_nodup (hl.filter p) (List.nodup_singleton a)).mpr fun b => ?_
      rw [List.mem_filter, List.mem_singleton]
      exact ⟨fun hb => h b hb.1 hb.2, fun hb => hb ▸ ⟨ha, hp⟩⟩
    exact List.perm_singleton.mp hperm

/-- Where the zones were rendered, a node with a zone has a CNAME record there. -/
theorem exists_cname {zs : Dict Str (List Record)} (h : forwardZones lower topo = .ok zs) {host zone : Str} {spec : Node}
    (hnode : topo.nodes.get? host = some spec) (hzone : zoneOf spec = .ok zone) :
    ∃ plane, Owns lower topo zone ⟨hostName host zone, .cname, ifaceName host plane zone⟩ := by
  obtain ⟨ps, hps, -⟩ := of_bind_ok h
  obtain ⟨recs, hrecs, -⟩ := of_bind_ok hps
  obtain ⟨cs, hcs⟩ := collect_ok hrecs _ (Dict.get?_eq_some.mp hnode)
  obtain ⟨zone', hzone', hcs⟩ := of_bind_ok hcs
  obtain rfl := Except.ok.inj (hzone.symm.trans hzone')
  obtain ⟨rs, hrs, -⟩ := of_bind_ok hcs
  obtain ⟨plane, hplane, -⟩ := mem_nodeForward hrs
  exact ⟨plane, .host hnode hzone hplane⟩

/-- Where the zones were rendered, each node has a zone. -/
theorem exists_zone {zs : Dict Str (List Record)} (h : forwardZones lower topo = .ok zs) {host : Str} {spec : Node}
    (hnode : topo.nodes.get? host = some spec) : ∃ zone, zoneOf spec = .ok zone := by
  obtain ⟨ps, hps, -⟩ := of_bind_ok h
  obtain ⟨recs, hrecs, -⟩ := of_bind_ok hps
  obtain ⟨cs, hcs⟩ := collect_ok hrecs _ (Dict.get?_eq_some.mp hnode)
  obtain ⟨zone, hzone, -⟩ := of_bind_ok hcs
  exact ⟨zone, hzone⟩

/-- The rule, of the records by where they come from. -/
theorem cnameAlone_iff_owns {zs : Dict Str (List Record)} (h : forwardZones lower topo = .ok zs) : CnameAlone fold zs ↔
    ∀ z r r', Owns lower topo z r → r.type = .cname → Owns lower topo z r' → r'.name.map fold = r.name.map fold → r' = r := by
  constructor
  · intro halone z r r' hr hcname hr' hname
    obtain ⟨recs, hrecs, hmem⟩ := (mem_forwardZones h).mpr hr
    obtain ⟨recs', hrecs', hmem'⟩ := (mem_forwardZones h).mpr hr'
    obtain rfl := Option.some.inj (hrecs.symm.trans hrecs')
    have hone := (filter_eq_singleton (nodup_of_forwardZones h hrecs) hmem (by simp)).mp (halone z recs hrecs r hmem hcname)
    exact hone r' hmem' (by simpa using hname)
  · intro hall z recs hrecs r hmem hcname
    refine (filter_eq_singleton (nodup_of_forwardZones h hrecs) hmem (by simp)).mpr fun r' hmem' hname => ?_
    exact hall z r r' ((mem_forwardZones h).mp ⟨recs, hrecs, hmem⟩) hcname ((mem_forwardZones h).mp ⟨recs, hrecs, hmem'⟩)
      (by simpa using hname)

/-! ### Main result -/

theorem SpelledApart.alone (h : SpelledApart lower fold topo) {z : Str} {r r' : Record} (hr : Owns lower topo z r)
    (hcname : r.type = .cname) (hr' : Owns lower topo z r') (hname : r'.name.map fold = r.name.map fold) : r' = r := by
  cases hr with
  | iface => cases hcname
  | vip => cases hcname
  | host hnode hzone hprimary =>
    cases hr' with
    | iface hnode' hzone' hip =>
      have hkey := Dict.mem_keys_of_get? hip
      exact absurd (map_hostName_eq_ifaceName.mp hname.symm) (h.ifaces _ _ _ _ hnode hnode' (hzone.trans hzone'.symm) _ hkey)
    | host hnode' hzone' hprimary' =>
      obtain rfl := h.hosts _ _ _ _ hnode' hnode (hzone'.trans hzone.symm) (map_hostName_eq.mp hname)
      obtain rfl := Option.some.inj (hnode.symm.trans hnode')
      obtain rfl := Except.ok.inj (hprimary.symm.trans hprimary')
      rfl
    | vip hv => exact absurd hname.symm (h.vips _ _ hnode hzone _ hv)

/-- **When no other record is beside a CNAME.** `forward_zones` raises, or
returns zones that keep the rule, if and only if it raises or no node is spelled
like another, like an interface or like a VIP of its zone. -/
theorem cnameAlone_iff (lower : Str → Str) (fold : Char → Char) (topo : Topology) :
    (∀ zs, forwardZones lower topo = .ok zs → CnameAlone fold zs) ↔
      ∀ zs, forwardZones lower topo = .ok zs → SpelledApart lower fold topo := by
  refine forall_congr' fun zs => forall_congr' fun h => ?_
  rw [cnameAlone_iff_owns h]
  constructor
  · intro hall
    refine ⟨?_, ?_, ?_⟩
    · intro host host' spec spec' hnode hnode' hsame hname
      obtain ⟨zone, hzone⟩ := exists_zone h hnode
      obtain ⟨plane, howns⟩ := exists_cname h hnode hzone
      obtain ⟨plane', howns'⟩ := exists_cname h hnode' (hsame.symm.trans hzone)
      have heq := hall zone _ _ howns' rfl howns (map_hostName_eq.mpr hname)
      exact List.append_cancel_right (congrArg Record.name heq)
    · intro host host' spec spec' hnode hnode' hsame plane hplane hname
      obtain ⟨zone, hzone⟩ := exists_zone h hnode
      obtain ⟨primary, howns⟩ := exists_cname h hnode hzone
      obtain ⟨ip, hip⟩ := Option.isSome_iff_exists.mp (Dict.get?_isSome.mpr hplane)
      have howns' : Owns lower topo zone ⟨ifaceName host' plane zone, .a, ip⟩ := .iface hnode' (hsame.symm.trans hzone) hip
      have heq := hall zone _ _ howns rfl howns' (map_hostName_eq_ifaceName.mpr hname).symm
      cases congrArg Record.type heq
    · intro host spec hnode hzone v hv hname
      obtain ⟨primary, howns⟩ := exists_cname h hnode hzone
      have hvip : Owns lower topo clientZone ⟨v.1, .a, v.2⟩ := .vip hv
      have heq := hall clientZone _ _ howns rfl hvip hname.symm
      cases congrArg Record.type heq
  · exact fun hapart z r r' hr hcname hr' hname => hapart.alone hr hcname hr' hname

/-- A node that is called like the management interface of another. -/
def clash : Topology where
  nodes := .ofList [("app".toList, ⟨none, .ofList [("net-mgmt".toList, "10.50.0.60".toList)]⟩),
    ("app-mgmt".toList, ⟨none, .ofList [("net-mgmt".toList, "10.50.0.61".toList)]⟩)]
  groups := .empty
  labStacks := .empty

/-- `app-mgmt.client.com` has an A and a CNAME record. -/
theorem clash_not_alone : ¬ ∀ zs, forwardZones id clash = .ok zs → CnameAlone id zs := by
  intro hall
  obtain ⟨zs, hzs⟩ : ∃ zs, forwardZones id clash = .ok zs := ⟨_, rfl⟩
  obtain ⟨plane, hcname⟩ := exists_cname hzs (rfl : clash.nodes.get? "app-mgmt".toList = some _) (rfl : zoneOf _ = .ok clientZone)
  have haddress : Owns id clash clientZone ⟨ifaceName "app".toList "net-mgmt".toList clientZone, .a, "10.50.0.60".toList⟩ :=
    .iface (rfl : clash.nodes.get? "app".toList = some _) rfl rfl
  have heq := (cnameAlone_iff_owns hzs).mp (hall zs hzs) _ _ _ hcname rfl haddress rfl
  cases congrArg Record.type heq

end Dns
end MqResiliency
