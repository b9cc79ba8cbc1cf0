/-
# Where the records come from

A record of a forward zone is that of an interface, of a bare host name or of a
VIP (`Owns`), and one of a reverse zone points from the address of an interface
or a VIP to its name (`Points`): these and no others are in the zones
(`mem_forwardZones`, `mem_reverseZones`).
-/
import MqResiliency.Dns.Records

namespace MqResiliency
namespace Dns

open Py

/-! ### Loops -/

theorem of_bind_ok {ε α β : Type} {x : Except ε α} {f : α → Except ε β} {b : β} (h : x >>= f = .ok b) :
    ∃ a, x = .ok a ∧ f a = .ok b := by
  cases x with
  | error e => cases h
  | ok a => exact ⟨a, rfl, h⟩

section
variable {ε α β : Type} {f : α → Except ε (List β)}

theorem collect_ok : ∀ {as : List α} {bs : List β}, collect f as = .ok bs → ∀ a ∈ as, ∃ cs, f a = .ok cs
  | [], _, _, _, ha => absurd ha List.not_mem_nil
  | a :: as, bs, h, a', ha => by
    obtain ⟨cs, hcs, h⟩ := of_bind_ok h
    obtain ⟨ds, hds, -⟩ := of_bind_ok h
    rcases List.mem_cons.mp ha with rfl | ha
    · exact ⟨cs, hcs⟩
    · exact collect_ok hds a' ha

theorem mem_collect : ∀ {as : List α} {bs : List β}, collect f as = .ok bs → ∀ b, b ∈ bs ↔
    ∃ a ∈ as, ∃ cs, f a = .ok cs ∧ b ∈ cs
  | [], _, h, b => by
    obtain rfl := Except.ok.inj h
    simp
  | a :: as, bs, h, b => by
    obtain ⟨cs, hcs, h⟩ := of_bind_ok h
    obtain ⟨ds, hds, h⟩ := of_bind_ok h
    obtain rfl := Except.ok.inj h
    rw [List.mem_append, mem_collect hds b, List.exists_mem_cons_iff, hcs]
    simp

end

/-! ### Names -/

theorem mem_of_primaryPlane {host plane : Str} {nics : Dict Str Str} (h : primaryPlane host nics = .ok plane) :
    ∃ ip, nics.get? plane = some ip ∧ plane ∈ primaryOrder := by
  unfold primaryPlane at h
  split at h
  · rename_i p hfind
    obtain rfl := Except.ok.inj h
    have hkey : p ∈ nics.keys := by simpa using List.find?_some hfind
    obtain ⟨ip, hip⟩ := Option.isSome_iff_exists.mp (Dict.get?_isSome.mpr hkey)
    exact ⟨ip, hip, List.mem_of_find?_eq_some hfind⟩
  · cases h

theorem zoneOf_ok {spec : Node} {zone : Str} (h : zoneOf spec = .ok zone) : zone = clientZone ∨ zone = serviceZone := by
  unfold zoneOf at h
  dsimp only at h
  split at h
  · rename_i z hz
    obtain rfl := Except.ok.inj h
    have hmem : z ∈ zones.map Prod.snd := by
      obtain ⟨l₁, l₂, heq, -⟩ := List.lookup_eq_some_iff.mp hz
      rw [heq]
      simp
    exact List.mem_pair.mp hmem
  · cases h

/-! ### Records -/

section
variable (lower : Str → Str) (topo : Topology)

/-- The records of a forward zone. -/
inductive Owns : Str → Record → Prop
  | iface {host zone plane ip : Str} {spec : Node} (node : topo.nodes.get? host = some spec) (org : zoneOf spec = .ok zone)
    (nic : spec.nics.get? plane = some ip) : Owns zone ⟨ifaceName host plane zone, .a, ip⟩
  | host {host zone plane : Str} {spec : Node} (node : topo.nodes.get? host = some spec) (org : zoneOf spec = .ok zone)
    (primary : primaryPlane host spec.nics = .ok plane) :
    Owns zone ⟨hostName host zone, .cname, ifaceName host plane zone⟩
  | vip {name ip : Str} (h : (name, ip) ∈ vips lower topo) : Owns clientZone ⟨name, .a, ip⟩

/-- The records of a reverse zone. -/
inductive Points : Str → Record → Prop
  | iface {host zone plane ip rz owner : Str} {spec : Node} (node : topo.nodes.get? host = some spec)
    (org : zoneOf spec = .ok zone) (nic : spec.nics.get? plane = some ip) (reversed : rev ip = .ok (rz, owner)) :
    Points rz ⟨owner, .ptr, ifaceName host plane zone⟩
  | vip {name ip rz owner : Str} (h : (name, ip) ∈ vips lower topo) (reversed : rev ip = .ok (rz, owner)) :
    Points rz ⟨owner, .ptr, name⟩

variable {lower topo}

/-- The records of a node. -/
theorem mem_nodeForward {host zone : Str} {spec : Node} {rs : List Record} (h : nodeForward host spec zone = .ok rs) :
    ∃ primary, primaryPlane host spec.nics = .ok primary ∧ ∀ r, r ∈ rs ↔
      (∃ plane ip, spec.nics.get? plane = some ip ∧ r = ⟨ifaceName host plane zone, .a, ip⟩) ∨
        r = ⟨hostName host zone, .cname, ifaceName host primary zone⟩ := by
  unfold nodeForward at h
  split at h
  · cases h
  · obtain ⟨primary, hprimary, h⟩ := of_bind_ok h
    obtain rfl := Except.ok.inj h
    refine ⟨primary, hprimary, fun r => ?_⟩
    rw [List.mem_append, List.mem_singleton, List.mem_map]
    refine or_congr_left ⟨?_, ?_⟩
    · rintro ⟨p, hp, rfl⟩
      exact ⟨p.1, p.2, Dict.get?_eq_some.mpr hp, rfl⟩
    · rintro ⟨plane, ip, hip, rfl⟩
      exact ⟨(plane, ip), Dict.get?_eq_some.mp hip, rfl⟩

theorem mem_forwardRecords {ps : List (Str × Record)} (h : forwardRecords lower topo = .ok ps) (z : Str) (r : Record) :
    (z, r) ∈ ps ↔ Owns lower topo z r := by
  obtain ⟨recs, hrecs, h⟩ := of_bind_ok h
  obtain rfl := Except.ok.inj h
  rw [List.mem_append, mem_collect hrecs, List.mem_map]
  constructor
  · rintro (⟨p, hp, cs, hcs, hmem⟩ | ⟨v, hv, heq⟩)
    · obtain ⟨zone, hzone, hcs⟩ := of_bind_ok hcs
      obtain ⟨rs, hrs, hcs⟩ := of_bind_ok hcs
      obtain rfl := Except.ok.inj hcs
      obtain ⟨r', hr', heq⟩ := List.mem_map.mp hmem
      obtain ⟨rfl, rfl⟩ := Prod.mk.inj heq
      have hnode : topo.nodes.get? p.1 = some p.2 := Dict.get?_eq_some.mpr hp
      obtain ⟨primary, hprimary, hiff⟩ := mem_nodeForward hrs
      rcases (hiff r').mp hr' with ⟨plane, ip, hip, rfl⟩ | rfl
      · exact .iface hnode hzone hip
      · exact .host hnode hzone hprimary
    · obtain ⟨rfl, rfl⟩ := Prod.mk.inj heq
      exact .vip hv
  · have hmem : ∀ {host : Str} {spec : Node} {zone : Str} (r : Record), topo.nodes.get? host = some spec →
        zoneOf spec = .ok zone → (∀ rs, nodeForward host spec zone = .ok rs → r ∈ rs) → ∃ p ∈ topo.nodes.items, ∃ cs,
          (do let zone ← zoneOf p.2; let recs ← nodeForward p.1 p.2 zone; return recs.map fun r => (zone, r)) =
            Except.ok cs ∧ (zone, r) ∈ cs := by
      intro host spec zone r hnode hzone hr
      have hp := Dict.get?_eq_some.mp hnode
      obtain ⟨cs, hcs⟩ := collect_ok hrecs _ hp
      refine ⟨_, hp, cs, hcs, ?_⟩
      obtain ⟨zone', hzone', hcs⟩ := of_bind_ok hcs
      obtain rfl := Except.ok.inj (hzone.symm.trans hzone')
      obtain ⟨rs, hrs, hcs⟩ := of_bind_ok hcs
      obtain rfl := Except.ok.inj hcs
      exact List.mem_map_of_mem (hr rs hrs)
    intro h
    cases h with
    | iface hnode hzone hip =>
      refine .inl (hmem _ hnode hzone fun rs hrs => ?_)
      obtain ⟨_, -, hiff⟩ := mem_nodeForward hrs
      exact (hiff _).mpr (.inl ⟨_, _, hip, rfl⟩)
    | host hnode hzone hprimary =>
      refine .inl (hmem _ hnode hzone fun rs hrs => ?_)
      obtain ⟨primary, hprimary', hiff⟩ := mem_nodeForward hrs
      obtain rfl := Except.ok.inj (hprimary.symm.trans hprimary')
      exact (hiff _).mpr (.inr rfl)
    | vip hv => exact .inr ⟨_, hv, rfl⟩

theorem mem_reverseRecords {ps : List (Str × Record)} (h : reverseRecords lower topo = .ok ps) (rz : Str) (r : Record) :
    (rz, r) ∈ ps ↔ Points lower topo rz r := by
  have hpointer : ∀ {name ip : Str} {cs : List (Str × Record)},
      (do return [← pointer name ip] : Except DnsError (List (Str × Record))) = .ok cs →
        ∃ rz owner, rev ip = .ok (rz, owner) ∧ cs = [(rz, ⟨owner, .ptr, name⟩)] := by
    intro name ip cs h
    obtain ⟨p, hp, h⟩ := of_bind_ok h
    obtain ⟨v, hv, hp⟩ := of_bind_ok hp
    obtain rfl := Except.ok.inj h
    obtain rfl := Except.ok.inj hp
    exact ⟨v.1, v.2, hv, rfl⟩
  obtain ⟨recs, hrecs, h⟩ := of_bind_ok h
  obtain ⟨vipRecs, hvips, h⟩ := of_bind_ok h
  obtain rfl := Except.ok.inj h
  rw [List.mem_append, mem_collect hrecs, mem_collect hvips]
  constructor
  · rintro (⟨p, hp, cs, hcs, hmem⟩ | ⟨v, hv, cs, hcs, hmem⟩)
    · obtain ⟨zone, hzone, hcs⟩ := of_bind_ok hcs
      obtain ⟨nic, hnic, ds, hds, hmem⟩ := (mem_collect hcs _).mp hmem
      obtain ⟨rz', owner, hrev, rfl⟩ := hpointer hds
      obtain ⟨rfl, rfl⟩ := Prod.mk.inj (List.mem_singleton.mp hmem)
      exact .iface (Dict.get?_eq_some.mpr hp) hzone (Dict.get?_eq_some.mpr hnic) hrev
    · obtain ⟨rz', owner, hrev, rfl⟩ := hpointer hcs
      obtain ⟨rfl, rfl⟩ := Prod.mk.inj (List.mem_singleton.mp hmem)
      exact .vip hv hrev
  · intro h
    cases h with
    | iface hnode hzone hip hrev =>
      have hp := Dict.get?_eq_some.mp hnode
      obtain ⟨cs, hcs⟩ := collect_ok hrecs _ hp
      refine .inl ⟨_, hp, cs, hcs, ?_⟩
      obtain ⟨zone', hzone', hcs⟩ := of_bind_ok hcs
      obtain rfl := Except.ok.inj (hzone.symm.trans hzone')
      have hnic := Dict.get?_eq_some.mp hip
      obtain ⟨ds, hds⟩ := collect_ok hcs _ hnic
      refine (mem_collect hcs _).mpr ⟨_, hnic, ds, hds, ?_⟩
      obtain ⟨rz', owner', hrev', rfl⟩ := hpointer hds
      obtain ⟨rfl, rfl⟩ := Prod.mk.inj (Except.ok.inj (hrev.symm.trans hrev'))
      exact List.mem_singleton_self _
    | vip hv hrev =>
      obtain ⟨cs, hcs⟩ := collect_ok hvips _ hv
      refine .inr ⟨_, hv, cs, hcs, ?_⟩
      obtain ⟨rz', owner', hrev', rfl⟩ := hpointer hcs
      obtain ⟨rfl, rfl⟩ := Prod.mk.inj (Except.ok.inj (hrev.symm.trans hrev'))
      exact List.mem_singleton_self _

/-! ### Zones -/

/-- The record is in the zone. -/
def InZone (zs : Dict Str (List Record)) (z : Str) (r : Record) : Prop := ∃ recs, zs.get? z = some recs ∧ r ∈ recs

theorem inZone_pushes {d : Dict Str (List Record)} {ps : List (Str × Record)} {z : Str} {r : Record} :
    InZone ((d.pushes ps).mapValues fun _ recs => sortedSet recs) z r ↔ r ∈ (d.get? z).getD [] ∨ (z, r) ∈ ps := by
  rw [← Dict.mem_pushes, InZone, Dict.get?_mapValues]
  cases (d.pushes ps).get? z with
  | none => simp
  | some recs => simp [mem_sortedSet]

/-- **The records of the forward zones.** -/
theorem mem_forwardZones {zs : Dict Str (List Record)} (h : forwardZones lower topo = .ok zs) {z : Str} {r : Record} :
    InZone zs z r ↔ Owns lower topo z r := by
  obtain ⟨ps, hps, h⟩ := of_bind_ok h
  obtain rfl := Except.ok.inj h
  rw [inZone_pushes, mem_forwardRecords hps]
  refine or_iff_right fun hmem => ?_
  -- the zones begin empty
  cases hz : (Dict.ofList (zones.map fun z => (z.2, ([] : List Record)))).get? z with
  | none => simp [hz] at hmem
  | some recs =>
    obtain ⟨before, after, heq, -⟩ := (Dict.get?_ofList_eq_some _).mp hz
    have hin : (z, recs) ∈ zones.map fun z => (z.2, ([] : List Record)) := heq ▸ by simp
    obtain ⟨_, -, heq⟩ := List.mem_map.mp hin
    rw [hz, Option.getD_some, ← (Prod.mk.inj heq).2] at hmem
    cases hmem

/-- **The records of the reverse zones.** -/
theorem mem_reverseZones {zs : Dict Str (List Record)} (h : reverseZones lower topo = .ok zs) {rz : Str} {r : Record} :
    InZone zs rz r ↔ Points lower topo rz r := by
  obtain ⟨ps, hps, h⟩ := of_bind_ok h
  obtain rfl := Except.ok.inj h
  rw [inZone_pushes, mem_reverseRecords hps]
  exact or_iff_right (by simp)

end

end Dns
end MqResiliency
