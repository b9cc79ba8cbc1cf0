/-
# The topology of the lab

What the lab's commands read of the effective topology (`stacks.py`,
`phases.py`, `topology.py`): the box role of each node, the hosts of each
group, the stacks by their groups, the commons, and the lever for huge pages.
A stack's members are the hosts of its groups, each once, in declared order
(`stackMembers`), and its VMs are these and the commons' hosts (`allVms`).
-/
import MqResiliency.Lib.Dict
import MqResiliency.Lib.Text

namespace MqResiliency
namespace Lab

open Py

/-- A node: the box role it declares. -/
structure Node : Type where
  box : Option Str
deriving DecidableEq

/-- An entry of `stacks`. -/
structure StackCfg : Type where
  osFamily : Option Str
  clusterGroup : Option Str
  groups : List Str
  drGroups : List Str
deriving DecidableEq

/-- The effective topology. -/
structure Topology : Type where
  nodes : Dict Str Node
  groups : Dict Str (List Str)
  labStacks : Dict Str StackCfg
  commons : List Str
  memoryBacking : Option Str
deriving DecidableEq

/-- `Stack.cluster_group`: an empty name is none. -/
def StackCfg.cluster (cfg : StackCfg) : Option Str := cfg.clusterGroup.filter (· ≠ [])

/-! ### Lists of hosts -/

/-- `if host not in members: members.append(host)`. -/
def addHost (members : List Str) (host : Str) : List Str :=
  if host ∈ members then members else members ++ [host]

/-- Hosts added to a list of members. -/
def addHosts (members hosts : List Str) : List Str := hosts.foldl addHost members

theorem mem_addHost {ms : List Str} {h g : Str} : g ∈ addHost ms h ↔ g ∈ ms ∨ g = h := by
  unfold addHost
  split
  · rename_i hm
    exact ⟨Or.inl, fun hg => hg.elim id fun he => he ▸ hm⟩
  · simp

theorem nodup_addHost {ms : List Str} (h : Str) (hms : ms.Nodup) : (addHost ms h).Nodup := by
  unfold addHost
  split
  · exact hms
  · rename_i hm
    exact List.nodup_append.mpr ⟨hms, List.nodup_singleton h, fun a ha b hb => by
      rintro rfl
      exact hm (List.mem_singleton.mp hb ▸ ha)⟩

theorem mem_addHosts {g : Str} : ∀ {hs ms : List Str}, g ∈ addHosts ms hs ↔ g ∈ ms ∨ g ∈ hs
  | [], ms => by simp [addHosts]
  | h :: hs, ms => by
    have ih : g ∈ addHosts (addHost ms h) hs ↔ g ∈ addHost ms h ∨ g ∈ hs := mem_addHosts
    rw [addHosts, List.foldl_cons, ← addHosts, ih, mem_addHost, List.mem_cons, or_assoc]

theorem nodup_addHosts : ∀ (hs : List Str) {ms : List Str}, ms.Nodup → (addHosts ms hs).Nodup
  | [], _, h => h
  | g :: hs, _, h => nodup_addHosts hs (nodup_addHost g h)

variable (topo : Topology)

/-- `all_groups.get(group, [])`. -/
def Topology.hosts (group : Str) : List Str := (topo.groups.get? group).getD []

/-- The hosts of some groups, each once, in declared order. -/
def Topology.hostsOf (groups : List Str) : List Str :=
  groups.foldl (fun ms g => addHosts ms (topo.hosts g)) []

theorem mem_foldl_hosts {h : Str} : ∀ {gs ms : List Str},
    h ∈ gs.foldl (fun ms g => addHosts ms (topo.hosts g)) ms ↔ h ∈ ms ∨ ∃ g ∈ gs, h ∈ topo.hosts g
  | [], ms => by simp
  | g :: gs, ms => by
    rw [List.foldl_cons, mem_foldl_hosts, mem_addHosts, List.exists_mem_cons_iff, or_assoc]

theorem Topology.mem_hostsOf {gs : List Str} {h : Str} :
    h ∈ topo.hostsOf gs ↔ ∃ g ∈ gs, h ∈ topo.hosts g := by
  unfold hostsOf
  rw [mem_foldl_hosts]
  simp

theorem nodup_foldl_hosts : ∀ (gs : List Str) {ms : List Str}, ms.Nodup →
    (gs.foldl (fun ms g => addHosts ms (topo.hosts g)) ms).Nodup
  | [], _, h => h
  | g :: gs, _, h => nodup_foldl_hosts gs (nodup_addHosts (topo.hosts g) h)

theorem Topology.nodup_hostsOf (gs : List Str) : (topo.hostsOf gs).Nodup :=
  nodup_foldl_hosts topo gs List.nodup_nil

/-! ### Stacks and commons -/

/-- `stack_members(name)`; `none` for an unknown stack. -/
def stackMembers (name : Str) : Option (List Str) :=
  (topo.labStacks.get? name).map fun cfg => topo.hostsOf cfg.groups

/-- `stack_dr_hosts(name)`. -/
def stackDrHosts (name : Str) : List Str :=
  ((topo.labStacks.get? name).map fun cfg => topo.hostsOf cfg.drGroups).getD []

/-- `stack_members_effective(name, no_dr)`. -/
def stackMembersEffective (name : Str) (noDr : Bool) : Option (List Str) :=
  (stackMembers topo name).map fun ms =>
    if noDr then ms.filter (· ∉ stackDrHosts topo name) else ms

/-- `_commons_members()`. -/
def commonsMembers : List Str := topo.hostsOf topo.commons

/-- `all_vms(stack, no_dr)`. -/
def allVms (name : Str) (noDr : Bool) : List Str :=
  addHosts ((stackMembersEffective topo name noDr).getD []) (commonsMembers topo)

theorem mem_allVms {name h : Str} {noDr : Bool} :
    h ∈ allVms topo name noDr ↔
      h ∈ (stackMembersEffective topo name noDr).getD [] ∨ h ∈ commonsMembers topo :=
  mem_addHosts

/-! ### The lever for huge pages -/

/-- `hugepages.enabled(topo)`; `none` where an unknown value is refused. -/
def hugepagesEnabled : Option Bool :=
  match topo.memoryBacking with
  | none => some false
  | some v => if v = "hugepages".toList then some true else none

end Lab
end MqResiliency
