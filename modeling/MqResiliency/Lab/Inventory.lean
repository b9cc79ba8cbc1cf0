/-
# The maps of the hosts: the inventory and the roster

`inventory.py` and `roster.py`: a topology as the inventory that Ansible reads
and as the roster that salt-ssh reads. Both are of the hosts of the groups, with
their addresses on `net-mgmt`; a stack is a group of groups in the one, and a
grain of its hosts in the other.
-/
import MqResiliency.Lab.Topology
import MqResiliency.Lib.Sections

namespace MqResiliency
namespace Inventory

open Py Lab

/-- A topology with the interfaces of its nodes. A node that is null has none
here, one whose `nics` are null has an empty dict. -/
structure Wired : Type extends Topology where
  nics : Dict Str (Dict Str (Option Str))

/-- What `InventoryError` and `RosterError` are raised for. -/
inductive MapError : Type where
  | undefinedHost (host : Str)
  | noAddress (host : Str)
  | undefinedGroup (stack group : Str)
deriving DecidableEq

/-- `str(exc)`. -/
def MapError.message : MapError → Str
  | undefinedHost host => "group references undefined host: ".toList ++ host
  | noAddress host => "host has no net-mgmt IP: ".toList ++ host
  | undefinedGroup stack group => "stack ".toList ++ stack ++ " references undefined group: ".toList ++ group

variable (topo : Wired)

/-- `_mgmt_ip`, the same in both modules. -/
def mgmtIp (host : Str) : Except MapError Str :=
  match topo.nics.get? host with
  | none => .error (.undefinedHost host)
  | some nics =>
    match (nics.get? "net-mgmt".toList).join.filter (· ≠ []) with
    | none => .error (.noAddress host)
    | some ip => .ok ip

/-- The check of a stack's groups, the same in both modules. -/
def checkGroups (stack : Str) (cfg : StackCfg) : Except MapError Unit :=
  match cfg.groups.find? (· ∉ topo.groups.keys) with
  | some group => .error (.undefinedGroup stack group)
  | none => .ok ()

/-! ### The inventory -/

/-- `_stack_group`. -/
def stackGroup (stack : Str) : Str := stack.map fun c => if c = '-' then '_' else c

/-- The line of a host. -/
def hostLine (host ip : Str) : Str := host ++ " ansible_host=".toList ++ ip

/-- The section of a group. -/
def groupSection (group : Str × List Str) : Except MapError (Str × List Str) := do
  let lines ← group.2.mapM fun host => do return hostLine host (← mgmtIp topo host)
  return (group.1, lines)

/-- The title of a stack's section. -/
def childrenOf (group : Str) : Str := group ++ ":children".toList

/-- The section of a stack; a reserved stack has none. -/
def stackSection (stack : Str × StackCfg) : Except MapError (List (Str × List Str)) := do
  checkGroups topo stack.1 stack.2
  return if stack.2.groups = [] then [] else [(childrenOf (stackGroup stack.1), stack.2.groups)]

/-- The variables of all hosts. -/
def allVars : Str × List Str :=
  ("all:vars".toList, ["ansible_user=vagrant".toList,
    "ansible_ssh_private_key_file=~/.vagrant.d/insecure_private_key".toList,
    "ansible_ssh_common_args=-o StrictHostKeyChecking=no".toList,
    "ansible_python_interpreter=/usr/bin/python3".toList])

/-- The sections of the inventory. -/
def inventorySections : Except MapError (List (Str × List Str)) := do
  let ofGroups ← topo.groups.items.mapM (groupSection topo)
  let ofStacks ← topo.labStacks.items.mapM (stackSection topo)
  return ofGroups ++ ofStacks.flatten ++ [allVars]

/-- The line of a title. -/
def header (title : Str) : Str := '[' :: (title ++ [']'])

/-- `render_inventory`. -/
def renderInventory : Except MapError Str := do
  let ss ← inventorySections topo
  return ['\n'].intercalate (Sections.write header ss) ++ ['\n']

/-! ### The roster -/

/-- A host of the roster. -/
structure RosterEntry : Type where
  host : Str
  user : Str
  priv : Str
  isSudo : Bool
  rosterGroups : List Str
  rosterStacks : List Str
deriving DecidableEq

/-- `host_groups`. -/
def hostGroups : Dict Str (List Str) :=
  Dict.empty.pushes (topo.groups.items.flatMap fun group => group.2.map fun host => (host, group.1))

/-- `host_stacks[host]` for a host of these groups. -/
def hostStacks (groups : List Str) : List Str :=
  (topo.labStacks.items.filter fun stack => stack.2.groups.any (· ∈ groups)).map Prod.fst

/-- The entry of a host. -/
def rosterEntry (priv : Str) (host : Str × List Str) : Except MapError (Str × RosterEntry) := do
  let ip ← mgmtIp topo host.1
  return (host.1, ⟨ip, "vagrant".toList, priv, true, host.2, hostStacks topo host.2⟩)

/-- `render_roster`, before it is text; `priv` is the key's path. -/
def renderRoster (priv : Str) : Except MapError (Dict Str RosterEntry) := do
  let _ ← topo.labStacks.items.mapM fun stack => checkGroups topo stack.1 stack.2
  let entries ← (hostGroups topo).items.mapM (rosterEntry topo priv)
  return .ofList entries

end Inventory
end MqResiliency
