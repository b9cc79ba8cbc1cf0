/-
# The fleet of boxes

Which boxes there are, enumerated three ways: the fleet that this host builds
(`buildFleet`), the boxes that a build file needs (`boxesForBuild`), and the
box that each node of the topology boots (`nodeBoxes`), which follows the
stacks' instance records.

`resolvableBoxNames` are the names that the collection of unreferenced boxes
protects.
-/
import MqResiliency.Lab.Catalog
import MqResiliency.Lab.Topology

namespace MqResiliency
namespace Lab

open Py

/-- `_TOPOLOGY_FIX`. -/
def topologyFix : Str := "fix lab/topology.yaml".toList

section
variable (printable : Char → Bool) (topo : Topology) (cat : Catalog)

/-! ### Nodes -/

/-- `node_role(node, spec)`. -/
def nodeRole (node : Str) (spec : Node) : V Str :=
  match spec.box with
  | some (c :: role) => pure (c :: role)
  | _ => refuse ["node ".toList, node, ": declares no box role — give it `box: <role>` ".toList,
      "(a role under roles: in lab/versions.yaml) — ".toList, topologyFix]

/-- A stack that lists a host owns it, once. -/
def addOwner (stack : Str) (out : Dict Str (List Str)) (host : Str) : Dict Str (List Str) :=
  out.set host (addHost ((out.get? host).getD []) stack)

/-- The hosts of a stack's groups get it as an owner. -/
def addStackOwners (out : Dict Str (List Str)) (stack : Str × StackCfg) : Dict Str (List Str) :=
  stack.2.groups.foldl (fun out g => (topo.hosts g).foldl (addOwner stack.1) out) out

/-- `node_stacks(topo)`. -/
def nodeStacks : Dict Str (List Str) :=
  topo.labStacks.items.foldl (addStackOwners topo) (topo.nodes.mapValues fun _ _ => [])

/-- `owners[node]`. -/
def owners (node : Str) : List Str := ((nodeStacks topo).get? node).getD []

/-- `_known_role(node, role, catalog)`. -/
def knownRole (node role : Str) : V Str :=
  if (cat.roles.get? role).isSome then pure role
  else refuse ["node ".toList, node, ": box role ".toList, reprStr printable role,
    " is not in lab/versions.yaml roles (known: ".toList, commas (sortedStrs cat.roles.keys), ") — ".toList,
    topologyFix, " or add the role to lab/versions.yaml".toList]

/-- A role of a node that these stacks own. -/
def addRole (role : Str) (out : Dict Str (List Str)) (stack : Str) : Dict Str (List Str) :=
  out.set stack (addHost ((out.get? stack).getD []) role)

/-- The roles of the nodes, from `out` on. -/
def stackRolesFrom (out : Dict Str (List Str)) : List (Str × Node) → V (Dict Str (List Str))
  | [] => pure out
  | (node, spec) :: nodes => do
    let declared ← nodeRole node spec
    let role ← knownRole printable cat node declared
    if role ∈ sharedRoles then stackRolesFrom out nodes
    else stackRolesFrom ((owners topo node).foldl (addRole role) out) nodes

/-- `stack_roles(topo, catalog)`. -/
def stackRoles : V (Dict Str (List Str)) :=
  stackRolesFrom printable topo cat (topo.labStacks.mapValues fun _ _ => []) topo.nodes.items

/-- `stack_ref(stack, catalog)`; `records` reads the stacks' instance records. -/
def stackRef (records : Str → V (Option OsRef)) (stack : Str) : V OsRef := do
  let record ← records stack
  match record with
  | some os => pure os
  | none => cat.defaultOs printable stack

/-- The OS of each stack. -/
def stackRefs (records : Str → V (Option OsRef)) (out : Dict Str OsRef) :
    List (Str × StackCfg) → V (Dict Str OsRef)
  | [] => pure out
  | (stack, cfg) :: more => do
    let ref ← stackRef printable cat records stack
    if cfg.osFamily ≠ some ref.family then do
      let t ← ref.text
      refuse ["stack ".toList, stack, ": os_family ".toList,
        cfg.osFamily.elim "None".toList (reprStr printable),
        " disagrees with lab/versions.yaml (which resolves it to ".toList, t, ") — ".toList, topologyFix]
    else stackRefs records (out.set stack ref) more

/-- The OS that a node's box runs. -/
def nodeRef (refs : Dict Str OsRef) (node role : Str) : V OsRef :=
  if role ∈ sharedRoles then cat.sharedOs printable role
  else
    match owners topo node with
    | [stack] =>
      match refs.get? stack with
      | some ref => pure ref
      | none => throw .lookup
    | stacks' => refuse ["node ".toList, node, ": box role ".toList, reprStr printable role,
        " runs its stack's OS, so the node must belong to exactly one stack's groups (it is in: ".toList,
        if stacks' = [] then "none".toList else commas stacks', ") — ".toList, topologyFix]

/-- The box of each node. -/
def nodeBoxesFrom (refs : Dict Str OsRef) (out : Dict Str BoxEntry) :
    List (Str × Node) → V (Dict Str BoxEntry)
  | [] => pure out
  | (node, spec) :: nodes => do
    let declared ← nodeRole node spec
    let role ← knownRole printable cat node declared
    let ref ← nodeRef printable topo cat refs node role
    let b ← cat.box printable role ref
    nodeBoxesFrom refs (out.set node b) nodes

/-- `node_boxes(topo, catalog)`. -/
def nodeBoxes (records : Str → V (Option OsRef)) : V (Dict Str BoxEntry) := do
  let refs ← stackRefs printable cat records .empty topo.labStacks.items
  nodeBoxesFrom printable topo cat refs .empty topo.nodes.items

/-! ### The fleet of this host -/

/-- One locally built box. -/
structure BoxSpec : Type where
  name : Str
  builder : Str
  arch : Str
  cacheArtifact : Str
  hasManifestHash : Bool
  os : OsEntry
  role : Option Str
  bakeStem : Option Str
  mqBearing : Bool
  components : List Str
  runtimePin : Str
deriving DecidableEq

/-- `platforms.box_build_arch`. -/
def boxBuildArch (pin : Option Str) (facts : HostFacts) : Str :=
  match pin with
  | some (c :: arch) => c :: arch
  | _ => facts.arch

/-- `base_cache_artifact(base_box)`. -/
def baseCacheArtifact (baseBox : Str) : Str :=
  baseBox.map (fun c => if c = '/' then '-' else c) ++ ".box".toList

/-- `_fat_spec(entry, facts, runtime_pin)`. -/
def fatSpec (entry : BoxEntry) (facts : HostFacts) (runtimePin : Str) : BoxSpec :=
  let arch := boxBuildArch entry.os.archPin facts
  { name := entry.name
    builder := "lab/boxes/build-fatbox.sh".toList
    arch := arch
    cacheArtifact := entry.name ++ '-' :: arch ++ ".box".toList
    hasManifestHash := true
    os := entry.os
    role := some entry.role
    bakeStem := some entry.bakeStem
    mqBearing := entry.mqBearing
    components := entry.components
    runtimePin := runtimePin }

/-- `_base_spec(entry, facts)`. -/
def baseSpec (entry : OsEntry) (facts : HostFacts) : BoxSpec :=
  { name := entry.baseBox
    builder := "lab/boxes/rhel/build-box.sh".toList
    arch := boxBuildArch entry.archPin facts
    cacheArtifact := baseCacheArtifact entry.baseBox
    hasManifestHash := false
    os := entry
    role := none
    bakeStem := none
    mqBearing := false
    components := []
    runtimePin := [] }

/-- The catalog's entries, by the order of their references. -/
def sortedOses : List (OsRef × OsEntry) := cat.oses.items.insertionSort fun a b => a.1.le b.1 = true

/-- The RHEL base boxes of this host. -/
def baseFleet (facts : HostFacts) : Dict Str BoxSpec :=
  .ofList (((sortedOses cat).filter fun p => p.1.family = "rhel".toList ∧ hostCanRun p.2 facts).map
    fun p => (p.2.baseBox, baseSpec p.2 facts))

/-- `_build_fleet(facts, catalog, stack_roles)`. -/
def buildFleet (facts : HostFacts) (roles : Dict Str (List Str)) : V (Dict Str BoxSpec) := do
  let boxes ← cat.allBoxes printable (some facts) roles
  return boxes.foldl (fun fleet b => fleet.set b.name (fatSpec b facts cat.runtime.token))
    (baseFleet cat facts)

/-! ### The boxes of a build file -/

/-- The names of the shared roles' boxes. -/
def sharedNames : List Str → V (List Str)
  | [] => pure []
  | role :: roles => do
    let ref ← cat.sharedOs printable role
    let b ← cat.box printable role ref
    let names ← sharedNames roles
    return b.name :: names

/-- The names of some roles' boxes, on an OS. -/
def roleNames (ref : OsRef) : List Str → V (List Str)
  | [] => pure []
  | role :: roles => do
    let b ← cat.box printable role ref
    let names ← roleNames ref roles
    return b.name :: names

/-- Whether the build file covers a stack with this default. -/
def covers (build : BuildFile) (facts : HostFacts) (default : OsRef) : V Bool :=
  match build.os with
  | none => do
    let e ← cat.osEntry default
    return hostCanRun e facts
  | some ref => pure (ref.family = default.family)

/-- The names of the boxes of the stacks that the build file covers. -/
def coveredNames (build : BuildFile) (facts : HostFacts) : List (Str × List Str) → V (List Str)
  | [] => pure []
  | (stack, roles) :: more => do
    let spec ← cat.stackSpec printable stack
    let covered ← covers cat build facts spec.default
    if covered then do
      let ref ← cat.stackOs printable stack (some build) facts
      let names ← roleNames printable cat ref (sortedStrs roles)
      let others ← coveredNames build facts more
      return names ++ others
    else coveredNames build facts more

/-- `boxes_for_build(build, facts, catalog, stack_roles)`. -/
def boxesForBuild (build : BuildFile) (facts : HostFacts) (roles : Dict Str (List Str)) : V (List Str) := do
  let names ← sharedNames printable cat sharedRoles
  let others ← coveredNames printable cat build facts roles.items
  return addHosts [] (names ++ others)

/-! ### The names that are protected -/

/-- `resolvable_box_names(catalog, stack_roles)`; `fleet` are the names of `FLEET`. -/
def resolvableBoxNames (fleet : List Str) (roles : Dict Str (List Str)) : V (List Str) := do
  let boxes ← cat.allBoxes printable none roles
  return boxes.map BoxEntry.name ++ cat.oses.values.map OsEntry.baseBox ++ fleet

end
end Lab
end MqResiliency
