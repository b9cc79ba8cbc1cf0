/-
# The OS version catalog

The catalog of `versions.py`, loaded: the OS versions by their references, the
box roles, the stacks with the versions they support, and what is asked of it:
the box of a role on an OS (`box`), the OS that a stack builds on (`stackOs`),
every box of the fleet (`allBoxes`).

A box is named by its role and the token of its OS, `<role>-<os><major>`.
-/
import MqResiliency.Lib.Dict
import MqResiliency.Lib.Yaml

namespace MqResiliency
namespace Lab

open Py

/-! ### Errors -/

/-- What the version layer raises: a `VersionError` with its message, or the
`LookupError` of a missing key or index, which no code here means to raise. -/
inductive Err : Type where
  | version (msg : Str)
  | lookup
deriving DecidableEq

/-- A function of the version layer. -/
abbrev V (α : Type) : Type := Conv Err α

/-- `raise VersionError(...)`, of a message in parts. -/
def refuse {α : Type} (parts : List Str) : V α := throw (.version parts.flatten)

/-- `_CATALOG_FIX`. -/
def catalogFix : Str := "fix lab/versions.yaml".toList

/-- `_CONFIG_FIX`. -/
def configFix : Str := "edit your --config file (mqlab bootstrap <stack> --config <file>) ".toList ++
  "or omit it to use the stack default (see lab/versions.yaml)".toList

/-! ### References -/

/-- `FAMILIES`: the known OS families, and their names in messages. -/
def families : List (Str × Str) := [("ubuntu".toList, "Ubuntu".toList), ("rhel".toList, "RHEL".toList)]

/-- `family in FAMILIES`. -/
def isFamily (family : Str) : Bool := family ∈ families.map Prod.fst

/-- `FAMILIES[family]`. -/
def displayName (family : Str) : V Str :=
  match families.lookup family with
  | some name => pure name
  | none => throw .lookup

/-- An OS version. -/
structure OsRef : Type where
  family : Str
  major : ℤ
deriving DecidableEq

namespace OsRef

/-- `_REF_RE.fullmatch(text)`: `[a-z]+`, a colon, `[0-9]+`. -/
def parts (text : Str) : Option (Str × Str) :=
  match text.span (· ≠ ':') with
  | (family, _ :: digits) =>
    if family ≠ [] ∧ family.all Char.isLower ∧ digits ≠ [] ∧ digits.all Char.isDigit then
      some (family, digits)
    else none
  | _ => none

section
variable (printable : Char → Bool)

/-- `OsRef.parse(text)`. -/
def parse (text : Str) : V OsRef :=
  match parts text with
  | some (family, digits) =>
    if isFamily family then do
      let major ← .ofDigits digits
      return ⟨family, major⟩
    else bad
  | none => bad
where
  bad : V OsRef := refuse ["bad OS reference ".toList, reprStr printable text,
    ": expected <family>:<major> with family one of ".toList, commas (families.map Prod.fst),
    " (e.g. rhel:9)".toList]

end

/-- `ref.token`. -/
def token (ref : OsRef) : V Str := do
  let major ← .ofInt ref.major
  return ref.family ++ major

/-- `str(ref)`. -/
def text (ref : OsRef) : V Str := do
  let major ← .ofInt ref.major
  return ref.family ++ ':' :: major

/-- The order of the dataclass: by family, then by major. -/
def le (a b : OsRef) : Bool :=
  if a.family = b.family then a.major ≤ b.major else strLe a.family b.family

/-- `[str(r) for r in refs]`. -/
def texts : List OsRef → V (List Str)
  | [] => pure []
  | ref :: refs => do
    let t ← ref.text
    let ts ← texts refs
    return t :: ts

end OsRef

/-- `sorted(refs)`. -/
def sortedRefs (refs : List OsRef) : List OsRef := refs.insertionSort fun a b => a.le b = true

/-! ### Entries -/

/-- A recorded decision to point a default at a version that IBM does not support. -/
structure LabDefaultDecision : Type where
  decided : Str
  ref : Str
deriving DecidableEq

structure OsEntry : Type where
  ref : OsRef
  baseBox : Str
  baseBoxVersion : Option Str
  point : Option Str
  iso : Option Str
  archPin : Option Str
  requirements : List Str
  ibmUnsupportedSource : Option Str
  labDefaultDecision : Option LabDefaultDecision
deriving DecidableEq

/-- An entry of `roles`. -/
structure RoleSpec : Type where
  bake : Dict Str Str
  mqBearing : Bool
  components : List Str
deriving DecidableEq

/-- An entry of `stacks`. -/
structure StackSpec : Type where
  supported : List OsRef
  default : OsRef
deriving DecidableEq

/-- The pinned Python of the guests. -/
structure RuntimePin : Type where
  version : Str
  pbsRelease : Str
  sha256 : Dict Str Str
deriving DecidableEq

/-- `runtime.token`. -/
def RuntimePin.token (pin : RuntimePin) : Str := pin.version ++ '+' :: pin.pbsRelease

structure Catalog : Type where
  oses : Dict OsRef OsEntry
  roles : Dict Str RoleSpec
  infra : OsRef
  infraMq : OsRef
  stackSpecs : Dict Str StackSpec
  runtime : RuntimePin
deriving DecidableEq

structure BoxEntry : Type where
  name : Str
  role : Str
  os : OsEntry
  bakeStem : Str
  mqBearing : Bool
  components : List Str
deriving DecidableEq

/-- `HostFacts`, as far as it is read here. -/
structure HostFacts : Type where
  arch : Str
  x86V3 : Bool
  x86V3Missing : List Str
deriving DecidableEq

/-- `BuildFile`: the OS it asks for. -/
structure BuildFile : Type where
  os : Option OsRef
deriving DecidableEq

/-! ### Hosts -/

/-- The only host requirement that is known, and gated. -/
def x86_64_v3 : Str := "x86-64-v3".toList

def knownRequirements : List Str := [x86_64_v3]

/-- `_arch_ok(entry, facts)`. -/
def archOk (entry : OsEntry) (facts : HostFacts) : Bool := entry.archPin.all (· = facts.arch)

/-- `host_can_run(entry, facts)`. -/
def hostCanRun (entry : OsEntry) (facts : HostFacts) : Bool :=
  archOk entry facts && (x86_64_v3 ∉ entry.requirements || facts.x86V3)

/-- `x86_64_v3_gap(facts)`. -/
def x86_64_v3_gap (facts : HostFacts) : Str :=
  if facts.x86V3Missing ≠ [] then "this host's CPU lacks ".toList ++ commas facts.x86V3Missing
  else if facts.arch ≠ "x86_64".toList then "this host is ".toList ++ facts.arch ++ ", not x86_64".toList
  else "this host has no usable KVM, and x86-64-v3 is not measured under TCG emulation, ".toList ++
    "so it counts as absent".toList

/-! ### Shared roles -/

def infraRoles : List Str := ["infra".toList, "obs".toList, "san".toList]

def infraMqRoles : List Str := ["mq-client".toList]

def sharedRoles : List Str := infraRoles ++ infraMqRoles

/-! ### The catalog's methods -/

namespace Catalog

variable (printable : Char → Bool) (cat : Catalog)

/-- `self.oses[ref]`. -/
def osEntry (ref : OsRef) : V OsEntry :=
  match cat.oses.get? ref with
  | some entry => pure entry
  | none => throw .lookup

/-- `_entry(ref)`. -/
def entry (ref : OsRef) : V OsEntry :=
  match cat.oses.get? ref with
  | some entry => pure entry
  | none => do
    let known ← OsRef.texts (sortedRefs cat.oses.keys)
    let t ← ref.text
    refuse ["OS ".toList, t, " is not in the catalog (known: ".toList, commas known,
      ") — add it under os: in lab/versions.yaml".toList]

/-- `box(role, ref)`. -/
def box (role : Str) (ref : OsRef) : V BoxEntry :=
  match cat.roles.get? role with
  | none => refuse ["unknown box role ".toList, reprStr printable role, " (known: ".toList,
      commas (sortedStrs cat.roles.keys), ") — add it under roles: in lab/versions.yaml".toList]
  | some spec => do
    let os ← cat.entry ref
    match spec.bake.get? ref.family with
    | none => refuse ["role ".toList, reprStr printable role, " has no bake for ".toList, ref.family,
        " — add one under roles.".toList, role, ".bake in lab/versions.yaml".toList]
    | some stem => do
      let token ← ref.token
      return ⟨role ++ '-' :: token, role, os, stem, spec.mqBearing, spec.components⟩

/-- `_stack(stack)`. -/
def stackSpec (stack : Str) : V StackSpec :=
  match cat.stackSpecs.get? stack with
  | some spec => pure spec
  | none => refuse ["unknown stack ".toList, reprStr printable stack, " (known: ".toList,
      commas (sortedStrs cat.stackSpecs.keys), ") — add it under stacks: in lab/versions.yaml".toList]

/-- `shared_os(role)`. -/
def sharedOs (role : Str) : V OsRef :=
  if role ∈ infraMqRoles then pure cat.infraMq
  else if role ∈ infraRoles then pure cat.infra
  else refuse ["role ".toList, reprStr printable role, " is not a shared role (shared: ".toList,
    commas sharedRoles, "); it runs its stack's OS".toList]

/-- `default_os(stack)`. -/
def defaultOs (stack : Str) : V OsRef := do
  let spec ← cat.stackSpec printable stack
  return spec.default

/-- `"an"` or `"a"`, by `default.family[0]`. -/
def article (family : Str) : V Str :=
  match family with
  | c :: _ => pure (if "aeiou".toList.contains c then "an".toList else "a".toList)
  | [] => throw .lookup

/-- The supported versions besides `ref` that the host can run. -/
def runnable (ref : OsRef) (facts : HostFacts) : List OsRef → V (List OsRef)
  | [] => pure []
  | r :: rs =>
    if r = ref then runnable ref facts rs
    else do
      let e ← cat.osEntry r
      let more ← runnable ref facts rs
      return if hostCanRun e facts then r :: more else more

/-- The host gates of `stack_os`. -/
def gateHost (stack : Str) (supported : List OsRef) (ref : OsRef) (facts : HostFacts) : V OsRef := do
  let entry ← cat.entry ref
  if archOk entry facts = false then
    let name ← displayName ref.family
    let pin := entry.archPin.getD []
    refuse [name, " needs an ".toList, pin, " host; this host is ".toList, facts.arch, " — run ".toList,
      stack, " on an ".toList, pin, " host".toList]
  else if x86_64_v3 ∈ entry.requirements ∧ facts.x86V3 = false then
    let others ← cat.runnable ref facts supported
    let fix ← fixFor others
    let t ← ref.text
    refuse [t, " needs an x86-64-v3 CPU; ".toList, x86_64_v3_gap facts, " — ".toList, fix]
  else pure ref
where
  fixFor : List OsRef → V Str
    | r :: _ => do
      let t ← r.text
      return ["use os: ".toList, t, " in your --config file (mqlab bootstrap ".toList, stack,
        " --config <file>)".toList].flatten
    | [] => pure ["run ".toList, stack, " on an x86-64-v3 host with KVM".toList].flatten

/-- The OS that is asked for: the build file's, else the default. -/
def requested (spec : StackSpec) (build : Option BuildFile) : OsRef :=
  (build.bind BuildFile.os).getD spec.default

/-- `stack_os(stack, build, facts)`. -/
def stackOs (stack : Str) (build : Option BuildFile) (facts : HostFacts) : V OsRef := do
  let spec ← cat.stackSpec printable stack
  let ref := requested spec build
  let listed ← OsRef.texts spec.supported
  if ref.family ≠ spec.default.family then
    let article ← article spec.default.family
    let t ← ref.text
    refuse [stack, " is ".toList, article, " ".toList, spec.default.family,
      " stack and supports [".toList, commas listed, "]; got ".toList, t, " — ".toList, configFix]
  else if ref ∉ spec.supported then
    let t ← ref.text
    refuse [stack, " supports [".toList, commas listed, "]; got ".toList, t, " — ".toList, configFix]
  else cat.gateHost stack spec.supported ref facts

/-- `out.setdefault(entry.name, entry)`. -/
def addBox (out : Dict Str BoxEntry) (b : BoxEntry) : Dict Str BoxEntry :=
  if (out.get? b.name).isSome then out else out.set b.name b

/-- The boxes of some roles, on an OS. -/
def addRoles (ref : OsRef) (out : Dict Str BoxEntry) : List Str → V (Dict Str BoxEntry)
  | [] => pure out
  | role :: roles => do
    let b ← cat.box printable role ref
    addRoles ref (addBox out b) roles

/-- The boxes of a stack's roles, on each version that the host can run. -/
def addRefs (facts : Option HostFacts) (roles : List Str) (out : Dict Str BoxEntry) :
    List OsRef → V (Dict Str BoxEntry)
  | [] => pure out
  | ref :: refs => do
    let run ← runsOn ref
    if run then
      let out ← cat.addRoles printable ref out (sortedStrs roles)
      addRefs facts roles out refs
    else addRefs facts roles out refs
where
  runsOn (ref : OsRef) : V Bool :=
    match facts with
    | some f => do
      let e ← cat.osEntry ref
      return hostCanRun e f
    | none => pure true

/-- The boxes of every stack. -/
def addStacks (facts : Option HostFacts) (out : Dict Str BoxEntry) :
    List (Str × List Str) → V (Dict Str BoxEntry)
  | [] => pure out
  | (stack, roles) :: stackRoles => do
    let spec ← cat.stackSpec printable stack
    let out ← cat.addRefs printable facts roles out spec.supported
    addStacks facts out stackRoles

/-- The shared roles' boxes, each on its shared OS. -/
def addShared (out : Dict Str BoxEntry) : List Str → V (Dict Str BoxEntry)
  | [] => pure out
  | role :: roles => do
    let ref ← cat.sharedOs printable role
    let b ← cat.box printable role ref
    addShared (addBox out b) roles

/-- `all_boxes(facts, stack_roles)`; the roles of a stack are a set. -/
def allBoxes (facts : Option HostFacts) (stackRoles : Dict Str (List Str)) : V (List BoxEntry) := do
  let out ← cat.addShared printable .empty sharedRoles
  let out ← cat.addStacks printable facts out stackRoles.items
  return out.values

/-- `_decision_note(decision)`. -/
def decisionNote (d : LabDefaultDecision) : Str :=
  ["a lab default by recorded decision (".toList, d.ref, ", decided ".toList, d.decided, ")".toList].flatten

/-- `support_warning(ref)`. -/
def supportWarning (ref : OsRef) : V (Option Str) := do
  let entry ← cat.entry ref
  match entry.ibmUnsupportedSource with
  | none => pure none
  | some source => do
    let t ← ref.text
    let warning := ["WARNING: IBM does not support MQ on ".toList, t, " (".toList, source,
      "); it is selectable for lab use only".toList].flatten
    return some (warning ++ (entry.labDefaultDecision.elim [] fun d => ", and is ".toList ++ decisionNote d))

/-- `infra_mq_warning()`. -/
def infraMqWarning : V (Option Str) := do
  let entry ← cat.entry cat.infraMq
  match entry.ibmUnsupportedSource with
  | none => pure none
  | some source => do
    let t ← cat.infraMq.text
    let warning := ["WARNING: the shared MQ nodes (infra_mq) run ".toList, t,
      ", which IBM does not support for MQ (".toList, source, ")".toList].flatten
    return some (warning ++ (entry.labDefaultDecision.elim [] fun d => "; ".toList ++ decisionNote d))

end Catalog
end Lab
end MqResiliency
