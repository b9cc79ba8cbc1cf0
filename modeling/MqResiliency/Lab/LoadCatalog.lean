/-
# Loading the catalog

`load_catalog` of `versions.py`, from the value that the YAML parser returns:
each validator, in the order of its checks, with the messages of its refusals.
What a validator accepts it returns in the catalog's types. A build file is
loaded in the same way (`loadBuildFile`).

`Files` is what the loader reads besides: the texts of two paths, the guest
components that exist, and the characters that Python prints.
-/
import MqResiliency.Lab.Catalog
import MqResiliency.Lib.Regex

namespace MqResiliency
namespace Lab
namespace Load

open Py

/-- The loader's surroundings. -/
structure Files : Type where
  path : Str
  components : Str
  /-- `components/<name>/pyproject.toml` is a file. -/
  isComponent : Str → Bool
  printable : Char → Bool

/-- A mapping's items. -/
abbrev Items : Type := List (Yaml × Yaml)

/-- The end of most messages. -/
def fixNote : Str := " — ".toList ++ catalogFix

section
variable (fs : Files)

/-! ### Shapes -/

/-- `_mapping(value, where)`. -/
def mapping (value : Yaml) (loc : Str) : V Items :=
  match value with
  | .map items => pure items
  | _ => refuse [loc, " must be a mapping".toList, fixNote]

/-- `[str(k) for k in raw if k not in allowed]`. -/
def unknownKeys (allowed : List Str) : Items → V (List Str)
  | [] => pure []
  | (k, _) :: items =>
    if k.isOneOf allowed then unknownKeys allowed items
    else do
      let t ← k.text fs.printable
      let ts ← unknownKeys allowed items
      return t :: ts

/-- `_check_keys(raw, allowed, where, fix)`. -/
def checkKeys (raw : Items) (allowed : List Str) (loc fix : Str) : V Unit := do
  let unknown ← unknownKeys fs allowed raw
  if unknown = [] then pure ()
  else refuse [loc, ": unknown key ".toList, commas ((sortedStrs unknown).map (reprStr fs.printable)),
    " (allowed: ".toList, commas allowed, ") — ".toList, fix]

/-- `_string(raw, key, where)`. -/
def optString (raw : Items) (key loc : Str) : V (Option Str) :=
  match Yaml.get raw key with
  | .null => pure none
  | .str s => pure (some s)
  | value => do
    let t ← value.repr fs.printable
    refuse [loc, ": ".toList, reprStr fs.printable key, " must be a string (quote it); got ".toList, t, fixNote]

/-- `_required(raw, key, where)`. -/
def required (raw : Items) (key loc : Str) : V Str := do
  let value ← optString fs raw key loc
  match value with
  | some s => pure s
  | none => refuse [loc, ": missing required ".toList, reprStr fs.printable key, fixNote]

/-- `_ref(value, where)`. -/
def ref (value : Yaml) (loc : Str) : V OsRef :=
  match value with
  | .str s => tryCatch (OsRef.parse fs.printable s) fun e =>
    match e with
    | .version msg => refuse [loc, ": ".toList, msg, fixNote]
    | .lookup => throw .lookup
  | _ => do
    let t ← value.repr fs.printable
    refuse [loc, ": expected <family>:<major> (e.g. rhel:9); got ".toList, t, fixNote]

/-! ### `os` -/

/-- `HOST_ARCHES`. -/
def hostArches : List Str := ["aarch64".toList, "x86_64".toList]

/-- `_ibm_unsupported_source(raw, where)`. -/
def ibmUnsupportedSource (raw : Yaml) (loc : Str) : V (Option Str) :=
  match raw with
  | .null => pure none
  | _ => do
    let loc := loc ++ ".ibm_support".toList
    let support ← mapping raw loc
    checkKeys fs support ["status".toList, "source".toList] loc catalogFix
    let status := Yaml.get support "status".toList
    if status.isOneOf ["supported".toList] then do
      let _ ← optString fs support "source".toList loc
      return none
    else if status.isOneOf ["unsupported".toList] then do
      let source ← required fs support "source".toList loc
      return some source
    else do
      let t ← status.repr fs.printable
      refuse [loc, ": status must be 'supported' or 'unsupported'; got ".toList, t, fixNote]

/-- `_DECIDED_RE`: `[0-9]{4}-[0-9]{2}-[0-9]{2}`. -/
def isDate (s : Str) : Bool :=
  match s.splitOn '-' with
  | [y, m, d] => [y, m, d].all (·.all Char.isDigit) && y.length = 4 && m.length = 2 && d.length = 2
  | _ => false

/-- `[A-Za-z0-9_.-]+`. -/
def isSlug (s : Str) : Bool :=
  s ≠ [] && s.all fun c => c.isAlphanum || c = '_' || c = '.' || c = '-'

/-- `_ISSUE_REF_RE`: a slug, a slash, a slug, `#`, `[0-9]+`. -/
def isIssueRef (s : Str) : Bool :=
  match s.splitOn '/' with
  | [owner, rest] =>
    match rest.splitOn '#' with
    | [repo, n] => isSlug owner && isSlug repo && n ≠ [] && n.all Char.isDigit
    | _ => false
  | _ => false

/-- `_lab_default_decision(raw, where, unsupported_source)`. -/
def labDefaultDecision (raw : Yaml) (loc : Str) (unsupportedSource : Option Str) :
    V (Option LabDefaultDecision) :=
  match raw with
  | .null => pure none
  | _ => do
    let loc := loc ++ ".lab_default_decision".toList
    let spec ← mapping raw loc
    checkKeys fs spec ["decided".toList, "ref".toList] loc catalogFix
    if unsupportedSource.isNone then
      refuse [loc, ": only an entry with ibm_support.status: unsupported may record a lab ".toList,
        "default decision (a supported entry needs none) — remove it".toList, fixNote]
    else do
      let decided ← required fs spec "decided".toList loc
      if isDate decided = false then
        refuse [loc, ": decided must be a quoted ISO date (e.g. \"2026-10-14\"); got ".toList,
          reprStr fs.printable decided, fixNote]
      else do
        let r ← required fs spec "ref".toList loc
        if isIssueRef r = false then
          refuse [loc, ": ref must name the issue recording the decision as <owner>/<repo>#<N>; got ".toList,
            reprStr fs.printable r, fixNote]
        else return some ⟨decided, r⟩

/-- `_gate_default(entry, key)`. -/
def gateDefault (entry : OsEntry) (key : Str) : V Unit :=
  match entry.ibmUnsupportedSource, entry.labDefaultDecision with
  | none, _ => pure ()
  | some _, some _ => pure ()
  | some source, none => do
    let t ← entry.ref.text
    let major ← Conv.ofInt entry.ref.major
    refuse [key, " ".toList, t, " is IBM-unsupported (".toList, source, "); ".toList, key,
      " may point at an IBM-unsupported version only by a recorded lab decision — point ".toList, key,
      " at a supported version, or record the decision as os.".toList, entry.ref.family, ".".toList, major,
      ".lab_default_decision: \x7b decided: \"<YYYY-MM-DD>\", ref: \"<owner>/<repo>#<N>\" \x7d ".toList,
      "in lab/versions.yaml".toList]

/-- The keys of an OS entry. -/
def osKeys : List Str := ["base_box".toList, "base_box_version".toList, "point".toList, "iso".toList,
  "arch".toList, "requires".toList, "ibm_support".toList, "lab_default_decision".toList]

/-- The host arch that an entry pins. -/
def archPin (spec : Items) (loc : Str) : V (Option Str) := do
  let arch ← optString fs spec "arch".toList loc
  match arch with
  | none => pure none
  | some a =>
    if a ∈ hostArches then pure (some a)
    else refuse [loc, ": arch must be one of ".toList, commas hostArches, "; got ".toList,
      reprStr fs.printable a, fixNote]

/-- The host requirements that an entry declares. -/
def requirements (spec : Items) (loc : Str) : V (List Str) :=
  match (Yaml.lookup "requires".toList spec).getD (.list []) with
  | .list xs =>
    match Yaml.strs xs with
    | some rs =>
      match (sortedStrs rs.dedup).filter (· ∉ knownRequirements) with
      | [] => pure rs
      | unknown => refuse [loc, ": unknown host requirement ".toList, commas unknown,
          " (this mqlab cannot gate it)".toList, fixNote]
    | none => refuse [loc, ": requires must be a list of strings".toList, fixNote]
  | _ => refuse [loc, ": requires must be a list of strings".toList, fixNote]

/-- A key that the RHEL entries must have. -/
def forRhel (rhel : Bool) (spec : Items) (key loc : Str) : V (Option Str) :=
  if rhel then do
    let s ← required fs spec key loc
    return some s
  else optString fs spec key loc

/-- `_os_entry(ref, raw)`. -/
def osEntry (r : OsRef) (raw : Yaml) : V OsEntry := do
  let major ← Conv.ofInt r.major
  let loc := "os.".toList ++ r.family ++ '.' :: major
  let spec ← mapping raw loc
  checkKeys fs spec osKeys loc catalogFix
  let rhel : Bool := r.family = "rhel".toList
  let arch ← archPin fs spec loc
  let reqs ← requirements spec loc
  let source ← ibmUnsupportedSource fs (Yaml.get spec "ibm_support".toList) loc
  let baseBox ← required fs spec "base_box".toList loc
  let version ← optString fs spec "base_box_version".toList loc
  let point ← forRhel fs rhel spec "point".toList loc
  let iso ← forRhel fs rhel spec "iso".toList loc
  let decision ← labDefaultDecision fs (Yaml.get spec "lab_default_decision".toList) loc source
  return ⟨r, baseBox, version, point, iso, arch, reqs, source, decision⟩

/-- The majors of one family. -/
def majors (family : Str) (out : Dict OsRef OsEntry) : Items → V (Dict OsRef OsEntry)
  | [] => pure out
  | (.int major, spec) :: items => do
    let entry ← osEntry fs ⟨family, major⟩ spec
    majors family (out.set ⟨family, major⟩ entry) items
  | (major, _) :: _ => do
    let t ← major.repr fs.printable
    refuse ["os.".toList, family, ": major ".toList, t, " must be an integer".toList, fixNote]

/-- Every family. -/
def osFamilies (out : Dict OsRef OsEntry) : Items → V (Dict OsRef OsEntry)
  | [] => pure out
  | (.str family, majorSpecs) :: items =>
    if isFamily family then do
      let specs ← mapping majorSpecs ("os.".toList ++ family)
      let out ← majors fs family out specs
      osFamilies out items
    else unknownFamily (.str family)
  | (family, _) :: _ => unknownFamily family
where
  unknownFamily (family : Yaml) : V (Dict OsRef OsEntry) := do
    let t ← family.repr fs.printable
    refuse ["os: unknown family ".toList, t, " (known: ".toList, commas (families.map Prod.fst), ")".toList,
      fixNote]

/-- `_oses(raw)`. -/
def oses (raw : Yaml) : V (Dict OsRef OsEntry) := do
  let items ← mapping raw "os".toList
  let out ← osFamilies fs .empty items
  if out.items = [] then refuse ["os: declares no OS versions".toList, fixNote]
  else pure out

/-! ### `roles` -/

/-- The bake stems of a role. -/
def bakeStems (loc : Str) (out : Dict Str Str) : Items → V (Dict Str Str)
  | [] => pure out
  | (.str family, .str stem) :: items =>
    if isFamily family then bakeStems loc (out.set family stem) items
    else badStem (.str family) (.str stem)
  | (family, stem) :: _ => badStem family stem
where
  badStem (family stem : Yaml) : V (Dict Str Str) := do
    let tf ← family.repr fs.printable
    let ts ← stem.repr fs.printable
    refuse [loc, ".bake: ".toList, tf, ": ".toList, ts, " must map a known family (".toList,
      commas (families.map Prod.fst), ") to a bake-stem string".toList, fixNote]

/-- `_components(raw, where)`. -/
def components (raw : Yaml) (loc : Str) : V (List Str) :=
  match raw with
  | .list xs =>
    match Yaml.strs xs with
    | some names =>
      if ¬ names.Nodup then refuse [loc, ": components lists a name twice".toList, fixNote]
      else
        match names.filter (fs.isComponent · = false) with
        | [] => pure names
        | missing => refuse [loc, ": unknown component ".toList, commas missing, " (no ".toList,
            fs.components, "/<name>/pyproject.toml)".toList, fixNote]
    | none => refuse [loc, ": components must be a list of names".toList, fixNote]
  | _ => refuse [loc, ": components must be a list of names".toList, fixNote]

/-- Whether a role bears MQ. -/
def mqBearing (spec : Items) (loc : Str) : V Bool :=
  match (Yaml.lookup "mq_bearing".toList spec).getD (.bool false) with
  | .bool b => pure b
  | _ => refuse [loc, ": mq_bearing must be true or false".toList, fixNote]

/-- A role's entry. -/
def role (raw : Yaml) (loc : Str) : V RoleSpec := do
  let spec ← mapping raw loc
  checkKeys fs spec ["bake".toList, "mq_bearing".toList, "components".toList] loc catalogFix
  match Yaml.get spec "bake".toList with
  | .map (item :: items) => do
    let bake ← bakeStems fs loc .empty (item :: items)
    let bearing ← mqBearing spec loc
    let names ← components fs ((Yaml.lookup "components".toList spec).getD (.list [])) loc
    return ⟨bake, bearing, names⟩
  | _ => refuse [loc, ": bake must map at least one family to a bake stem".toList, fixNote]

/-- Every role, by its name as a text. -/
def rolesFrom (out : Dict Str RoleSpec) : Items → V (Dict Str RoleSpec)
  | [] => pure out
  | (name, raw) :: items => do
    let t ← name.text fs.printable
    let spec ← role fs raw ("roles.".toList ++ t)
    rolesFrom (out.set t spec) items

/-- `_roles(raw)`. -/
def roles (raw : Yaml) : V (Dict Str RoleSpec) := do
  let items ← mapping raw "roles".toList
  rolesFrom fs .empty items

/-! ### `runtime` -/

/-- `_PY_VERSION_RE`: three runs of digits, with dots between. -/
def isPyVersion (s : Str) : Bool :=
  match s.splitOn '.' with
  | [a, b, c] => [a, b, c].all fun p => p ≠ [] && p.all Char.isDigit
  | _ => false

/-- `_SHA256_RE`: `[0-9a-f]{64}`. -/
def isSha256 (s : Str) : Bool :=
  s.length = 64 && s.all fun c => c.isDigit || ('a' ≤ c && c ≤ 'f')

/-- The digest of each arch. -/
def digests (loc : Str) (out : Dict Str Str) : Items → V (Dict Str Str)
  | [] => pure out
  | (arch, digest) :: items => do
    let t ← arch.text fs.printable
    match digest with
    | .str d =>
      if isSha256 d then digests loc (out.set t d) items
      else badDigest t
    | _ => badDigest t
where
  badDigest (arch : Str) : V (Dict Str Str) :=
    refuse [loc, ".sha256.".toList, arch, " must be a 64-hex-digit lowercase sha256".toList, fixNote]

/-- `set(sha) == set(HOST_ARCHES)`. -/
def pinsHostArches (sha : Items) : Bool :=
  sha.all (·.1.isOneOf hostArches) && hostArches.all fun a => (Yaml.lookup a sha).isSome

/-- `[str(k) for k in sha]`. -/
def keyTexts : Items → V (List Str)
  | [] => pure []
  | (k, _) :: items => do
    let t ← k.text fs.printable
    let ts ← keyTexts items
    return t :: ts

/-- `", ".join(sorted(str(k) for k in sha)) or 'none'`. -/
def keyList (ts : List Str) : Str :=
  if commas (sortedStrs ts) = [] then "none".toList else commas (sortedStrs ts)

/-- The pins of `runtime.python`. -/
def python (raw : Yaml) : V RuntimePin := do
  let loc := "runtime.python".toList
  let spec ← mapping raw loc
  checkKeys fs spec ["version".toList, "pbs_release".toList, "sha256".toList] loc catalogFix
  let version ← required fs spec "version".toList loc
  if isPyVersion version = false then
    refuse [loc, ": version must be an exact <major>.<minor>.<patch> (e.g. 3.14.8); got ".toList,
      reprStr fs.printable version, fixNote]
  else do
    let release ← required fs spec "pbs_release".toList loc
    if (release.length = 8 && release.all Char.isDigit) = false then
      refuse [loc, ": pbs_release must be the 8-digit release tag (e.g. 20261003); got ".toList,
        reprStr fs.printable release, fixNote]
    else do
      let sha ← mapping (Yaml.get spec "sha256".toList) (loc ++ ".sha256".toList)
      if pinsHostArches sha = false then do
        let ts ← keyTexts fs sha
        refuse [loc, ".sha256 must pin exactly ".toList, commas hostArches, "; got ".toList, keyList ts, fixNote]
      else do
        let out ← digests fs loc .empty sha
        return ⟨version, release, out⟩

/-- `_runtime(raw)`. -/
def runtime (raw : Yaml) : V RuntimePin := do
  let spec ← mapping raw "runtime".toList
  checkKeys fs spec ["python".toList] "runtime".toList catalogFix
  match Yaml.lookup "python".toList spec with
  | some value => python fs value
  | none => refuse ["runtime: missing required 'python'".toList, fixNote]

/-! ### `stacks` -/

/-- `_known(ref, oses, where)`. -/
def known (r : OsRef) (known : Dict OsRef OsEntry) (loc : Str) : V OsRef :=
  if (known.get? r).isSome then pure r
  else do
    let t ← r.text
    refuse [loc, ": ".toList, t, " is not declared under os:".toList, fixNote]

/-- `oses[ref]`. -/
def entryOf (declared : Dict OsRef OsEntry) (r : OsRef) : V OsEntry :=
  match declared.get? r with
  | some entry => pure entry
  | none => throw .lookup

/-- The versions that a stack supports. -/
def supportedRefs (declared : Dict OsRef OsEntry) (loc : Str) : List Yaml → V (List OsRef)
  | [] => pure []
  | item :: items => do
    let r ← ref fs item loc
    let r ← known r declared loc
    let rs ← supportedRefs declared loc items
    return r :: rs

/-- A stack's entry. -/
def stackSpec (declared : Dict OsRef OsEntry) (raw : Yaml) (name loc : Str) : V StackSpec := do
  let spec ← mapping raw loc
  checkKeys fs spec ["supported".toList, "default".toList] loc catalogFix
  match Yaml.get spec "supported".toList with
  | .list (item :: items) => do
    let supported ← supportedRefs fs declared loc (item :: items)
    if (supported.map OsRef.family).dedup.length ≠ 1 then
      refuse [loc, ": supported mixes OS families; a stack is one family".toList, fixNote]
    else do
      let d ← ref fs (Yaml.get spec "default".toList) (loc ++ ".default".toList)
      let d ← known d declared loc
      if d ∉ supported then do
        let t ← d.text
        refuse [loc, ": default ".toList, t, " is not in its supported list".toList, fixNote]
      else do
        let entry ← entryOf declared d
        gateDefault entry ("stacks.".toList ++ name ++ ".default".toList)
        return ⟨supported, d⟩
  | _ => refuse [loc, ": supported must be a non-empty list of OS refs".toList, fixNote]

/-- Every stack, by its name as a text. -/
def stacksFrom (declared : Dict OsRef OsEntry) (out : Dict Str StackSpec) : Items → V (Dict Str StackSpec)
  | [] => pure out
  | (name, raw) :: items => do
    let t ← name.text fs.printable
    let spec ← stackSpec fs declared raw t ("stacks.".toList ++ t)
    stacksFrom declared (out.set t spec) items

/-- `_stacks(raw, oses)`. -/
def stackSpecs (raw : Yaml) (declared : Dict OsRef OsEntry) : V (Dict Str StackSpec) := do
  let items ← mapping raw "stacks".toList
  stacksFrom fs declared .empty items

/-! ### The catalog -/

/-- The keys of the catalog. -/
def topKeys : List Str := ["os".toList, "roles".toList, "infra".toList, "infra_mq".toList, "stacks".toList,
  "runtime".toList]

/-- Every shared role bakes on its OS. -/
def bakesShared (cat : Catalog) : List Str → V Unit
  | [] => pure ()
  | r :: rs => do
    let os ← cat.sharedOs fs.printable r
    let _ ← cat.box fs.printable r os
    bakesShared cat rs

/-- `load_catalog(path)`, of the value at the path. -/
def loadCatalog (value : Yaml) : V Catalog := do
  let data ← mapping value "the catalog".toList
  checkKeys fs data topKeys fs.path catalogFix
  match topKeys.filter fun k => (Yaml.lookup k data).isNone with
  | [] => do
    let declared ← oses fs (Yaml.get data "os".toList)
    let roleSpecs ← roles fs (Yaml.get data "roles".toList)
    let i ← ref fs (Yaml.get data "infra".toList) "infra".toList
    let i ← known i declared "infra".toList
    let m ← ref fs (Yaml.get data "infra_mq".toList) "infra_mq".toList
    let m ← known m declared "infra_mq".toList
    let entry ← entryOf declared m
    gateDefault entry "infra_mq".toList
    let specs ← stackSpecs fs (Yaml.get data "stacks".toList) declared
    let pin ← runtime fs (Yaml.get data "runtime".toList)
    let cat : Catalog := ⟨declared, roleSpecs, i, m, specs, pin⟩
    bakesShared fs cat sharedRoles
    return cat
  | missing => refuse [fs.path, ": missing required key ".toList, commas missing, fixNote]

/-! ### The build file -/

/-- `load_build_file(path)`, of the value at the path. -/
def loadBuildFile (path : Str) (value : Yaml) : V BuildFile :=
  let what := "build file ".toList ++ path
  let fix := " — ".toList ++ configFix
  match value with
  | .null => pure ⟨none⟩
  | .map data => do
    checkKeys fs data ["os".toList] what configFix
    match Yaml.lookup "os".toList data with
    | none => pure ⟨none⟩
    | some (.str s) => do
      let r ← tryCatch (OsRef.parse fs.printable s) fun e =>
        match e with
        | .version msg => refuse [what, ": ".toList, msg, fix]
        | .lookup => throw .lookup
      return ⟨some r⟩
    | some value => do
      let t ← value.repr fs.printable
      refuse [what, ": os must be <family>:<major> (e.g. rhel:9); got ".toList, t, fix]
  | _ => refuse [what, " must be a mapping (e.g. 'os: rhel:9')".toList, fix]

end
end Load
end Lab
end MqResiliency
