/-
# The builds of a component

`component.py`: `build` stages an artifact under `<version>+<tree>.partial`,
writes its `BUILD.json` last and renames the directory; `find_artifact`,
`current`, `ensure_built` and `resolve_artifact` take a directory with a
`BUILD.json` for an artifact.

The calls are programs over single file operations (`Cmd`), and `answers` is
what these may do. A directory is known by its files, so what makes or removes
the directories within it is left out. `sha256` is a parameter.
-/
import Mathlib.Data.List.Dedup
import MqResiliency.Lib.Dict
import MqResiliency.Lib.JsonDump
import MqResiliency.Lib.Lines
import MqResiliency.Lib.Prog
import MqResiliency.Lib.Yaml

namespace MqResiliency
namespace Lab
namespace Component

open Py

/-! ### What is built -/

/-- A git tree hash. -/
structure Tree : Type where
  text : Str
  ne_nil : text ≠ []
  hex : ∀ c ∈ text, c ∈ "0123456789abcdef".toList

/-- A file that `uv.lock` names. -/
structure LockFile : Type where
  url : Str
  hash : Str

/-- A package of `uv.lock`. -/
structure Package : Type where
  name : Str
  sdist : Option LockFile
  wheels : List LockFile

/-- What is committed of a component at HEAD. -/
structure Source : Type where
  name : Str
  version : Str
  tree : Tree
  lock : List Package
  /-- Is there a group `sdist-build`? -/
  buildGroup : Bool
  /-- The files of `systemd/`. -/
  units : Option (Dict Str Str)
  /-- The token of the runtime's pin. -/
  pin : Str

/-- The name of the artifact's directory. -/
def Source.final (src : Source) : Str := src.version ++ '+' :: src.tree.text

/-- Where it is staged. -/
def Source.stage (src : Source) : Str := src.final ++ ".partial".toList

/-! ### Requirements -/

def isAlnum (c : Char) : Bool := c.isAlphanum

/-- `_REQ_NAME.match(line)`. -/
def reqName (line : Str) : Option Str :=
  let n := line.takeWhile fun c => isAlnum c ∨ c = '.' ∨ c = '_' ∨ c = '-'
  match n with
  | [] => none
  | c :: _ => if isAlnum c ∧ "==".toList.isPrefixOf (line.drop n.length) then some n else none

/-- The text without runs of `-`, `_` and `.`, each a dash; `run` says that one is on. -/
def dashed : (run : Bool) → Str → Str
  | _, [] => []
  | run, c :: s =>
    if c = '-' ∨ c = '_' ∨ c = '.' then if run then dashed true s else '-' :: dashed true s
    else c :: dashed false s

/-- `_normalize`. -/
def normalize (project : Str) : Str := (dashed false project).map Char.toLower

/-- The names that a requirements file pins. -/
def pinned (text : Str) : List Str := ((splitlines text).filterMap reqName).map normalize

/-! ### The files of an artifact -/

inductive File : Type where
  | wheel (filename : Str)
  | requirements
  | buildRequirements
  | dep (filename : Str)
  | unit (path : Str)
  | buildJson
  | other (path : Str)
deriving DecidableEq

abbrev Dir : Type := Dict File Str

/-- `_wanted`. -/
def wanted (d : Dir) : List Str :=
  (((d.get? .requirements).toList ++ (d.get? .buildRequirements).toList).flatMap pinned).dedup

/-- What `url.rsplit("/", 1)[1]` is. -/
def filenameOf (art : LockFile) : Str := art.url.rtakeWhile fun c => c ≠ '/'

/-- All parts of a text between separators. -/
def parts (sep : Char) (s : Str) : List Str := split sep s.length s

/-- `wheel_installable`; `none` where a name with too few parts raises. -/
def wheelInstallable (filename : Str) : Option Bool :=
  let stem := if ".whl".toList.isSuffixOf filename then filename.take (filename.length - 4) else filename
  match (parts '-' stem).reverse with
  | platTag :: abiTag :: pyTags :: _ =>
    let pys := parts '.' pyTags
    let pyOk := pys.any (· ∈ ["py3".toList, "cp314".toList]) ||
      (abiTag = "abi3".toList && pys.any fun p => "cp3".toList.isPrefixOf p)
    let platOk := (parts '.' platTag).any fun p => p = "any".toList || ("manylinux".toList.isPrefixOf p &&
      ("_x86_64".toList.isSuffixOf p || "_aarch64".toList.isSuffixOf p))
    some (pyOk && platOk)
  | _ => none

/-- Those wheels that a guest could install. -/
def installable : List LockFile → Option (List LockFile)
  | [] => some []
  | w :: ws => match wheelInstallable (filenameOf w), installable ws with
    | some ok, some rest => some (if ok then w :: rest else rest)
    | _, _ => none

/-- What is fetched for a package. -/
def candidates (pkg : Package) : Option (List LockFile) := (installable pkg.wheels).map (pkg.sdist.toList ++ ·)

/-- The packages by their normalized names. -/
def packages (lock : List Package) : Dict Str Package := Dict.ofList (lock.map fun p => (normalize p.name, p))

/-- `algo == "sha256" and actual == expected`. -/
def isHash (actual hash : Str) : Bool := hash = "sha256:".toList ++ actual

/-! ### `BUILD.json` -/

/-- What is read as a float; there is none. -/
def noFloats : Floats Unit := ⟨fun _ => (), (), (), ()⟩

def buildInfo (src : Source) (commit builtAt : Str) : Json Unit :=
  .obj [("name".toList, .str src.name), ("version".toList, .str src.version), ("tree".toList, .str src.tree.text),
    ("commit".toList, .str commit), ("runtime".toList, .str src.pin), ("tests".toList, .str "passed".toList),
    ("built_at".toList, .str builtAt)]

/-- `json.dumps(build_info, indent=2) + "\n"`. -/
def infoText (src : Source) (commit builtAt : Str) : Str := dumps (fun _ => []) 0 (buildInfo src commit builtAt) ++ ['\n']

/-- The version and the tree that a `BUILD.json` tells, unless reading it raises. -/
def infoOf (text : Str) : Option (Str × Str) :=
  match loads noFloats text with
  | .ok (.obj ps) => match (Dict.ofList ps).get? "version".toList, (Dict.ofList ps).get? "tree".toList with
    | some (.str v), some (.str t) => some (v, t)
    | _, _ => none
  | _ => none

/-! ### The artifacts' directory -/

/-- What a build staged: of which source, and all that it wrote. -/
structure Staged : Type where
  source : Source
  files : Dir

/-- The directories, the text of `CURRENT`, and, to speak of them, the complete
stagings that there were. -/
structure Store : Type where
  dirs : Dict Str Dir
  current : Option Str
  staged : List Staged

namespace Store

variable (s : Store)

/-- A directory with these files. -/
def put (name : Str) (d : Dir) : Store := { s with dirs := s.dirs.set name d }

/-- No such directory. -/
def drop (name : Str) : Store := { s with dirs := s.dirs.erase name }

/-- A file's text. -/
def text (name : Str) (f : File) : Option Str := (s.dirs.get? name).bind (·.get? f)

end Store

/-- `Artifact`: the name of its directory, and what its `BUILD.json` tells. -/
structure Artifact : Type where
  version : Str
  tree : Str
  path : Str
deriving DecidableEq

/-- Why a call fails: `ComponentError`, an error of the system, or a value that cannot be read. -/
inductive Failure : Type where
  | component
  | os
  | value
deriving DecidableEq

/-- `_load`. -/
def load (s : Store) (path : Str) : Except Failure (Option Artifact) :=
  match s.text path .buildJson with
  | none => .ok none
  | some text => match infoOf text with
    | some (v, t) => .ok (some ⟨v, t, path⟩)
    | none => .error .value

/-- The first of these that is an artifact. -/
def firstLoaded (s : Store) : List Str → Except Failure (Option Artifact)
  | [] => .ok none
  | path :: paths => do
    match ← load s path with
    | some found => .ok (some found)
    | none => firstLoaded s paths

/-- `find_artifact`. -/
def findArtifact (s : Store) (tree : Str) : Except Failure (Option Artifact) :=
  firstLoaded s (sortedStrs (s.dirs.keys.filter fun path => ('+' :: tree).isSuffixOf path))

/-- `current`; in the artifacts' directory itself there is no `BUILD.json`. -/
def current (s : Store) : Except Failure (Option Artifact) :=
  match s.current with
  | none => .ok none
  | some text => if trim text = [] then .ok none else load s (trim text)

/-- Those of these that are artifacts. -/
def allLoaded (s : Store) : List Str → Except Failure (List Artifact)
  | [] => .ok []
  | path :: paths => do
    let found ← load s path
    let rest ← allLoaded s paths
    .ok (found.toList ++ rest)

/-- The staged artifacts that `wanted` names. -/
def matching (s : Store) (wanted : Str) : Except Failure (List Artifact) :=
  (allLoaded s (sortedStrs (s.dirs.keys.filter fun path => '+' ∈ path))).map fun staged =>
    staged.filter fun a => wanted ∈ [a.path, a.version]

/-! ### Operations -/

/-- What a build looks at, makes sure of or runs elsewhere. -/
inductive Check : Type where
  | known
  | clean
  | treeHash
  | version
  | interpreter
  | lock
  | venv
  | pinnedVenv
  | tests
deriving DecidableEq

inductive Cmd : Type where
  | check (c : Check)
  | look
  /-- What `rmtree` finds in a directory. -/
  | scan (name : Str)
  | unlink (name : Str) (f : File)
  | rmdir (name : Str)
  | mkdir (name : Str)
  /-- `uv build --wheel`. -/
  | wheel (name : Str)
  /-- `uv export`. -/
  | uvExport (name : Str) (f : File)
  | fetch (name : Str) (url : Str) (f : File)
  | copy (name : Str) (f : File) (text : Str)
  /-- `git rev-parse HEAD`, and the clock. -/
  | head
  | now
  /-- `write_text`: opening the file, and writing to it. -/
  | openInfo (name : Str)
  | writeInfo (name : Str) (src : Source) (text : Str)
  | rename (stage final : Str)
  | openCurrent
  | writeCurrent (text : Str)

/-- What is answered; mostly, whether it worked. -/
abbrev Ans : Cmd → Type
  | .look => Store
  | .scan _ => List File
  | .head => Str
  | .now => Str
  | _ => Bool

/-- A directory may hold anything. -/
def Spoiled (s : Store) (name : Str) (s' : Store) : Prop := ∃ d, s' = s.put name d

/-- A file of a directory that is there is written. -/
def Written (s : Store) (name : Str) (f : File) (text : Str) (s' : Store) : Prop :=
  ∃ d, s.dirs.get? name = some d ∧ s' = s.put name (d.set f text)

/-- What an operation may do. What fails within the staging directory may leave
anything in it. -/
def answers : Env Store Cmd Ans
  | s, .check _, _, s' => s' = s
  | s, .look, a, s' => a = s ∧ s' = s
  | s, .scan name, fs, s' => s' = s ∧ (fs = [] ∨ ∃ d, s.dirs.get? name = some d ∧ fs.Perm d.keys)
  | s, .unlink name f, ok, s' =>
    if ok = true then ∃ d, s.dirs.get? name = some d ∧ s' = s.put name (d.erase f) else s' = s
  | s, .rmdir name, ok, s' =>
    if ok = true then (∃ d, s.dirs.get? name = some d ∧ d.items = []) ∧ s' = s.drop name else s' = s
  | s, .mkdir name, ok, s' => if ok = true then s.dirs.get? name = none ∧ s' = s.put name .empty else s' = s
  | s, .wheel name, ok, s' =>
    if ok = true then ∃ d d', s.dirs.get? name = some d ∧ (∃ w, d'.get? (.wheel w) ≠ none) ∧ s' = s.put name d'
    else Spoiled s name s'
  | s, .uvExport name f, ok, s' => if ok = true then ∃ text, Written s name f text s' else Spoiled s name s'
  | s, .fetch name _ f, ok, s' => if ok = true then ∃ text, Written s name f text s' else Spoiled s name s'
  | s, .copy name f text, ok, s' => if ok = true then Written s name f text s' else Spoiled s name s'
  | s, .head, _, s' => s' = s
  | s, .now, _, s' => s' = s
  | s, .openInfo name, ok, s' => if ok = true then Written s name .buildJson [] s' else s' = s
  | s, .writeInfo name src text, ok, s' =>
    if ok = true then ∃ d, s.dirs.get? name = some d ∧
      s' = { s.put name (d.set .buildJson text) with staged := s.staged ++ [⟨src, d.set .buildJson text⟩] }
    else Spoiled s name s'
  | s, .rename stage final, ok, s' =>
    if ok = true then ∃ d, s.dirs.get? stage = some d ∧ (∀ e, s.dirs.get? final = some e → e.items = []) ∧
      s' = (s.drop stage).put final d
    else s' = s
  | s, .openCurrent, ok, s' => if ok = true then s' = { s with current := some [] } else s' = s
  | s, .writeCurrent text, ok, s' => if ok = true then s' = { s with current := some text } else s' = s

/-! ### The calls -/

abbrev Play (α : Type) : Type := Prog Cmd Ans Failure α

/-- An operation that has to work. -/
def must (p : Play Bool) (e : Failure) : Play Unit := do
  let ok ← p
  if ok then pure () else throw e

def check (c : Check) : Play Unit := must (Prog.ask (Cmd.check c)) .component

def each {α : Type} (f : α → Play Unit) : List α → Play Unit
  | [] => pure ()
  | x :: xs => do
    f x
    each f xs

/-- `shutil.rmtree(path, ignore_errors=True)`. -/
def rmtree (name : Str) : Play Unit := do
  let files ← (Prog.ask (Cmd.scan name) : Play (List File))
  each (fun f => (Prog.ask (Cmd.unlink name f) : Play Bool) >>= fun _ => pure ()) files
  let _ ← (Prog.ask (Cmd.rmdir name) : Play Bool)
  pure ()

/-- `_set_current`. -/
def setCurrent (path : Str) : Play Unit := do
  must (Prog.ask Cmd.openCurrent) .os
  must (Prog.ask (Cmd.writeCurrent (path ++ ['\n']))) .os

section
variable (sha256 : Str → Str)

/-- One file of `stage_deps`. -/
def stageDep (stage : Str) (art : LockFile) : Play Unit := do
  must (Prog.ask (Cmd.fetch stage art.url (.dep (filenameOf art)))) .os
  let s ← (Prog.ask Cmd.look : Play Store)
  if isHash (sha256 ((s.text stage (.dep (filenameOf art))).getD [])) art.hash then pure ()
  else do
    must (Prog.ask (Cmd.unlink stage (.dep (filenameOf art)))) .os
    throw .component

/-- What `stage_deps` does for one project. -/
def stageProject (lock : List Package) (stage project : Str) : Play Unit :=
  match (packages lock).get? project with
  | none => throw .component
  | some pkg => match candidates pkg with
    | none => throw .value
    | some [] => throw .component
    | some arts => each (stageDep sha256 stage) arts

/-- `stage_deps`. -/
def stageDeps (lock : List Package) (wanted : List Str) (stage : Str) : Play Unit :=
  if wanted.any fun project => project ∉ (packages lock).keys then throw .component
  else each (stageProject sha256 lock stage) (sortedStrs wanted)

/-- What `build` makes sure of before it stages. -/
def preconditions : Play Unit :=
  each check [.clean, .treeHash, .version, .interpreter, .lock, .venv, .pinnedVenv, .tests, .pinnedVenv]

/-- The export of the group `sdist-build`, if there is one. -/
def exportBuildRequirements (src : Source) : Play Unit :=
  if src.buildGroup then must (Prog.ask (Cmd.uvExport src.stage .buildRequirements)) .component else pure ()

/-- What `build` stages, all but `BUILD.json`. -/
def stageFiles (src : Source) : Play Unit := do
  rmtree src.stage
  must (Prog.ask (Cmd.mkdir src.stage)) .os
  must (Prog.ask (Cmd.wheel src.stage)) .component
  must (Prog.ask (Cmd.uvExport src.stage .requirements)) .component
  exportBuildRequirements src
  let s ← (Prog.ask Cmd.look : Play Store)
  stageDeps sha256 src.lock (((s.dirs.get? src.stage).map wanted).getD []) src.stage
  each (fun u => must (Prog.ask (Cmd.copy src.stage (.unit u.1) u.2)) .os) ((src.units.map Dict.items).getD [])

/-- `BUILD.json`, and the directory under its name. -/
def publish (src : Source) : Play Unit := do
  let head ← (Prog.ask Cmd.head : Play Str)
  let now ← (Prog.ask Cmd.now : Play Str)
  must (Prog.ask (Cmd.openInfo src.stage)) .os
  must (Prog.ask (Cmd.writeInfo src.stage src (infoText src head now))) .os
  rmtree src.final
  must (Prog.ask (Cmd.rename src.stage src.final)) .os

/-- `build`. -/
def build (src : Source) : Play Artifact := do
  preconditions
  stageFiles sha256 src
  publish src
  setCurrent src.final
  pure ⟨src.version, src.tree.text, src.final⟩

/-- A result, or its exception. -/
def orRaise {α : Type} : Except Failure α → Play α
  | .ok a => pure a
  | .error e => throw e

/-- `ensure_built`. -/
def ensureBuilt (src : Source) : Play Artifact := do
  check .clean
  check .treeHash
  let s ← (Prog.ask Cmd.look : Play Store)
  match ← orRaise (findArtifact s src.tree.text) with
  | some found => do
    setCurrent found.path
    pure found
  | none => build sha256 src

/-- `resolve_artifact`. -/
def resolveArtifact (src : Source) : Option Str → Play Artifact
  | none => ensureBuilt sha256 src
  | some wanted => do
    check .known
    let s ← (Prog.ask Cmd.look : Play Store)
    match ← orRaise (matching s wanted) with
    | [a] => pure a
    | _ => throw .component

/-- A call, at the source that is at HEAD then. -/
inductive Call : Type where
  | build (src : Source)
  | ensureBuilt (src : Source)
  | resolveArtifact (src : Source) (wanted : Option Str)

def Call.run : Call → Play Artifact
  | .build src => Component.build sha256 src
  | .ensureBuilt src => Component.ensureBuilt sha256 src
  | .resolveArtifact src wanted => Component.resolveArtifact sha256 src wanted

end

end Component
end Lab
end MqResiliency
