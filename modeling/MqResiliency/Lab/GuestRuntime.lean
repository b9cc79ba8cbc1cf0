/-
# The pinned Python of the guests, on the development host

`runtime.py`: `ensure_tarball` keeps the release's tarball in a cache and
checks its hash on every use; `ensure_interpreter` unpacks it into a staging
directory that is renamed into place, where the directory's name is the build's
token and the arch, and takes a directory that has the interpreter for the
pinned build.

The calls are programs over single file operations (`Cmd`), and `answers` is
what these may do. A directory is known by the files that can be read in it.
`sha256` and what unpacking a tarball makes (`unpacked`) are parameters.
-/
import MqResiliency.Lab.LoadCatalog
import MqResiliency.Lib.Prog

namespace MqResiliency
namespace Lab
namespace GuestRuntime

open Py

/-! ### Pins -/

/-- A pin as the catalog has it. -/
structure Pin : Type extends RuntimePin where
  version_ok : Load.isPyVersion version
  release_ok : pbsRelease.length = 8 ∧ pbsRelease.all Char.isDigit
  arches : ∀ arch, arch ∈ sha256.keys ↔ arch ∈ Load.hostArches

namespace Pin

variable (pin : Pin) (arch : Str)

/-- `pin.minor`. -/
def minor : Str :=
  match pin.version.splitOn '.' with
  | [major, minor, _] => major ++ '.' :: minor
  | _ => []

/-- `f"cpython-{token}-{arch}"`. -/
def build : Str := "cpython-".toList ++ pin.token ++ '-' :: arch

/-- `pin.tarball(arch)`, for a pinned arch. -/
def tarball : Str := pin.build arch ++ "-unknown-linux-gnu-install_only.tar.gz".toList

/-- `pin.url(arch)`. -/
def url : Str := "https://github.com/astral-sh/python-build-standalone/releases/download/".toList ++ pin.pbsRelease ++
  '/' :: pin.tarball arch

/-- The interpreter within its directory. -/
def interpreter : Str := "python/bin/python".toList ++ pin.minor

end Pin

/-- The name with `.partial`. -/
def staging (name : Str) : Str := name ++ ".partial".toList

/-- `_ARCH_ALIASES`. -/
def archAliases : Dict Str Str := Dict.ofList [("x86_64".toList, "x86_64".toList), ("amd64".toList, "x86_64".toList),
  ("aarch64".toList, "aarch64".toList), ("arm64".toList, "aarch64".toList)]

/-- `_ARCH_ALIASES.get(machine.lower())`; no other character is lowered to one of theirs. -/
def hostArch (machine : Str) : Option Str := archAliases.get? (machine.map Char.toLower)

/-! ### What is on the disk -/

abbrev Dir : Type := Dict Str Str

/-- The files of the tarballs' directory, the directories below `unpack_root()`,
and, to speak of it, the digest of the pin under which each of these was put in
place. -/
structure Store : Type where
  tarballs : Dict Str Str
  dirs : Dict Str Dir
  published : Dict Str Str

namespace Store

variable (s : Store)

/-- The file has this content, or is not there. -/
def putFile (name : Str) (content : Option Str) : Store :=
  { s with tarballs := match content with
    | none => s.tarballs.erase name
    | some c => s.tarballs.set name c }

def putDir (name : Str) (d : Dir) : Store := { s with dirs := s.dirs.set name d }

def dropDir (name : Str) : Store := { s with dirs := s.dirs.erase name }

/-- `is_file()` of a path in a directory. -/
def isFile (dir path : Str) : Bool := ((s.dirs.get? dir).bind (·.get? path)).isSome

end Store

/-- No file is in the directory that was not. -/
def Within (d d' : Dir) : Prop := ∀ path content, d'.get? path = some content → d.get? path = some content

/-! ### Operations -/

inductive Cmd : Type where
  | look
  /-- `path.parent.mkdir(parents=True, exist_ok=True)`. -/
  | makeParents
  | fetch (url name : Str)
  | replaceFile (src dst : Str)
  /-- `sha256_file`. -/
  | digest (name : Str)
  | unlink (name : Str)
  | rmtree (dir : Str)
  | mkdir (dir : Str)
  | extractall (tarball dir : Str)
  /-- `staging.replace(target)`, for a pin with that digest. -/
  | replaceDir (src dst digest : Str)

/-- What is answered; mostly, whether it worked. -/
abbrev Ans : Cmd → Type
  | .look => Store
  | .digest _ => Option Str
  | _ => Bool

section
variable (sha256 : Str → Str) (unpacked : Str → Option Dir)

/-- What an operation may do. A download may leave anything under its name, and
an extraction that fails anything in its directory; a removal that fails leaves
some of the files. -/
def answers : Env Store Cmd Ans
  | s, .look, a, s' => a = s ∧ s' = s
  | s, .makeParents, _, s' => s' = s
  | s, .fetch _ name, _, s' => ∃ content, s' = s.putFile name content
  | s, .replaceFile src dst, ok, s' =>
    if ok = true then ∃ c, s.tarballs.get? src = some c ∧ s' = (s.putFile src none).putFile dst (some c) else s' = s
  | s, .digest name, a, s' => s' = s ∧ (a = none ∨ ∃ c, s.tarballs.get? name = some c ∧ a = some (sha256 c))
  | s, .unlink name, ok, s' => s' = if ok = true then s.putFile name none else s
  | s, .rmtree dir, ok, s' =>
    if ok = true then s' = s.dropDir dir
    else s' = s ∨ s' = s.dropDir dir ∨ ∃ d d', s.dirs.get? dir = some d ∧ Within d d' ∧ s' = s.putDir dir d'
  | s, .mkdir dir, ok, s' => if ok = true then s.dirs.get? dir = none ∧ s' = s.putDir dir .empty else s' = s
  | s, .extractall tarball dir, ok, s' =>
    if ok = true then ∃ c d d', s.tarballs.get? tarball = some c ∧ s.dirs.get? dir = some d ∧
      (d = .empty → unpacked c = some d') ∧ s' = s.putDir dir d'
    else s' = s ∨ ∃ d', s' = s.putDir dir d'
  | s, .replaceDir src dst digest, ok, s' =>
    if ok = true then ∃ d, s.dirs.get? src = some d ∧ (∀ e, s.dirs.get? dst = some e → e = .empty) ∧
      s' = { (s.dropDir src).putDir dst d with published := s.published.set dst digest }
    else s' = s

/-! ### The calls -/

/-- Why a call fails: a `VersionError` or a `RuntimePinError`, with what it
tells, or another exception, such as an `OSError`. -/
inductive Failure : Type where
  | noBuild (arch : Str) (pinned : List Str)
  | noHostArch (machine : Str)
  | mismatch (name actual expected : Str)
  | noInterpreter (tarball minor : Str)
  | other
deriving DecidableEq

abbrev Play (α : Type) : Type := Prog Cmd Ans Failure α

/-- An operation that has to work. -/
def must (c : Play Bool) : Play Unit := Prog.must c .other

/-- What `ensure_tarball` does where there is no file. -/
def download (pin : Pin) (arch : Str) : Play Unit := do
  must (Prog.ask Cmd.makeParents)
  must (Prog.ask (Cmd.fetch (pin.url arch) (staging (pin.tarball arch))))
  must (Prog.ask (Cmd.replaceFile (staging (pin.tarball arch)) (pin.tarball arch)))

/-- The check of `ensure_tarball`. -/
def verify (name expected : Str) : Play Str := do
  match ← (Prog.ask (Cmd.digest name) : Play (Option Str)) with
  | none => throw .other
  | some actual =>
    if actual = expected then pure name
    else do
      must (Prog.ask (Cmd.unlink name))
      throw (.mismatch name actual expected)

/-- `ensure_tarball`: the name of the file. -/
def ensureTarball (pin : Pin) (arch : Str) : Play Str :=
  match pin.sha256.get? arch with
  | none => throw (.noBuild arch (sortedStrs pin.sha256.keys))
  | some expected => do
    let s ← (Prog.ask Cmd.look : Play Store)
    if s.tarballs.get? (pin.tarball arch) = none then download pin arch else pure ()
    verify (pin.tarball arch) expected

/-- The path of an interpreter below `unpack_root()`. -/
structure Binary : Type where
  dir : Str
  path : Str
deriving DecidableEq

/-- `interpreter_path`. -/
def interpreterPath (pin : Pin) (arch : Str) : Binary := ⟨pin.build arch, pin.interpreter⟩

/-- What `ensure_interpreter` does where there is no interpreter. -/
def unpack (pin : Pin) (arch tarball : Str) : Play Binary := do
  let target := pin.build arch
  let _ ← (Prog.ask (Cmd.rmtree (staging target)) : Play Bool)
  must (Prog.ask (Cmd.mkdir (staging target)))
  must (Prog.ask (Cmd.extractall tarball (staging target)))
  let s ← (Prog.ask Cmd.look : Play Store)
  if s.isFile (staging target) pin.interpreter = false then do
    must (Prog.ask (Cmd.rmtree (staging target)))
    throw (.noInterpreter tarball pin.minor)
  else do
    let _ ← (Prog.ask (Cmd.rmtree target) : Play Bool)
    must (Prog.ask (Cmd.replaceDir (staging target) target ((pin.sha256.get? arch).getD [])))
    pure (interpreterPath pin arch)

/-- `ensure_interpreter` for an arch. -/
def ensureInterpreterFor (pin : Pin) (arch : Str) : Play Binary := do
  let tarball ← ensureTarball pin arch
  let s ← (Prog.ask Cmd.look : Play Store)
  if s.isFile (pin.build arch) pin.interpreter then pure (interpreterPath pin arch) else unpack pin arch tarball

/-- `arch if arch is not None else host_arch()`. -/
def archOf (arch : Option Str) (machine : Str) : Option Str := arch.or (hostArch machine)

/-- `ensure_interpreter`, on that machine. -/
def ensureInterpreter (pin : Pin) (arch : Option Str) (machine : Str) : Play Binary :=
  match archOf arch machine with
  | none => throw (.noHostArch machine)
  | some arch => ensureInterpreterFor pin arch

end

end GuestRuntime
end Lab
end MqResiliency
