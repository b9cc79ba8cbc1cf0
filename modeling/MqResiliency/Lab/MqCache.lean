/-
# The cache of MQ tarballs

`artifact.py` and `fetch-mq.sh`, the two programs that fill `build/cache/mq`:
a tarball that is missing is downloaded beside its place and moved there, its
digest goes to a sidecar where there is none, and is checked against it where
there is one (`ensureMqTarballs`, `fetchMq`). `manifest.py` names the tarball
of a box (`tarballName`).
-/
import MqResiliency.Lab.Fleet
import MqResiliency.Lib.Prog
import MqResiliency.Lib.Raise
import MqResiliency.Lib.Regex

namespace MqResiliency
namespace MqCache

open Py Lab Prog

/-! ### Names -/

/-- `_FAMILY_PREFIX` and `_MQ_ARCH_TOKEN`. -/
def familyPrefix (family : Str) : Option Str :=
  if family = "ubuntu".toList then some "UbuntuLinux".toList
  else if family = "rhel".toList then some "Linux".toList
  else none

def mqArchToken (arch : Str) : Option Str :=
  if arch = "aarch64".toList then some "ARM64".toList
  else if arch = "x86_64".toList then some "X64".toList
  else none

inductive NameError : Type where
  | noFamily (family : Str)
  | noArch (arch : Str)
deriving DecidableEq

def tarballOf (version suffix : Str) : Str :=
  version ++ "-IBM-MQ-Advanced-for-Developers-".toList ++ suffix ++ ".tar.gz".toList

/-- `tarball_name`. -/
def tarballName (version : Str) (entry : BoxEntry) (facts : HostFacts) : Except NameError Str :=
  match familyPrefix entry.os.ref.family with
  | none => .error (.noFamily entry.os.ref.family)
  | some family =>
    let arch := boxBuildArch entry.os.archPin facts
    match mqArchToken arch with
    | none => .error (.noArch arch)
    | some token => .ok (tarballOf version (family ++ token))

/-- `mq_tarball_url`. -/
def mqTarballUrl (name : Str) : Str :=
  "https://public.dhe.ibm.com/ibmdl/export/pub/software/websphere/messaging/mqadv/".toList ++ name

/-! ### Commands -/

/-- What is asked of the directory, for a tarball's name. -/
inductive Cmd : Type where
  | exists_ (name : Str)
  /-- To the `.part` beside it. -/
  | download (url name : Str)
  /-- The `.part` takes its place. -/
  | rename (name : Str)
  | hasSidecar (name : Str)
  | digest (name : Str)
  | writeSidecar (name text : Str)
  | readSidecar (name : Str)
  /-- `sha256sum -c`. -/
  | check (name : Str)

/-- `none` and `false`: it raised, or exited with an error. -/
def Ans : Cmd → Type
  | .digest _ => Option Str
  | .readSidecar _ => Option Str
  | _ => Bool

inductive Failure : Type where
  | name (error : NameError)
  /-- What a call raises. -/
  | io (name : Str)
  /-- An `IndexError`: the sidecar has no word. -/
  | noWord (name : Str)
  | mismatch (name actual expected : Str)
  /-- `unsupported host arch`. -/
  | unsupportedArch (arch : Str)

abbrev Cache (α : Type) : Type := Prog Cmd Ans Failure α

def call (name : Str) (c : Cache Bool) : Cache Unit := must c (.io name)

def value (name : Str) (c : Cache (Option Str)) : Cache Str := do
  match ← c with
  | some s => pure s
  | none => throw (.io name)

def digest (name : Str) : Cache Str := value name (ask (Cmd.digest name))

/-- A line of `sha256sum`. -/
def sidecarLine (digest name : Str) : Str := digest ++ [' ', ' '] ++ name ++ ['\n']

/-- The digest goes to the sidecar. -/
def record (name : Str) : Cache Unit := do
  let d ← digest name
  call name (ask (Cmd.writeSidecar name (sidecarLine d name)))

/-- A download that is moved to its place. -/
def acquire (name : Str) : Cache Unit := do
  call name (ask (Cmd.download (mqTarballUrl name) name))
  call name (ask (Cmd.rename name))

/-! ### `artifact.py` -/

/-- `download_mq_tarball`. -/
def downloadMqTarball (name : Str) : Cache Unit := do
  acquire name
  let has : Bool ← ask (Cmd.hasSidecar name)
  if has then pure () else record name

/-- The digest that a sidecar gives. -/
def expected (text : Str) : Option Str := (words text).head?.map fun word => word.map Char.toLower

/-- `_verify_sha256`. -/
def verifySha256 (name : Str) : Cache Unit := do
  let has : Bool ← ask (Cmd.hasSidecar name)
  if has then do
    let text ← value name (ask (Cmd.readSidecar name))
    match expected text with
    | none => throw (.noWord name)
    | some want => do
      let actual ← digest name
      if actual = want then pure () else throw (.mismatch name actual want)
  else record name

def ensureOne (name : Str) : Cache Unit := do
  let there : Bool ← ask (Cmd.exists_ name)
  if there then verifySha256 name
  else do
    downloadMqTarball name
    verifySha256 name

/-- For each of the names. -/
def forEach (one : Str → Cache Unit) : List Str → Cache Unit
  | [] => pure ()
  | name :: names => do
    one name
    forEach one names

/-- `ensure_mq_tarballs_for_boxes`; the paths are those of the names. -/
def ensureMqTarballs (version : Str) (boxes : List BoxEntry) (facts : HostFacts) : Cache (List Str) :=
  match boxes.mapM fun entry => tarballName version entry facts with
  | .error e => throw (.name e)
  | .ok names => do
    forEach ensureOne (sortedStrs names.dedup)
    pure (sortedStrs names.dedup)

/-! ### `fetch-mq.sh` -/

def fetchOne (name : Str) : Cache Unit := do
  let there : Bool ← ask (Cmd.exists_ name)
  (if there then pure () else acquire name : Cache Unit)
  let has : Bool ← ask (Cmd.hasSidecar name)
  if has then call name (ask (Cmd.check name))
  else do
    -- the shell opens the sidecar before `sha256sum` runs
    call name (ask (Cmd.writeSidecar name []))
    record name

/-- The suffixes for `uname -m`. -/
def suffixes (machine : Str) : Option (List Str) :=
  if machine ∈ ["aarch64".toList, "arm64".toList] then some ["UbuntuLinuxARM64".toList, "LinuxX64".toList]
  else if machine ∈ ["x86_64".toList, "amd64".toList] then some ["UbuntuLinuxX64".toList, "LinuxX64".toList]
  else none

/-- `normalize_arch`: what the other program takes the host for. -/
def normalizeArch (machine : Str) : Option Str :=
  let key := ((machine.dropWhile Re.isSpace).rdropWhile Re.isSpace).map Char.toLower
  if key ∈ ["aarch64".toList, "arm64".toList] then some "aarch64".toList
  else if key ∈ ["x86_64".toList, "amd64".toList] then some "x86_64".toList
  else none

/-- `fetch-mq.sh`. -/
def fetchMq (version machine : Str) : Cache Unit :=
  match suffixes machine with
  | none => throw (.unsupportedArch machine)
  | some ss => forEach fetchOne (ss.map (tarballOf version))

end MqCache
end MqResiliency
