/-
# Instance records

`instances.py`: the record of a stack, a file that pins the OS the stack was
built on, and `_reconcile_instance` of `cli.py`, by which a bootstrap takes
the OS that it asks for, checks it against the catalog, and writes the record
or keeps to it. Liveness is probed only where there is no record.

The program runs in a world of files, a host and its domains (`World`). A file
that cannot be read, and a write that fails, may come up at any command.
-/
import MqResiliency.Lab.LoadCatalog
import MqResiliency.Lab.Teardown
import MqResiliency.Lib.Json

namespace MqResiliency
namespace Lab
namespace Instances

open Py Prog

/-! ### Records -/

structure InstanceRecord : Type where
  stack : Str
  os : OsRef
  /-- The path of `--config`, as given. -/
  buildFile : Option Str
  created : Str
deriving DecidableEq

/-- `_KEYS`. -/
def keys : List Str := ["stack".toList, "os".toList, "build_file".toList, "created".toList]

/-- A float in a record, which none has: its text. -/
def floatTexts : Floats Str := ⟨id, "nan".toList, "inf".toList, "-inf".toList⟩

/-- What the messages are made of. -/
structure Texts : Type where
  printable : Char → Bool
  /-- `record_path(stack)`. -/
  path : Str → Str
  /-- `str(exc)` of the `JSONDecodeError` of a text. -/
  jsonError : Str → Str
  /-- `repr(v)` of a value of a record. -/
  repr : Json Str → Str

section
variable (py : Texts)

/-- `_teardown_fix(stack)`. -/
def teardownFix (stack : Str) : Str := ["run `mqlab teardown ".toList, stack, "` and re-bootstrap".toList].flatten

/-- `_corrupt(stack, path, why)`. -/
def corrupt {α : Type} (stack : Str) (why : List Str) : V α :=
  refuse ["instance record ".toList, py.path stack, " for ".toList, stack, " is unreadable (".toList, why.flatten,
    ") — ".toList, teardownFix stack]

/-- The end of `_parse`: the values are of their types. -/
def parseValues (stack : Str) (os build created : Option (Json Str)) : V InstanceRecord :=
  match os, created with
  | some (.str os), some (.str created) =>
    match build with
    | some .null => finish os none created
    | some (.str build) => finish os (some build) created
    | _ => corrupt py stack ["build_file must be a string or null".toList]
  | _, _ => corrupt py stack ["os and created must be strings".toList]
where
  finish (os : Str) (build : Option Str) (created : Str) : V InstanceRecord := do
    let ref ← tryCatch (OsRef.parse py.printable os) fun e =>
      match e with
      | .version msg => corrupt py stack [msg]
      | .lookup => throw .lookup
    return ⟨stack, ref, build, created⟩

/-- `_parse(stack, path, text)`. -/
def parseRecord (stack text : Str) : V InstanceRecord :=
  match loads floatTexts text with
  | .error .decode => corrupt py stack ["not valid JSON: ".toList, py.jsonError text]
  | .error .limit => .convert (maxStrDigits + 1) (refuse [])
  | .ok (.obj ps) =>
    let data := Dict.ofList ps
    if sortedStrs data.keys = sortedStrs keys then
      match data.get? "stack".toList with
      | some (.str s) =>
        if s = stack then
          parseValues py stack (data.get? "os".toList) (data.get? "build_file".toList) (data.get? "created".toList)
        else corrupt py stack ["it names stack ".toList, py.repr (.str s)]
      | some v => corrupt py stack ["it names stack ".toList, py.repr v]
      | none => throw .lookup
    else corrupt py stack ["expected exactly the keys ".toList, commas keys]
  | .ok _ => corrupt py stack ["expected exactly the keys ".toList, commas keys]

end

/-- `json.dump(payload, fh, indent=2)`, and a line break; `os` is the text of the OS. -/
def recordText (record : InstanceRecord) (os : Str) : Str :=
  objText "\n  ".toList "\n  ".toList "\n".toList
    [("stack".toList, quoted record.stack), ("os".toList, quoted os),
      ("build_file".toList, record.buildFile.elim "null".toList quoted), ("created".toList, quoted record.created)] ++ ['\n']

/-! ### Commands -/

/-- What reading a YAML file comes to: a value, a `VersionError`, or another exception. -/
inductive Read : Type where
  | value (v : Yaml)
  | refused (msg : Str)
  | failed

/-- What reading a record comes to. -/
inductive RecordRead : Type where
  | absent
  | text (s : Str)
  | failed

inductive Cmd : Type where
  | readCatalog
  | readRecord (stack : Str)
  | readBuildFile (path : Str)
  | hostFacts
  /-- `virsh list --all`. -/
  | listAll
  /-- `_now()`. -/
  | now
  | echo (text : Str)
  /-- `path.parent.mkdir(parents=True, exist_ok=True)`. -/
  | makeDir
  /-- `tempfile.mkstemp`. -/
  | makeTemp
  /-- The whole text, to the temporary file. -/
  | writeTemp (text : Str)
  /-- `tmp.replace(record_path(stack))`. -/
  | replace (stack : Str)
  /-- `tmp.unlink()`. -/
  | unlinkTemp
deriving DecidableEq

/-- The answers; a `Bool` says that the command did not raise. -/
abbrev Ans : Cmd → Type
  | .readCatalog => Read
  | .readRecord _ => RecordRead
  | .readBuildFile _ => Read
  | .hostFacts => HostFacts
  | .listAll => Teardown.Listing
  | .now => Str
  | .echo _ => Unit
  | .makeDir => Bool
  | .makeTemp => Bool
  | .writeTemp _ => Bool
  | .replace _ => Bool
  | .unlinkTemp => Bool

/-- How the command ends before its end. -/
inductive Halt : Type where
  | version (msg : Str)
  /-- `typer.Exit(code)`. -/
  | exit (code : ℤ)
  /-- Any other exception. -/
  | crash
deriving DecidableEq

abbrev Inst (α : Type) : Type := Prog Cmd Ans Halt α

/-- A computation of the version layer. -/
def lift {α : Type} (c : V α) : Inst α :=
  match c.exec with
  | .ok a => pure a
  | .error (.own (.version msg)) => throw (.version msg)
  | .error _ => throw .crash

/-- What was read, if it was. -/
def Read.get : Read → Inst Yaml
  | .value v => pure v
  | .refused msg => throw (.version msg)
  | .failed => throw .crash

/-- An exception of the file system. -/
def orCrash (c : Cmd) (ok : Ans c → Bool) : Inst Unit := do
  let a ← ask c
  if ok a then pure () else throw .crash

/-! ### The records -/

section
variable (py : Texts)

/-- `read_record(stack)`. -/
def readRecord (stack : Str) : Inst (Option InstanceRecord) := do
  let file : RecordRead ← ask (Cmd.readRecord stack)
  match file with
  | .absent => pure none
  | .text s => do
    let record ← lift (parseRecord py stack s)
    return some record
  | .failed => throw .crash

/-- `write_record(rec)`. -/
def writeRecord (record : InstanceRecord) : Inst Unit := do
  orCrash .makeDir id
  let os ← lift record.os.text
  orCrash .makeTemp id
  tryCatch (do
      orCrash (.writeTemp (recordText record os)) id
      orCrash (.replace record.stack) id)
    fun e => do
      let _ ← ask Cmd.unlinkTemp
      throw e

/-- `_live_without_record(stack)`. -/
def liveWithoutRecord {α : Type} (stack : Str) : V α :=
  refuse [stack, " is running without a version record; ".toList, teardownFix stack,
    " (teardown destroys its domains by name, then `mqlab bootstrap ".toList, stack, "` records ".toList,
    "the OS it builds)".toList]

/-- `reconcile(stack, requested, live=live, build_file=build)`. -/
def reconcile (stack : Str) (requested : OsRef) (live : Bool) (build : Option Str) : Inst InstanceRecord := do
  let existing ← readRecord py stack
  match existing with
  | none =>
    if live then lift (liveWithoutRecord stack)
    else do
      let created : Str ← ask Cmd.now
      let record : InstanceRecord := ⟨stack, requested, build, created⟩
      writeRecord record
      return record
  | some existing =>
    if existing.os ≠ requested then lift do
      let running ← existing.os.text
      let asked ← requested.text
      refuse [stack, " is running ".toList, running, "; requested ".toList, asked, "; run `mqlab teardown ".toList,
        stack, "` first".toList]
    else return existing

end

/-! ### The bootstrap's part -/

section
variable (py : Texts) (fs : Load.Files) (topo : Topology)

/-- Some member of the stack holds a live process, by the listing. -/
def stackIsLive (stack : Str) (listing : Teardown.Listing) : Bool :=
  ((stackMembers topo stack).getD []).any (isLive listing.states)

/-- Texts to the operator. -/
def echoes : List Str → Inst Unit
  | [] => pure ()
  | t :: ts => do
    ask (Cmd.echo t)
    echoes ts

/-- `_stack_live(stack_name)`; `str(rc)` is in the first line that is echoed. -/
def stackLive (stack : Str) : Inst Bool :=
  if (stackMembers topo stack).getD [] = [] then pure false
  else do
    let listing : Teardown.Listing ← ask Cmd.listAll
    if listing.rc ≠ 0 then do
      let rc ← lift (.ofInt listing.rc)
      echoes ((["virsh list failed (exit ".toList, rc, "):".toList].flatten) :: listing.lines)
      throw (.exit 1)
    else return stackIsLive topo stack listing

/-- A warning, if there is one. -/
def warn (c : V (Option Str)) : Inst Unit := do
  let warning ← lift c
  match warning with
  | some t => ask (Cmd.echo t)
  | none => pure ()

/-- What the request is made of: the build file, or the record's OS. -/
def buildOf (config : Option Str) (existing : Option InstanceRecord) : Inst (Option BuildFile) :=
  match config, existing with
  | some path, _ => do
    let file : Read ← ask (Cmd.readBuildFile path)
    let value ← file.get
    let build ← lift (Load.loadBuildFile fs path value)
    return some build
  | none, some record => pure (some ⟨some record.os⟩)
  | none, none => pure none

/-- The body of `_reconcile_instance`. -/
def reconcileBody (stack : Str) (config : Option Str) : Inst InstanceRecord := do
  let file : Read ← ask Cmd.readCatalog
  let value ← file.get
  let cat ← lift (Load.loadCatalog fs value)
  let existing ← readRecord py stack
  let build ← buildOf fs config existing
  let facts : HostFacts ← ask Cmd.hostFacts
  let requested ← lift (cat.stackOs fs.printable stack build facts)
  warn (cat.supportWarning requested)
  warn cat.infraMqWarning
  let live ← if existing.isNone then stackLive topo stack else pure false
  reconcile py stack requested live config

/-- `_reconcile_instance(stack_name, config)`. -/
def reconcileInstance (stack : Str) (config : Option Str) : Inst InstanceRecord := do
  let record ← tryCatch (reconcileBody py fs topo stack config) fun e =>
    match e with
    | .version msg => do
      ask (Cmd.echo msg)
      throw (.exit 2)
    | e => throw e
  let os ← lift record.os.text
  ask (Cmd.echo [stack, ": OS ".toList, os, " (instance record ".toList, py.path stack, ")".toList].flatten)
  return record

end

/-! ### The world -/

/-- The files, the host and its domains, as a bootstrap finds them. -/
structure World : Type where
  catalog : Read
  buildFile : Str → Read
  facts : HostFacts
  domains : Teardown.Listing
  /-- The texts of the records, by their stacks. -/
  records : Str → Option Str
  /-- The temporary file of the run. -/
  temp : Option Str

/-- What a record's file reads as. -/
def RecordRead.ofFile : Option Str → RecordRead
  | none => .absent
  | some s => .text s

/-- What may be answered, and the world after. -/
def env : Env World Cmd Ans
  | w, .readCatalog, a, w' => a = w.catalog ∧ w' = w
  | w, .readRecord stack, a, w' => (a = .failed ∨ a = .ofFile (w.records stack)) ∧ w' = w
  | w, .readBuildFile path, a, w' => a = w.buildFile path ∧ w' = w
  | w, .hostFacts, a, w' => a = w.facts ∧ w' = w
  | w, .listAll, a, w' => a = w.domains ∧ w' = w
  | w, .now, _, w' => w' = w
  | w, .echo _, _, w' => w' = w
  | w, .makeDir, _, w' => w' = w
  | w, .makeTemp, ok, w' => w' = if ok then { w with temp := some [] } else w
  | w, .writeTemp text, ok, w' =>
    if ok then w' = { w with temp := some text } else ∃ part, part <+: text ∧ w' = { w with temp := some part }
  | w, .replace stack, ok, w' =>
    if ok then ∃ text, w.temp = some text ∧
      w' = { w with records := Function.update w.records stack (some text), temp := none }
    else w' = w
  | w, .unlinkTemp, ok, w' => w' = if ok then { w with temp := none } else w

/-- What happens in the lab, between bootstraps and with them. -/
inductive Op : Type where
  /-- A bootstrap, which may be cut off. -/
  | bootstrap (stack : Str) (config : Option Str)
  /-- The end of a teardown: `delete_record(stack)`. -/
  | deleteRecord (stack : Str)
  /-- Anything that leaves the records alone: edits of the catalog and of build
  files, domains that start and stop, another host. -/
  | other
deriving DecidableEq

section
variable (py : Texts) (fs : Load.Files) (topo : Topology)

inductive LabStep : Op → World → World → Prop where
  | bootstrap {stack : Str} {config : Option Str} {w w' : World} {p : Inst InstanceRecord} :
    Reach env (reconcileInstance py fs topo stack config, w) (p, w') → LabStep (.bootstrap stack config) w w'
  | deleteRecord {stack : Str} {w : World} :
    LabStep (.deleteRecord stack) w { w with records := Function.update w.records stack none }
  | other {w w' : World} : w'.records = w.records → LabStep .other w w'

/-- A run of the lab. -/
inductive LabRun : List Op → World → World → Prop where
  | nil {w : World} : LabRun [] w w
  | cons {op : Op} {ops : List Op} {w w' w'' : World} :
    LabStep py fs topo op w w' → LabRun ops w' w'' → LabRun (op :: ops) w w''

end

/-- The OS that a stack's record has. -/
def recordedOs (py : Texts) (w : World) (stack : Str) : Option OsRef :=
  (w.records stack).bind fun text =>
    match (parseRecord py stack text).exec with
    | .ok record => some record.os
    | .error _ => none

end Instances
end Lab
end MqResiliency
