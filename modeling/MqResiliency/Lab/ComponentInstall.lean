/-
# The component install

The role that installs a staged component on a guest. Every release is built
at its final path `releases/<id>/venv`; what is live is a link `venv` to it,
and `previous` links to what was live before. A link is changed by an `ln -s`
to a temporary name and a rename of that name (`flip`, `flipBack`).

The role is a program (`install`) whose commands are the tasks and, in the
shell tasks, the single commands. What they do to the guest, and what they may
leave behind when they fail, is `Answers`.
-/
import Mathlib.Data.List.DropRight
import MqResiliency.Lib.Dict
import MqResiliency.Lib.Prog
import MqResiliency.Lib.Regex

namespace MqResiliency
namespace Lab
namespace ComponentInstall

open Py

/-! ### Paths -/

/-- `basename` of Ansible: what follows the last slash. -/
def ansibleBasename (path : Str) : Str := path.rtakeWhile fun c => c ≠ '/'

/-- A path without the slashes at its end. -/
def stripSlashes (path : Str) : Str := path.rdropWhile fun c => c = '/'

/-- `basename` of the shell. -/
def basename (path : Str) : Str :=
  if stripSlashes path = [] then path.take 1
  else (stripSlashes path).rtakeWhile fun c => c ≠ '/'

/-- `dirname` of the shell. -/
def dirname (path : Str) : Str :=
  if stripSlashes path = [] then if path = [] then ['.'] else ['/']
  else
    let parent := (stripSlashes path).rdropWhile fun c => c ≠ '/'
    if parent = [] then ['.'] else if stripSlashes parent = [] then ['/'] else stripSlashes parent

/-- `releases/<id>/venv`. -/
def venvPath (id : Str) : Str := "releases/".toList ++ (id ++ "/venv".toList)

/-! ### The guest -/

/-- The two links of a component. -/
inductive Name : Type where
  | venv
  | previous
deriving DecidableEq

/-- What is found under a name. -/
inductive Entry : Type where
  | absent
  | link (target : Str)
  /-- A directory or a file. -/
  | other
deriving DecidableEq

/-- `readlink`; it prints nothing for what is not a link. -/
def Entry.readlink : Entry → Str
  | link target => target
  | absent | other => []

/-- `-L`. -/
def Entry.isLink : Entry → Bool
  | link _ => true
  | absent | other => false

/-- What is under `releases/<id>`: a release whose selfcheck succeeded in
place, or anything else. -/
inductive Release : Type where
  | absent
  | unchecked
  | checked
deriving DecidableEq

/-- A component's root: the links, the temporary names `venv.tmp` and
`previous.tmp`, the releases, and the rest of the guest. -/
@[ext] structure Guest (ρ : Type) : Type where
  entry : Name → Entry
  temp : Name → Entry
  releases : Str → Release
  rest : ρ

section
variable {ρ : Type}

def Guest.setEntry (w : Guest ρ) (n : Name) (e : Entry) : Guest ρ := { w with entry := Function.update w.entry n e }

def Guest.setTemp (w : Guest ρ) (n : Name) (e : Entry) : Guest ρ := { w with temp := Function.update w.temp n e }

def Guest.setRelease (w : Guest ρ) (id : Str) (r : Release) : Guest ρ :=
  { w with releases := Function.update w.releases id r }

end

/-! ### Commands -/

/-- Tasks that leave the root's links and releases alone. -/
inductive Task : Type where
  | stagingDir
  | clearStage
  | copyArtifact
  | rootDir
  | etcDir
  | recordInstalled
  | removeStage
  | copyUnit (unit : Str)
  | daemonReload
  | restart (unit : Str)
deriving DecidableEq

/-- The artifact's files of requirements. -/
inductive Requirements : Type where
  | build
  | runtime
deriving DecidableEq

/-- What changes a release while it is built. -/
inductive Build : Type where
  /-- `rm -rf`. -/
  | remove
  | mkdir
  | venv
  | pipRequirements (file : Requirements)
  | pipWheel
deriving DecidableEq

inductive Cmd : Type where
  /-- The `stat` of the runtime's `PIN`, and its text. -/
  | statPin
  | slurpPin
  | task (t : Task)
  | build (id : Str) (b : Build)
  /-- `[ -s <file> ]`. -/
  | nonEmpty (file : Requirements)
  /-- `gcc_for` of the variable `CC` or `LDSHARED`. -/
  | gccFor (id var : Str)
  | selfcheck (id : Str)
  /-- `-L`, `-e` and `readlink`. -/
  | look (n : Name)
  /-- `rm -rf venv`, and `rm -f venv`. -/
  | removeLegacy
  | removeVenv
  /-- `rm -rf venv.new venv.prev venv.tmp previous.tmp`. -/
  | clearTemps
  /-- `ln -s <target> <n>.tmp`. -/
  | link (n : Name) (target : Str)
  /-- `mv -T <n>.tmp <n>`. -/
  | rename (n : Name)
  | liveSelfcheck
  /-- The names that `releases/*/` stands for. -/
  | listReleases
  | prune (id : Str)
  | isEnabled (unit : Str)
deriving DecidableEq

/-- The answer: what was read (`none`: the command failed), or if the command
succeeded. -/
abbrev Ans : Cmd → Type
  | .statPin => Option Bool
  | .slurpPin => Option Str
  | .gccFor _ _ => Option Str
  | .look _ => Entry
  | .listReleases => List Str
  | .isEnabled _ => Str
  | _ => Bool

/-- What `rm -rf` of a release may leave. -/
def Release.removed (old : Release) (ok : Bool) (r : Release) : Prop :=
  if ok then r = .absent else r = old ∨ old ≠ .absent ∧ r = .unchecked

/-- What a step of a build may leave. -/
def Release.built (old : Release) (ok : Bool) (r : Release) : Prop :=
  if ok then r = .unchecked else r = old ∨ r = .unchecked

/-- What a command may answer, and the guest after it. -/
def Answers {ρ : Type} (w : Guest ρ) : (c : Cmd) → Ans c → Guest ρ → Prop
  | .statPin, _, w' => w' = w
  | .slurpPin, _, w' => w' = w
  | .task _, _, w' => ∃ rest, w' = { w with rest }
  | .build id .remove, ok, w' => ∃ r, (w.releases id).removed ok r ∧ w' = w.setRelease id r
  | .build id _, ok, w' => ∃ r, (w.releases id).built ok r ∧ w' = w.setRelease id r
  | .nonEmpty _, _, w' => w' = w
  | .gccFor _ _, _, w' => w' = w
  | .selfcheck id, ok, w' => if ok then w.releases id ≠ .absent ∧ w' = w.setRelease id .checked else w' = w
  | .look n, e, w' => e = w.entry n ∧ w' = w
  | .removeLegacy, ok, w' =>
    -- a directory that is removed in part is still there
    if ok then w' = w.setEntry .venv .absent else w' = w
  | .removeVenv, ok, w' =>
    -- without `-r`, only a link or a file
    if ok then w' = w.setEntry .venv .absent else w' = w
  | .clearTemps, ok, w' => ∃ temp, (ok → ∀ n, temp n = .absent) ∧ w' = { w with temp }
  | .link n target, ok, w' =>
    -- where there is something under the name, the link is not made, or inside of it
    w' = if ok ∧ w.temp n = .absent then w.setTemp n (.link target) else w
  | .rename n, ok, w' =>
    if ok then w.temp n ≠ .absent ∧ w' = (w.setEntry n (w.temp n)).setTemp n .absent else w' = w
  | .liveSelfcheck, _, w' => w' = w
  | .listReleases, ids, w' => (∀ id ∈ ids, w.releases id ≠ .absent) ∧ w' = w
  | .prune id, ok, w' => ∃ r, (w.releases id).removed ok r ∧ w' = w.setRelease id r
  | .isEnabled _, _, w' => w' = w

/-! ### The role -/

/-- The text of `strftime('%Y%m%dT%H%M%SZ')`. -/
structure Stamp : Type where
  text : Str
  plain : ∀ c ∈ text, c.isDigit ∨ c = 'T' ∨ c = 'Z'

/-- The role's variables. `units` are the base names of the files in the
artifact's `systemd/`, sorted. -/
structure Vars : Type where
  token : Str
  componentName : Option Str
  componentArtifacts : Dict Str Str
  labStageDir : Option Str
  stamp : Stamp
  units : List Str
  startUnits : Bool

/-- Why a run ends early: a precondition does not hold, a task failed, or a
rescue has completed and fails the run. -/
inductive Halt : Type where
  | precondition
  | task
  | buildFailed
  | liveFailed
deriving DecidableEq

abbrev Play (α : Type) : Type := Prog Cmd Ans Halt α

/-- A command that ends the run if it fails. -/
def must (ok : Play Bool) : Play Unit := do
  if ← ok then pure () else throw .task

def task (t : Task) : Play Unit := must (Prog.ask (Cmd.task t))

/-- `component_artifacts[component_name]`. -/
def Vars.source (v : Vars) : Option Str := v.componentName.bind v.componentArtifacts.get?

/-- `_c_release_id`. -/
def releaseId (source : Str) (stamp : Stamp) : Str := ansibleBasename source ++ '-' :: stamp.text

/-- The assertion on `lab_stage_dir`: it is an absolute path outside `/tmp`. -/
def onDisk (dir : Str) : Bool :=
  dir.take 1 = ['/'] ∧ ¬ (dir.take 4 = "/tmp".toList ∧
    ((dir.drop 4).take 1 = ['/'] ∨ dir.drop 4 = [] ∨ dir.drop 4 = ['\n']))

/-- The preconditions, and the directory of the artifact. -/
def preconditions (v : Vars) : Play Str := do
  let found ← (Prog.ask Cmd.statPin : Play (Option Bool))
  if found = some true then
    let pin ← (Prog.ask Cmd.slurpPin : Play (Option Str))
    if pin.map trim = some v.token then
      match v.source with
      | none => throw .precondition
      | some source =>
        if (v.labStageDir.map onDisk).getD false then pure source else throw .precondition
    else throw .precondition
  else throw .precondition

/-- The staging dir, the artifact in it, and the component's directories. -/
def stage : Play Unit := do
  task .stagingDir
  task .clearStage
  task .copyArtifact
  task .rootDir
  task .etcDir

/-- The requirements of the component itself, with compilers for them. -/
def pipRuntime (id : Str) : Play Unit := do
  let cc ← (Prog.ask (Cmd.gccFor id "CC".toList) : Play (Option Str))
  if cc = none then throw .task
  else
    let ldshared ← (Prog.ask (Cmd.gccFor id "LDSHARED".toList) : Play (Option Str))
    if cc = some [] ∨ ldshared.getD [] = [] then throw .task
    else must (Prog.ask (Cmd.build id (.pipRequirements .runtime)))

/-- Building the release venv. -/
def build (id : Str) : Play Unit := do
  must (Prog.ask (Cmd.build id .remove))
  must (Prog.ask (Cmd.build id .mkdir))
  must (Prog.ask (Cmd.build id .venv))
  if ← (Prog.ask (Cmd.nonEmpty .build) : Play Bool) then must (Prog.ask (Cmd.build id (.pipRequirements .build)))
  if ← (Prog.ask (Cmd.nonEmpty .runtime) : Play Bool) then pipRuntime id
  must (Prog.ask (Cmd.build id .pipWheel))

/-- The block that builds the release and selfchecks it in place. -/
def buildBlock (id : Str) : Play Unit :=
  tryCatch
    (do build id
        must (Prog.ask (Cmd.selfcheck id)))
    fun _ => do
      must (Prog.ask (Cmd.build id .remove))
      throw .buildFailed

/-- `ln -s` to the temporary name, and the rename. -/
def relink (n : Name) (target : Str) : Play Unit := do
  must (Prog.ask (Cmd.link n target))
  must (Prog.ask (Cmd.rename n))

/-- A `venv` that is no link is removed. -/
def clearLegacy (live : Entry) : Play Unit :=
  if live = .other then must (Prog.ask Cmd.removeLegacy) else pure ()

/-- Flipping `venv` to the release, and `previous` to what was live. -/
def flip (id : Str) : Play Unit := do
  let live ← (Prog.ask (Cmd.look .venv) : Play Entry)
  clearLegacy live
  must (Prog.ask Cmd.clearTemps)
  relink .venv (venvPath id)
  if live.readlink ≠ [] ∧ live.readlink ≠ venvPath id then relink .previous live.readlink else pure ()

/-- Flipping back to the previous release. -/
def flipBack : Play Unit := do
  let prev ← (Prog.ask (Cmd.look .previous) : Play Entry)
  match prev with
  | .link target => relink .venv target
  | _ => must (Prog.ask Cmd.removeVenv)

/-- The block that selfchecks through the live path. -/
def liveBlock : Play Unit :=
  tryCatch (must (Prog.ask Cmd.liveSelfcheck)) fun _ => do
    flipBack
    throw .liveFailed

/-- The release that a link of the root keeps. -/
def Entry.keeps (e : Entry) : Str := basename (dirname e.readlink)

/-- A release that is neither the live one nor the previous is removed. -/
def pruneOne (keepLive keepPrev id : Str) : Play Unit :=
  if id ≠ keepLive ∧ id ≠ keepPrev then must (Prog.ask (Cmd.prune id)) else pure ()

def pruneAll (keepLive keepPrev : Str) : List Str → Play Unit
  | [] => pure ()
  | id :: ids => do
    pruneOne keepLive keepPrev id
    pruneAll keepLive keepPrev ids

def prune : Play Unit := do
  let live ← (Prog.ask (Cmd.look .venv) : Play Entry)
  let prev ← (Prog.ask (Cmd.look .previous) : Play Entry)
  let ids ← (Prog.ask Cmd.listReleases : Play (List Str))
  pruneAll live.keeps (if prev.isLink then prev.keeps else []) ids

/-- The states of the units; an empty answer is a failure. -/
def enabled : List Str → Play (List Str)
  | [] => pure []
  | unit :: units => do
    let state ← (Prog.ask (Cmd.isEnabled unit) : Play Str)
    if state = [] then throw .task
    else
      let others ← enabled units
      pure (if state = "enabled".toList then unit :: others else others)

/-- What follows the prune. -/
def finish (v : Vars) : Play Unit := do
  task .recordInstalled
  task .removeStage
  v.units.forM fun unit => task (.copyUnit unit)
  task .daemonReload
  if v.startUnits then
    let units ← enabled v.units
    units.forM fun unit => task (.restart unit)
  else pure ()

/-- The role, once its preconditions hold. -/
def installRelease (v : Vars) (id : Str) : Play Unit := do
  stage
  buildBlock id
  flip id
  liveBlock
  prune
  finish v

/-- The role. -/
def install (v : Vars) : Play Unit := do
  let source ← preconditions v
  installRelease v (releaseId source v.stamp)

end ComponentInstall
end Lab
end MqResiliency
