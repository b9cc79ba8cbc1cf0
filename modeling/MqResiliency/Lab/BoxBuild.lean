/-
# The builders and their cache

`build-fatbox.sh` caches a fat box as a `.box` and, written after it, a
`.manifest-hash` with the digest of the inputs of the bake. `rhel/build-box.sh`
caches a base box as its `.box` alone. Both decide up front whether to build
the box or to use it again (`decision`, `baseDecision`).

A run is the decision and the commands that follow it, cut off after any of
them. The `tar` that writes the `.box` is two commands here: between them the
file is there and cut short. `migrateBoxCache` renames the files that earlier
versions left (`Move`), each on its own. `World.step` puts the three together
with the edits of what is hashed.
-/
import MqResiliency.Lab.Fleet

namespace MqResiliency
namespace Lab
namespace BoxBuild

open Py

/-! ### Files -/

/-- What `_manifest-hash.sh` prints: 64 digits, on one line. -/
structure Digest : Type where
  text : Str
  length_eq : text.length = 64
  one_line : '\n' ∉ text

@[ext] theorem Digest.ext' {d d' : Digest} (h : d.text = d'.text) : d = d' := by
  cases d
  cases d'
  cases h
  rfl

/-- `$( … )`: the output without the newlines at its end. -/
def substituted (out : Str) : Str := out.rdropWhile fun c => c = '\n'

/-- What a `.box` holds: all that `tar` wrote of the bake of these inputs, or
the beginning of it. -/
inductive Tarball (ι : Type) : Type where
  | torn
  | whole (inputs : ι)

/-- A `.box`. -/
structure BoxFile (ι : Type) : Type where
  content : Tarball ι
  mtime : ℤ

/-- A fat box's `.box`, and the text of its `.manifest-hash`. -/
structure Pair (ι : Type) : Type where
  box : Option (BoxFile ι)
  hashFile : Option Str

/-- Where a pair lies: under `<box>-<arch>`, or under the older `<box>`. -/
inductive Slot : Type where
  | current (box arch : Str)
  | legacy (box : Str)
deriving DecidableEq

/-- Whose pair it is. -/
def Slot.box : Slot → Str
  | current b _ => b
  | legacy b => b

/-- `build/state/boxes/`: the fat boxes' pairs, and the base boxes' `.box`
files by their names. -/
structure Cache (ι : Type) : Type where
  pairs : Slot → Pair ι
  bases : Str → Option (BoxFile ι)

/-- The cache, and what the next run would hash. -/
structure World (ι : Type) : Type where
  inputs : ι
  cache : Cache ι

/-! ### Decisions -/

inductive Action : Type where
  | build
  | forceBuild
  | stale
  | reuse
deriving DecidableEq

/-- A run of `build-fatbox.sh`: its flags, `REFUSE_DAYS`, and the clock when
it decides and when it packages. -/
structure FatRun : Type where
  box : Str
  arch : Str
  force : Bool
  dryRun : Bool
  refuseDays : ℤ
  decidedAt : ℤ
  packagedAt : ℤ

/-- A run of `rhel/build-box.sh`. The notice past `STALE_DAYS` decides nothing. -/
structure BaseRun : Type where
  major : Str
  force : Bool
  dryRun : Bool
  packagedAt : ℤ

/-- `age_days`. -/
def ageDays {ι : Type} (now : ℤ) (f : BoxFile ι) : ℤ := (now - f.mtime).tdiv 86400

/-- The decision of `build-fatbox.sh`. -/
def decision {ι : Type} (run : FatRun) (current : Digest) (p : Pair ι) : Action :=
  if run.force then .forceBuild
  else
    match p.box with
    | none => .build
    | some f =>
      -- a missing stamp reads as the empty text
      if substituted (p.hashFile.getD []) ≠ current.text then .build
      else if run.refuseDays ≤ ageDays run.decidedAt f then .stale
      else .reuse

/-- The decision of `rhel/build-box.sh`. -/
def baseDecision {ι : Type} (run : BaseRun) (box : Option (BoxFile ι)) : Action :=
  if run.force then .forceBuild
  else if box.isSome then .reuse
  else .build

/-! ### Commands -/

/-- The commands of a build. `bake` is all that comes before the `tar`;
`record` writes `.components.json`. -/
inductive BuildCmd : Type where
  | bake
  | tarOpen
  | tarDone
  | stamp
  | record
  | register
  | cleanUp
deriving DecidableEq

/-- Building a fat box. -/
def packaging : List BuildCmd := [.bake, .tarOpen, .tarDone, .stamp, .record, .register, .cleanUp]

/-- Building a base box. -/
def basePackaging : List BuildCmd := [.bake, .tarOpen, .tarDone, .register, .cleanUp]

/-- The commands that a decision leads to; the others leave the cache alone. -/
def script (cmds : List BuildCmd) (dryRun : Bool) : Action → List BuildCmd
  | .build | .forceBuild => if dryRun then [] else cmds
  | .stale | .reuse => []

/-- What a command makes of the `.box`, for a bake of these inputs. -/
def BuildCmd.write {ι : Type} (inputs : ι) (now : ℤ) (box : Option (BoxFile ι)) : BuildCmd → Option (BoxFile ι)
  | .tarOpen => some ⟨.torn, now⟩
  | .tarDone => some ⟨.whole inputs, now⟩
  | _ => box

/-- What a command makes of the pair. -/
def BuildCmd.apply {ι : Type} (inputs : ι) (current : Digest) (now : ℤ) (p : Pair ι) (c : BuildCmd) : Pair ι where
  box := c.write inputs now p.box
  hashFile := if c = .stamp then some (current.text ++ ['\n']) else p.hashFile

/-! ### Migration -/

/-- A rename of `migrate_box_cache`: a fat box's `.box` or its stamp, or a
retired base box. -/
inductive Move : Type where
  | box (name : Str)
  | hash (name : Str)
  | base (legacy new : Str)

/-- Every legacy fat box was built for this. -/
def legacyArch : Str := "x86_64".toList

/-- `moves`; `retired` are the values of `RETIRED_BASE_ARTIFACTS`. -/
def moves (fleet : List BoxSpec) (retired : List (Str × Str)) : List Move :=
  (fleet.flatMap fun spec => if spec.hasManifestHash then [.box spec.name, .hash spec.name] else []) ++
    retired.map fun r => .base r.1 (baseCacheArtifact r.2)

/-- The name, if there is such a file and none under the new name. -/
def moved {α : Type} (src dst : Option α) : Option α :=
  match src, dst with
  | some f, none => some f
  | _, _ => none

/-- The cache with another pair there. -/
def Cache.setPair {ι : Type} (c : Cache ι) (k : Slot) (p : Pair ι) : Cache ι :=
  { c with pairs := Function.update c.pairs k p }

/-- The cache with another base box there. -/
def Cache.setBase {ι : Type} (c : Cache ι) (artifact : Str) (f : Option (BoxFile ι)) : Cache ι :=
  { c with bases := Function.update c.bases artifact f }

/-- Renaming, or not. -/
def Move.apply {ι : Type} (c : Cache ι) : Move → Cache ι
  | .box name =>
    let src := c.pairs (.legacy name)
    let dst := c.pairs (.current name legacyArch)
    match moved src.box dst.box with
    | some f =>
      (c.setPair (.legacy name) { src with box := none }).setPair (.current name legacyArch)
        { dst with box := some f }
    | none => c
  | .hash name =>
    let src := c.pairs (.legacy name)
    let dst := c.pairs (.current name legacyArch)
    match moved src.hashFile dst.hashFile with
    | some t =>
      (c.setPair (.legacy name) { src with hashFile := none }).setPair (.current name legacyArch)
        { dst with hashFile := some t }
    | none => c
  | .base legacy new =>
    match moved (c.bases legacy) (c.bases new) with
    | some f => (c.setBase legacy none).setBase new (some f)
    | none => c

/-! ### Steps -/

section
variable {ι : Type} (manifestHash : Str → ι → Digest)

/-- `CURRENT_HASH`. -/
def World.currentHash (w : World ι) (box : Str) : Digest := manifestHash box w.inputs

/-- The pair that a run is about. -/
def World.pair (w : World ι) (run : FatRun) : Pair ι := w.cache.pairs (.current run.box run.arch)

/-- What a run decides. -/
def World.decides (w : World ι) (run : FatRun) : Action :=
  decision run (w.currentHash manifestHash run.box) (w.pair run)

/-- `CACHE` of `rhel/build-box.sh`. -/
def BaseRun.artifact (run : BaseRun) : Str := "rhel-".toList ++ run.major ++ "-x86_64.box".toList

/-- What a run decides. -/
def World.decidesBase (w : World ι) (run : BaseRun) : Action :=
  baseDecision run (w.cache.bases run.artifact)

/-- The commands of a run that is cut off after `stop` of them. -/
def World.fatCmds (w : World ι) (run : FatRun) (stop : ℕ) : List BuildCmd :=
  (script packaging run.dryRun (w.decides manifestHash run)).take stop

/-- The commands of a run that is cut off after `stop` of them. -/
def World.baseCmds (w : World ι) (run : BaseRun) (stop : ℕ) : List BuildCmd :=
  (script basePackaging run.dryRun (w.decidesBase run)).take stop

/-- What happens: what is hashed is edited, a builder runs, or
`migrate_box_cache` does, each cut off somewhere. -/
inductive Event (ι : Type) : Type where
  | edit (inputs : ι)
  | fat (run : FatRun) (stop : ℕ)
  | base (run : BaseRun) (stop : ℕ)
  | migrate (fleet : List BoxSpec) (retired : List (Str × Str)) (dryRun : Bool) (stop : ℕ)

/-- The renames of a migration that is cut off. -/
def migration (fleet : List BoxSpec) (retired : List (Str × Str)) (dryRun : Bool) (stop : ℕ) : List Move :=
  if dryRun then [] else (moves fleet retired).take stop

/-- One event. -/
def World.step (w : World ι) : Event ι → World ι
  | .edit inputs => { w with inputs }
  | .fat run stop =>
    { w with cache := w.cache.setPair (.current run.box run.arch)
              ((w.fatCmds manifestHash run stop).foldl
                (BuildCmd.apply w.inputs (w.currentHash manifestHash run.box) run.packagedAt) (w.pair run)) }
  | .base run stop =>
    { w with cache := w.cache.setBase run.artifact
              ((w.baseCmds run stop).foldl (BuildCmd.write w.inputs run.packagedAt)
                (w.cache.bases run.artifact)) }
  | .migrate fleet retired dryRun stop =>
    { w with cache := (migration fleet retired dryRun stop).foldl Move.apply w.cache }

/-- Event after event. -/
def World.run (w : World ι) (es : List (Event ι)) : World ι := es.foldl (·.step manifestHash) w

end

end BoxBuild
end Lab
end MqResiliency
