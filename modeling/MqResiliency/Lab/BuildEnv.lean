/-
# `mqlab build migrate`

`buildenv.py`: the entries of `build/` from before there were buckets, and a
`lab/.vagrant`, are moved to their buckets. All is planned first (`planAll`),
where a test of existence follows symbolic links and a merge does not
(`planMerge`), then applied one operation after the other (`Plan.ops`).
-/
import MqResiliency.Lib.Paths

namespace MqResiliency
namespace Lab
namespace BuildEnv

open Py

/-- `BUCKETS`. -/
def buckets : List Str := ["cache".toList, "state".toList, "work".toList, "temp".toList]

/-- `MIGRATION`. -/
def migration : List (Str × Str) :=
  (["mq", "refs", "ansible_collections"].map fun name => (name.toList, "cache".toList)) ++
  (["snapshots", "boxes", "rhel96-box", "secrets", "fence_key", "fence_key.pub", "runs", "reports", "dr-runs"].map
    fun name => (name.toList, "state".toList)) ++
  ["inventory.ini", "lab", "versions.json", "grafana", "prometheus", "obs", "salt"].map
    fun name => (name.toList, "work".toList)

/-- The pattern of `MIGRATION_GLOBS`, whose bucket is `state`. -/
def isDvd (name : Str) : Bool := "-dvd.iso".toList.isSuffixOf name

/-- `MERGEABLE`. -/
def mergeable : List Str := ["refs".toList]

/-- `str(path)`. -/
def pathText (p : Path) : Str := p.flatMap fun name => '/' :: name

/-- `MigrationPlan`. -/
structure Plan : Type where
  moves : List (Path × Path)
  duplicates : List (Path × Path)
  stale : List Str
  prune : List Path

/-- What planning adds to a plan, and the conflicts. -/
structure Found : Type where
  moves : List (Path × Path)
  duplicates : List (Path × Path)
  prune : List Path
  conflicts : List Str

namespace Found

def none : Found := ⟨[], [], [], []⟩

def add (a b : Found) : Found :=
  ⟨a.moves ++ b.moves, a.duplicates ++ b.duplicates, a.prune ++ b.prune, a.conflicts ++ b.conflicts⟩

/-- One after the other. -/
def concat : List Found → Found
  | [] => none
  | a :: as => a.add (concat as)

end Found

section
variable (t : Tree)

/-- `_is_real_dir`. -/
def isRealDir (p : Path) : Bool := t.isDir p && !t.isSymlink p

/-- `_identical`. -/
def identical (a b : Path) : Bool :=
  if t.isSymlink a || t.isSymlink b then t.isSymlink a && t.isSymlink b && t.lstat a = t.lstat b
  else t.isFile a && t.isFile b && t.lstat a = t.lstat b

/-- `_plan_merge`, for a tree of that depth. -/
def planMerge : (depth : ℕ) → (src dst : Path) → Found
  | 0, _, _ => .none
  | depth + 1, src, dst =>
    (Found.concat ((t.iterdir src).map fun name =>
      let child := src ++ [name]
      let target := dst ++ [name]
      if t.exists? target = false ∧ t.isSymlink target = false then { Found.none with moves := [(child, target)] }
      else if isRealDir t child && isRealDir t target then planMerge depth child target
      else if identical t child target then { Found.none with duplicates := [(child, target)] }
      else { Found.none with conflicts := [pathText child ++ " differs from ".toList ++ pathText target] })).add
    { Found.none with prune := [src] }

/-- No path is that long. -/
def depth : ℕ := (t.all.map List.length).foldr max 0 + 1

variable (repo : Path)

def build : Path := repo ++ ["build".toList]

/-- The legacy entries that may be there, with their buckets. -/
def entries : List (Str × Str) :=
  migration ++ ((t.iterdir (build repo)).filter isDvd).map fun name => (name, "state".toList)

/-- What is planned for an entry. -/
def planEntry (entry : Str × Str) : Found :=
  let src := build repo ++ [entry.1]
  let dst := build repo ++ [entry.2, entry.1]
  if t.exists? src = false then .none
  else if t.exists? dst = false then { Found.none with moves := [(src, dst)] }
  else if entry.1 ∈ mergeable && isRealDir t src && isRealDir t dst then planMerge t (depth t) src dst
  else { Found.none with conflicts :=
    [pathText dst ++ " already exists (legacy ".toList ++ pathText src ++ " not moved)".toList] }

def planAll : Found := .concat ((entries t repo).map (planEntry t repo))

/-- `_legacy_vagrant`. -/
def legacyVagrant : Option (Path × Path) :=
  let src := repo ++ ["lab".toList, ".vagrant".toList]
  if isRealDir t src then some (src, build repo ++ ["state".toList, "vagrant".toList]) else none

/-- The plan without conflicts. -/
def planOf (found : Found) : Plan :=
  match legacyVagrant t repo with
  | none => ⟨found.moves, found.duplicates, [], found.prune⟩
  | some (src, dst) =>
    if t.exists? dst then
      ⟨found.moves, found.duplicates, [[pathText src, " is a stale legacy vagrant dotfile, ignored (the lab uses ".toList,
        pathText dst, "). Once you have confirmed nothing needs it, remove it by hand: rm -rf ".toList,
        pathText src].flatten], found.prune⟩
    else ⟨found.moves ++ [(src, dst)], found.duplicates, [], found.prune⟩

end

/-! ### Applying a plan -/

/-- The operations of `_apply`, in their order. -/
def Plan.ops (plan : Plan) : List Op :=
  plan.moves.flatMap (fun m => [.mkdir m.2.dropLast, .rename m.1 m.2]) ++
    plan.duplicates.map (fun d => .unlink d.1) ++ plan.prune.map .rmdir

/-- Why a migration fails: `BuildEnvError`, or an `OSError`. -/
inductive Failure : Type where
  | buildEnv (message : Str)
  | os

/-- The message of a collision. -/
def collision (conflicts : List Str) : Str :=
  "migrate collision; nothing was moved:\n  ".toList ++ "\n  ".toList.intercalate conflicts ++
    ("\nReconcile each by hand (keep the copy you want, remove the other), " ++
      "then re-run `mqlab build migrate`.").toList

/-- `migrate`, and what is there after it. -/
def migrate (t : Tree) (repo : Path) (dryRun : Bool) : Except Failure Plan × Tree :=
  let found := planAll t repo
  if found.conflicts ≠ [] then (.error (.buildEnv (collision found.conflicts)), t)
  else
    let plan := planOf t repo found
    if dryRun then (.ok plan, t)
    else match runOps plan.ops t with
      | (true, t') => (.ok plan, t')
      | (false, t') => (.error .os, t')

end BuildEnv
end Lab
end MqResiliency
