/-
# Staging the dependencies of a component

`stage_deps` of `component.py` with what it reads of the lock, the versions
too, the names it returns and its errors: the requirement files give normalized
names, the lock one package for each of these, the last, and the sdist and the
installable wheels of that package are fetched into `deps/` and checked, one
after the other.

What the fetches come to is an input (`Fetch`). The program of the build does
what `stageDeps` does (`runs_stageDeps`).
-/
import MqResiliency.Lab.Component

namespace MqResiliency
namespace Lab
namespace StageDeps

open Py Component

/-! ### The lock and the requirements -/

/-- A package of `uv.lock` with its version. -/
structure Entry : Type extends Package where
  version : Option Str

/-- `{_normalize(p["name"]): p for p in …}`. -/
def entries (lock : List Entry) : Dict Str Entry := Dict.ofList (lock.map fun e => (normalize e.name, e))

/-- `_wanted`, of the texts of the files that are there. -/
def wantedOf (texts : List Str) : List Str := (texts.flatMap pinned).dedup

/-! ### Fetching -/

/-- What a fetch comes to: does it raise, and what is under the name then? -/
structure Fetched : Type where
  raised : Bool
  left : Option Str

/-- What each fetch comes to, by how many there were before it. -/
abbrev Fetch : Type := ℕ → Str → Fetched

/-- The files of `deps/`, the names that were staged, and how many files were fetched. -/
structure Stage : Type where
  deps : Dict Str Str
  staged : List Str
  calls : ℕ

/-- Why `stage_deps` raises: an error of its own, what the fetch raises, no file
to hash, a wheel's name with too few parts, or a package without a version. -/
inductive Failure : Type where
  | notLocked (names : List Str)
  | noCandidate (project version : Str)
  | mismatch (filename actual hash : Str)
  | fetch
  | missing (filename : Str)
  | value
  | key
deriving DecidableEq

/-- What is under the name now. -/
def Stage.put (st : Stage) (filename : Str) (left : Option Str) : Stage :=
  { st with deps := match left with
    | none => st.deps.erase filename
    | some content => st.deps.set filename content }

section
variable (sha256 : Str → Str) (fetch : Fetch)

/-- The files that are fetched for a package. -/
def stageArts : List LockFile → Stage → Stage × Option Failure
  | [], st => (st, none)
  | art :: arts, st =>
    let got := fetch st.calls art.url
    let st' := { st.put (filenameOf art) got.left with calls := st.calls + 1 }
    if got.raised then (st', some .fetch)
    else match got.left with
      | none => (st', some (.missing (filenameOf art)))
      | some content =>
        if isHash (sha256 content) art.hash then stageArts arts { st' with staged := st'.staged ++ [filenameOf art] }
        else (st'.put (filenameOf art) none, some (.mismatch (filenameOf art) (sha256 content) art.hash))

/-- The loop of `stage_deps` over the projects. -/
def stageProjects (lock : List Entry) : List Str → Stage → Stage × Option Failure
  | [], st => (st, none)
  | project :: projects, st => match (entries lock).get? project with
    | none => (st, some .key)
    | some e => match candidates e.toPackage with
      | none => (st, some .value)
      | some [] => (st, some (e.version.elim .key (.noCandidate project)))
      | some arts => match stageArts sha256 fetch arts st with
        | (st', none) => stageProjects lock projects st'
        | (st', some failure) => (st', some failure)

/-- `sorted(wanted - set(packages))`. -/
def notLocked (lock : List Entry) (wanted : List Str) : List Str :=
  sortedStrs (wanted.filter fun project => project ∉ (entries lock).keys)

/-- `stage_deps`. -/
def stageDeps (lock : List Entry) (wanted : List Str) (st : Stage) : Stage × Option Failure :=
  if notLocked lock wanted ≠ [] then (st, some (.notLocked (notLocked lock wanted)))
  else stageProjects sha256 fetch lock (sortedStrs wanted) st

/-- What `build` stages in a new `deps/`. -/
def staging (lock : List Entry) (texts : List Str) : Stage × Option Failure :=
  stageDeps sha256 fetch lock (wantedOf texts) ⟨.empty, [], 0⟩

end

end StageDeps
end Lab
end MqResiliency
