/-
# Keeping a box registered

`_box-register.sh`: beside each registered copy of a box lies a stamp, the
identity of the cache artifact that it was added from. `box_reuse_register`
adds the box only where some copy has another stamp, or none and is not what
the cache has; after `vagrant box add` all copies are stamped.

The functions run under the `set -e` of the two build scripts. What `vagrant
box add --force` comes to is an input (`Added`).
-/
import MqResiliency.Lib.Dict
import MqResiliency.Lib.Shell
import MqResiliency.Lib.Yaml

namespace MqResiliency
namespace Lab
namespace BoxRegister

open Py Shell

/-- What is in a directory with a `box.img`. -/
structure Copy : Type where
  image : Str
  metadata : Option Str
  stamp : Option Str
deriving DecidableEq

/-- The copies of a box, by their directories. -/
abbrev Home : Type := Dict Str Copy

/-- A cache artifact: what `stat` tells of it, and its members. -/
structure Cache : Type where
  path : Str
  size : ℕ
  mtime : ℕ
  image : Str
  metadata : Str

/-- `$(box_reg_identity <cache> <manifest>)`. -/
def Cache.identity (cache : Cache) (manifest : Str) : Str :=
  captured ("cache=".toList ++ cache.path ++ " size=".toList ++ (toString cache.size).toList ++ " mtime=".toList ++
    (toString cache.mtime).toList ++ " manifest=".toList ++ manifest ++ ['\n'])

/-- `box_reg_provider_dirs`. -/
def providerDirs (home : Home) : List Str := sortedStrs home.keys

/-! ### The state of a registration -/

inductive State : Type where
  | current
  | stale
  | unstamped
  | absent
deriving DecidableEq

/-- The word for it. -/
def State.word : State → Str
  | .current => "current".toList
  | .stale => "stale".toList
  | .unstamped => "unstamped".toList
  | .absent => "absent".toList

/-- The loop of `box_reg_state` over the copies that are left. -/
def stateLoop (identity : Str) (state : State) : List (Option Copy) → State
  | [] => state
  | copy :: copies => match copy.bind Copy.stamp with
    | none => stateLoop identity .unstamped copies
    | some text => if captured text ≠ identity then .stale else stateLoop identity state copies

/-- `box_reg_state`. -/
def boxRegState (home : Home) (identity : Str) : State :=
  if providerDirs home = [] then .absent else stateLoop identity .current ((providerDirs home).map home.get?)

/-! ### Stamping and comparing -/

def Copy.withStamp (identity : Str) (copy : Copy) : Copy := { copy with stamp := some (identity ++ ['\n']) }

/-- `box_reg_stamp`; `none` where there is nothing to stamp. -/
def boxRegStamp (home : Home) (identity : Str) : Option Home :=
  if providerDirs home = [] then none
  else some ((providerDirs home).foldl (fun home dir => home.modify dir (Copy.withStamp identity)) home)

/-- The copy is what the cache has. -/
def Same (cache : Cache) (copy : Copy) : Prop := copy.metadata = some cache.metadata ∧ copy.image = cache.image

instance decidableSame (cache : Cache) (copy : Copy) : Decidable (Same cache copy) := instDecidableAnd

/-- `box_reg_same_as_cache`. -/
def sameAsCache (home : Home) (cache : Cache) : Bool :=
  providerDirs home ≠ [] && (providerDirs home).all fun dir => (home.get? dir).all fun copy => Same cache copy

/-! ### Registering -/

/-- What `vagrant box add --force` comes to: the copy in that directory is
replaced with what the cache has, or it fails. -/
inductive Added : Type where
  | replaced (dir : Str)
  | failed (status : ℕ) (left : Home)

/-- What is left behind, the exit status, and the lines that are printed. -/
structure Ran : Type where
  home : Home
  status : ℕ
  lines : List Str

/-- What a replaced copy is. -/
def Cache.copy (cache : Cache) : Copy := ⟨cache.image, some cache.metadata, none⟩

/-- `box_register`. -/
def boxRegister (home : Home) (box identity : Str) (cache : Cache) : Added → Ran
  | .failed status left => ⟨left, status, []⟩
  | .replaced dir => match boxRegStamp (home.set dir cache.copy) identity with
    | none => ⟨home.set dir cache.copy, 1, ["ERROR: box '".toList ++ box ++ "' has no registered box.img to stamp".toList]⟩
    | some home' => ⟨home', 0, []⟩

/-- With lines that were printed before. -/
def Ran.after (lines : List Str) (ran : Ran) : Ran := { ran with lines := lines ++ ran.lines }

/-- The last lines of `box_reuse_register`. -/
def addFromCache (home : Home) (box identity : Str) (cache : Cache) (added : Added) : Ran :=
  (boxRegister home box identity cache added).after
    ["registration: ".toList ++ (boxRegState home identity).word ++ " - adding the box from the cache".toList]

/-- `box_reuse_register`. -/
def boxReuseRegister (home : Home) (box identity : Str) (cache : Cache) (added : Added) : Ran :=
  match boxRegState home identity with
  | .current => ⟨home, 0, ["registration: current (added from this cache) - no vagrant box add needed".toList]⟩
  | .unstamped =>
    Ran.after ["registration: unstamped - comparing the registered box with the cache...".toList] <|
      if sameAsCache home cache then
        match boxRegStamp home identity with
        | none => ⟨home, 1, ["ERROR: box '".toList ++ box ++ "' has no registered box.img to stamp".toList]⟩
        | some home' =>
          ⟨home', 0, ["registration: adopted (identical to this cache) - no vagrant box add needed".toList]⟩
      else (addFromCache home box identity cache added).after ["registration: differs from this cache".toList]
  | _ => addFromCache home box identity cache added

/-- The two ways to register a box. -/
inductive Call : Type where
  | reuse
  | register

/-- A call for a cache artifact with that manifest hash. -/
def Call.run (call : Call) (home : Home) (box manifest : Str) (cache : Cache) (added : Added) : Ran :=
  match call with
  | .reuse => boxReuseRegister home box (cache.identity manifest) cache added
  | .register => boxRegister home box (cache.identity manifest) cache added

end BoxRegister
end Lab
end MqResiliency
