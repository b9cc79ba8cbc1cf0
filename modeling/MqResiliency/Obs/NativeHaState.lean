/-
# The Native HA state collector

`nativehastate.py`: the parsers of `dspmq -o nativeha -x` and `-g`, and the
samples. They never raise: an integer that is none reads as `None`
(`intOrNone`).
-/
import MqResiliency.Obs.Probe

namespace MqResiliency
namespace Obs
namespace NativeHaState

open Py

/-! ### Fields -/

/-- The parts of `_FIELD`: the key, and the value in its parentheses. -/
def keyPart (py : Runtime) : Re := .plus (.word py.alnum)

def valuePart : Re := .star true (.noneOf [')'])

/-- `_fields`. The pattern has two groups, and a `Re` holds one: each is found
by its own search, and both find the same matches. -/
def fields (py : Runtime) (line : Str) : Dict Str Str :=
  let keys := Re.findall (.seqs [.group (keyPart py), .lit ['('], valuePart, .lit [')']]) line
  let values := Re.findall (.seqs [keyPart py, .lit ['('], .group valuePart, .lit [')']]) line
  .ofList (keys.zip values)

/-- `_int_or_none`. -/
def intOrNone (value : Option Str) : Option ℤ := value.bind Py.int

/-- `_yn`. -/
def yn (f : Dict Str Str) (key : Str) : Option Bool := (f.get? key).map fun v => v = "yes".toList

/-! ### Parsing -/

structure Instance : Type where
  role : Str
  insync : Bool
  hastatus : Str

/-- What `-x` reports. -/
structure Hax : Type where
  quorumCurrent : Option ℤ
  quorumTotal : Option ℤ
  groupRole : Option Str
  instances : Dict Str Instance

def haxLine (py : Runtime) (h : Hax) (line : Str) : Hax :=
  let f := fields py line
  match f.get? "QUORUM".toList with
  | some quorum =>
    { h with
      quorumCurrent := intOrNone (some (cut '/' quorum).1)
      quorumTotal := intOrNone (some (cut '/' quorum).2)
      groupRole := f.get? "GRPROLE".toList }
  | none =>
    match f.get? "INSTANCE".toList, f.get? "ROLE".toList with
    | some name, some role =>
      { h with
        instances := h.instances.set name
          ⟨role, f.get? "INSYNC".toList = some "yes".toList, (f.get? "HASTATUS".toList).getD "Unknown".toList⟩ }
    | _, _ => h

def parseNativehaX (py : Runtime) (text : Str) : Hax :=
  (splitlines text).foldl (haxLine py) ⟨none, none, none, .empty⟩

structure Group : Type where
  role : Str
  status : Str
  connected : Option Bool
  insync : Option Bool
  backlog : Option ℤ

def groupLine (py : Runtime) (groups : Dict Str Group) (line : Str) : Dict Str Group :=
  let f := fields py line
  match f.get? "GRPNAME".toList, f.get? "QUORUM".toList with
  | some name, none =>
    groups.set name
      ⟨(f.get? "GRPROLE".toList).getD "Unknown".toList, (f.get? "GRSTATUS".toList).getD "Unknown".toList,
        yn f "CONNGRP".toList, yn f "INSYNC".toList, intOrNone (f.get? "BACKLOG".toList)⟩
  | _, _ => groups

def parseNativehaG (py : Runtime) (text : Str) : Dict Str Group :=
  (splitlines text).foldl (groupLine py) .empty

/-! ### Rendering -/

/-- `_ROLE_CODE.get(role, 0)`. -/
def roleCode (role : Str) : ℤ :=
  if role = "Active".toList then 2
  else if role = "Leader".toList then 3
  else if role = "Replica".toList then 1
  else 0

/-- The quorum, if both of its numbers were read. -/
def quorumSamples (node : Str) (h : Hax) : List Sample :=
  match h.quorumCurrent, h.quorumTotal with
  | some current, some total =>
    [⟨"cluster_quorate".toList, [nodeLabel node], flag (total / 2 + 1 ≤ current)⟩,
      ⟨"cluster_nha_quorum".toList, [nodeLabel node], .int current⟩]
  | _, _ => []

def instanceSamples (node qm : Str) (member : Str × Instance) : List Sample :=
  let base := [nodeLabel node, ("member".toList, member.1)]
  let st := member.2
  [⟨"cluster_node_online".toList, base, flag (st.role ≠ "Unknown".toList)⟩,
    ⟨"cluster_nha_role".toList, base ++ [("role".toList, st.role)], .int 1⟩,
    ⟨"cluster_nha_role_code".toList, base, .int (roleCode st.role)⟩,
    ⟨"cluster_nha_insync".toList, base, flag st.insync⟩,
    ⟨"cluster_nha_hastatus".toList, base ++ [("status".toList, st.hastatus)], .int 1⟩,
    ⟨"cluster_nha_hastatus_ok".toList, base, flag (st.hastatus = "Normal".toList)⟩] ++
    if st.role = "Active".toList then
      [⟨"cluster_resource_owner".toList,
        [nodeLabel node, ("resource".toList, qm), ("holder".toList, member.1)], .int 1⟩]
    else []

def haxSamples (node qm : Str) (h : Hax) : List Sample :=
  quorumSamples node h ++ h.instances.items.flatMap (instanceSamples node qm)

def groupSamples (node : Str) (group : Str × Group) : List Sample :=
  let base := [nodeLabel node, ("group".toList, group.1)]
  let g := group.2
  [⟨"cluster_nha_group_role".toList, base ++ [("role".toList, g.role)], .int 1⟩,
    ⟨"cluster_nha_group_status".toList, base ++ [("status".toList, g.status)], .int 1⟩] ++
    (g.connected.elim [] fun b => [⟨"cluster_nha_connected".toList, base, flag b⟩]) ++
    (g.insync.elim [] fun b => [⟨"cluster_nha_group_insync".toList, base, flag b⟩]) ++
    g.backlog.elim [] fun n => [⟨"cluster_nha_group_backlog".toList, base, .int n⟩]

/-! ### Collecting -/

/-- What was read. -/
structure Readings : Type where
  hax : Option Hax
  grp : Option (Dict Str Group)

/-- The samples of `render_nativeha_state_prom`. -/
def render (node qm : Str) (now : Clock) (r : Readings) (fresh : List Source) : List Sample :=
  (r.hax.elim [] (haxSamples node qm)) ++
    (r.grp.elim [] fun grp => grp.items.flatMap (groupSamples node)) ++
    stamps node now fresh

/-- The samples of `collect`. -/
def samples (py : Runtime) (node qm : Str) (now : Clock) (probes : Probes) : List Sample :=
  render node qm now
    ⟨(probes .nativehaX).map fun out => parseNativehaX py out.text,
      (probes .nativehaG).map fun out => parseNativehaG py out.text⟩
    (freshSources probes [.nativehaX, .nativehaG])

end NativeHaState
end Obs
end MqResiliency
