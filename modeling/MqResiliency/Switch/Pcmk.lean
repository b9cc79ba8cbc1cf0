/-
# The controlled cutover of the Pacemaker/SAN arm

`pcmk-dr-cutover.sh`, step by step: each step is an ad-hoc `ansible` call that
runs a shell script on every host that a pattern names, with the exit status
that the script's own masking (`|| true`, `;`, pipes) leaves of its commands.
A call whose pattern names no host does nothing and exits 0.

The two sites around it are a world of their own (`World`, `Answers`): a
command may fail, with or without its effect, and between the commands DRBD
and Pacemaker go on by themselves.
-/
import Mathlib.Logic.Function.Basic
import MqResiliency.Lib.Trace
import MqResiliency.Switch.Remote

namespace MqResiliency
namespace Pcmk

open Prog Py

/-! ### Commands -/

/-- A pattern of the script: a site's SAN host, its cluster, its first node. -/
inductive Pattern : Type where
  | san (s : Site)
  | pcmk (s : Site)
  | first (s : Site)
deriving DecidableEq

def Pattern.site : Pattern → Site
  | san s | pcmk s | first s => s

/-- The hosts that each pattern names. -/
abbrev Inventory : Type := Pattern → List Str

/-- The members of `mq_group`. -/
inductive Part : Type where
  | fs | vip | vipExt | qm
deriving DecidableEq

/-- What `targetcli` is asked for. -/
inductive Lio : Type where
  | backstore
  | target
  | lun
  | acl (node : Str)
  | dropPortal (addr : Str)
  | portal (addr : Str)
  | saveconfig
deriving DecidableEq

/-- What runs on a host. -/
inductive What : Type where
  /-- `pcs cluster standby --all` and `pcs cluster unstandby --all`. -/
  | standbyAll
  | unstandbyAll
  /-- `mountpoint /mqshared`. -/
  | mountpoint
  /-- `drbdadm status mqlun`. -/
  | drbdStatus
  | umount
  /-- `targetctl clear`. -/
  | targetctlClear
  /-- `drbdadm secondary mqlun` and `drbdadm primary mqlun`. -/
  | drbdSecondary
  | drbdPrimary
  | lio (op : Lio)
  /-- `iscsiadm`: discovery at a portal, login, rescan of the session. -/
  | discovery (portal : Str)
  | login (portal : Str)
  | rescan
  /-- `ls -l /dev/disk/by-label/MQSHARED`. -/
  | lsLabel
  /-- `pcs resource status mq_group`. -/
  | groupStatus
  /-- `pcs resource create` of a member, with its address or unit. -/
  | create (part : Part) (arg : Str)
  /-- `pcs resource enable mq_group`. -/
  | enable
  /-- `pcs status resources | tail -3`. -/
  | report
deriving DecidableEq

/-- A command on a host of a site. -/
structure Cmd : Type where
  site : Site
  host : Str
  what : What
deriving DecidableEq

/-- The exit status, `none` where the host is unreachable. -/
abbrev Ans (_ : Cmd) : Type := Option ℕ

/-- How a shell ends early: a host is lost, or the script exits. -/
inductive Exit : Type where
  | lost
  | exit (rc : ℕ)
deriving DecidableEq

/-- A shell script. -/
abbrev Sh (α : Type) : Type := Prog Cmd Ans Exit α

/-! ### Ad-hoc calls -/

/-- A command; its exit status. -/
def sh (site : Site) (host : Str) (what : What) : Sh ℕ := do
  match ← (ask ⟨site, host, what⟩ : Sh (Option ℕ)) with
  | some rc => pure rc
  | none => throw .lost

/-- The script on each host in turn; `none` for a host that was lost. -/
def onHosts (script : Str → Sh ℕ) : List Str → Sh (List (Option ℕ))
  | [] => pure []
  | host :: hosts => do
    let rc ← tryCatch (do let rc ← script host; pure (some rc)) fun e =>
      match e with
      | .lost => pure none
      | .exit n => throw (.exit n)
    let rcs ← onHosts script hosts
    pure (rc :: rcs)

/-- The exit status of `ansible`. -/
def status (rcs : List (Option ℕ)) : ℕ :=
  if none ∈ rcs then 4 else if rcs.any (· ≠ some 0) then 2 else 0

variable (inv : Inventory)

/-- `run PATTERN SCRIPT` under `set -e`. -/
def run (pat : Pattern) (script : Site → Str → Sh ℕ) : Sh Unit := do
  let rcs ← onHosts (script pat.site) (inv pat)
  if status rcs = 0 then pure () else throw (.exit (status rcs))

/-- `run PATTERN SCRIPT || true`. -/
def runMasked (pat : Pattern) (script : Site → Str → Sh ℕ) : Sh Unit := do
  let _ ← onHosts (script pat.site) (inv pat)

/-! ### What the script knows of a site -/

/-- `TO_PORTAL`, `TO_VIP`, `TO_VIP_EXT` and the nodes. -/
def portal : Site → Str
  | .a => "10.40.1.5".toList
  | .b => "10.40.2.6".toList

def vip : Site → Str
  | .a => "10.10.1.200".toList
  | .b => "10.10.2.200".toList

def vipExt : Site → Str
  | .a => "10.60.0.10".toList
  | .b => "10.60.0.20".toList

def iqns : Site → List Str
  | .a => ["pcmk-a1".toList, "pcmk-a2".toList, "pcmk-a3".toList]
  | .b => ["pcmk-b1".toList, "pcmk-b2".toList, "pcmk-b3".toList]

/-! ### The steps -/

/-- Commands one after the other, each with `|| true`. -/
def masked (site : Site) (host : Str) : List What → Sh Unit
  | [] => pure ()
  | what :: whats => do
    let _ ← sh site host what
    masked site host whats

/-- 1. -/
def standby (site : Site) (host : Str) : Sh ℕ := sh site host .standbyAll

def waitUnmounted (site : Site) (host : Str) : ℕ → Sh Unit
  | 0 => pure ()
  | n + 1 => do
    let rc ← sh site host .mountpoint
    if rc = 0 then waitUnmounted site host n else pure ()

def quiesce (site : Site) (host : Str) : Sh ℕ := do
  waitUnmounted site host 30
  masked site host [.mountpoint]
  pure 0

/-- 2. The status is printed and its exit status judged; `drbdadm secondary` decides
the other. -/
def confirm (site : Site) (host : Str) : Sh ℕ := sh site host .drbdStatus

def demote (site : Site) (host : Str) : Sh ℕ := do
  masked site host [.umount, .targetctlClear]
  sh site host .drbdSecondary

/-- 3. -/
def promote (site : Site) (host : Str) : Sh ℕ := do
  let rc ← sh site host .drbdPrimary
  if rc = 0 then sh site host .drbdStatus else pure rc

/-- 4. -/
def exportLun (site : Site) (host : Str) : Sh ℕ := do
  masked site host <| [.lio .backstore, .lio .target, .lio .lun] ++
    (iqns site).map (fun n => .lio (.acl n)) ++
    [.lio (.dropPortal "0.0.0.0".toList), .lio (.dropPortal "::0".toList), .lio (.portal (portal site))]
  sh site host (.lio .saveconfig)

/-- 5. -/
def attach (site : Site) (host : Str) : Sh ℕ := do
  masked site host [.discovery (portal site)]
  let rc ← sh site host (.login (portal site))
  masked site host (if rc = 0 then [] else [.rescan])
  sh site host .lsLabel

/-- 6. Of the members that are created, the last decides. -/
def start (qm : Str) (site : Site) (host : Str) : Sh ℕ := do
  masked site host [.unstandbyAll]
  let rc ← sh site host .groupStatus
  if rc = 0 then sh site host .enable
  else do
    masked site host [.create .fs [], .create .vip (vip site), .create .vipExt (vipExt site)]
    sh site host (.create .qm qm)

/-- The exit status is that of `tail`. -/
def report (site : Site) (host : Str) : Sh ℕ := do
  masked site host [.report]
  pure 0

/-- The sites of a direction: anything but `a2b`, which is the default, is `b2a`. -/
def fromSite (dir : Option Str) : Site := if dir.getD [] ∈ [[], "a2b".toList] then .a else .b
def toSite (dir : Option Str) : Site := if dir.getD [] ∈ [[], "a2b".toList] then .b else .a

/-- The steps from FROM to TO. -/
def steps (src dst : Site) (qm : Str) : Sh Unit := do
  runMasked inv (.pcmk src) standby
  run inv (.pcmk src) quiesce
  run inv (.san src) confirm
  run inv (.san src) demote
  run inv (.san dst) promote
  run inv (.san dst) exportLun
  run inv (.pcmk dst) attach
  run inv (.first dst) (start qm)
  run inv (.first dst) report

/-- `pcmk-dr-cutover.sh DIR QM`. -/
def cutover (dir qm : Option Str) : Sh Unit :=
  if qm.getD [] = [] then throw (.exit 1) else steps inv (fromSite dir) (toSite dir) (qm.getD [])

/-! ### The two sites -/

/-- The role of a site's copy of `mqlun`. -/
inductive DrbdRole : Type where
  | primary | secondary
deriving DecidableEq

/-- The state of a site's copy. -/
inductive Disk : Type where
  | upToDate | consistent | outdated | inconsistent | diskless
deriving DecidableEq

/-- The state of both sites. -/
structure World : Type where
  role : Site → DrbdRole
  disk : Site → Disk
  /-- The DRBD link. -/
  connected : Bool
  /-- The site's cluster sees the LUN. -/
  attached : Site → Bool
  standby : Site → Bool
  /-- The members that `mq_group` has, and whether it is disabled. -/
  member : Site → Part → Bool
  disabled : Site → Bool
  /-- The queue manager is Running at the site. -/
  running : Site → Bool

/-- The DRBD role and the standby state that a command sets. -/
def What.role : What → Option DrbdRole
  | drbdSecondary => some .secondary
  | drbdPrimary => some .primary
  | _ => none

def What.standby : What → Option Bool
  | standbyAll => some true
  | unstandbyAll => some false
  | _ => none

/-- The command creates the member. -/
def What.creates (part : Part) : What → Bool
  | create p _ => p = part
  | _ => false

/-- What a command does to its site if it does its work. -/
def effect (w : World) (c : Cmd) : World :=
  { w with
    role := Function.update w.role c.site (c.what.role.getD (w.role c.site))
    standby := Function.update w.standby c.site (c.what.standby.getD (w.standby c.site))
    member := Function.update w.member c.site fun part => c.what.creates part || w.member c.site part
    disabled := Function.update w.disabled c.site (w.disabled c.site && c.what ≠ .enable) }

/-- The command may change what the site's cluster sees of the LUN; a login
only adds it. -/
def What.exports : What → Bool
  | umount | targetctlClear | lio _ => true
  | _ => false

def What.attaches : What → Bool
  | discovery _ | login _ | rescan => true
  | _ => false

/-- What changes by itself while a command runs: the link, the copies, and what
Pacemaker runs. -/
structure Drift (c : Cmd) (w w' : World) : Prop where
  role : w'.role = w.role
  standby : w'.standby = w.standby
  member : w'.member = w.member
  disabled : w'.disabled = w.disabled
  attached : ∀ s, (s = c.site → c.what.exports = false) → w.attached s = true → w'.attached s = true
  detached : ∀ s, (s = c.site → c.what.exports = false ∧ c.what.attaches = false) →
    w.attached s = false → w'.attached s = false

/-- What a command may come to. One that fails may have done its work or not;
`ls` tells the truth. -/
def Answers (w : World) (c : Cmd) (a : Option ℕ) (w' : World) : Prop :=
  (Drift c (effect w c) w' ∨ (a ≠ some 0 ∧ Drift c w w')) ∧
    (c.what = .lsLabel → a = some 0 → w.attached c.site = true)

/-- A command, what it came to, and the world when it was issued. -/
structure Event : Type where
  before : World
  cmd : Cmd
  ans : Option ℕ

/-- The world, and what was done so far. -/
structure State : Type where
  world : World
  log : List Event

/-- The environment. -/
def env : Env State Cmd Ans := fun s c a s' =>
  Answers s.world c a s'.world ∧ s'.log = s.log ++ [⟨s.world, c, a⟩]

end Pcmk
end MqResiliency
