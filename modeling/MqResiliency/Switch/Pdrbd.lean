/-
# The DR switch of pcmk-drbd-ubuntu

`site-pdrbd-dr-switch.yml` with the task files it includes, task by task: the
planned switch (`rdqmdr -s` at the source, then `rdqmdr -p` at the target) and
the forced one, which promotes the target after the source site is lost.

Both plays run on localhost and delegate every command to a node. A command
answers with its exit status and output, or not at all where the node is
unreachable; a task that fails ends the run.
-/
import MqResiliency.Lib.Regex
import MqResiliency.Lib.Trace
import MqResiliency.Switch.Remote

namespace MqResiliency
namespace Pdrbd

open Prog Re Py

/-! ### Inventory, variables, commands -/

/-- The inventory's groups `pdrbd_a` and `pdrbd_b`; no host is in both. -/
structure Inventory : Type where
  groups : Site → List Str
  disjoint : ∀ n ∈ groups .a, n ∉ groups .b

theorem Inventory.not_mem (inv : Inventory) {s t : Site} (h : s ≠ t) {n : Str} (hn : n ∈ inv.groups s) :
    n ∉ inv.groups t := by
  cases s <;> cases t
  · exact absurd rfl h
  · exact inv.disjoint n hn
  · exact fun ha => inv.disjoint n ha hn
  · exact absurd rfl h

/-- The extra vars (`none`: unset), and the token the drill makes up. -/
structure Vars : Type where
  drDirection : Option Str
  qmName : Option Str
  drForce : Bool
  rpo0Drill : Bool
  rpo0Token : Str

/-- The site groups `dr_src` and `dr_dst`. -/
def Vars.drSrc (v : Vars) : Site := if v.drDirection = some "a2b".toList then .a else .b
def Vars.drDst (v : Vars) : Site := if v.drDirection = some "a2b".toList then .b else .a

theorem Vars.src_ne_dst (v : Vars) : v.drSrc ≠ v.drDst := by
  unfold drSrc drDst
  split <;> decide

/-- `qm_name | lower`; queue-manager names are ASCII. -/
def Vars.pdrbdRes (v : Vars) : Str := (v.qmName.getD []).map Char.toLower

/-- `pdrbd_dr_res`, the stacked DR resource. -/
def Vars.pdrbdDrRes (v : Vars) : Str := v.pdrbdRes ++ ".dr".toList

/-- A role of a clone. -/
inductive Role : Type where
  | promoted | unpromoted
deriving DecidableEq

def Role.text : Role → Str
  | promoted => "Promoted".toList
  | unpromoted => "Unpromoted".toList

/-- What runs on a node. -/
inductive What : Type where
  /-- `crm_mon -1 -r`, with `-A` if `attrs`. -/
  | crmMon (attrs : Bool)
  /-- `drbdsetup status --verbose res`. -/
  | status (res : Str)
  /-- `drbdadm -S primary --force res`. -/
  | primaryForce (res : Str)
  /-- `drbdadm -S secondary res`. -/
  | secondary (res : Str)
  /-- `crm_attribute --type status --node node --name master-drbd_dr_qm --query --quiet 2>&1`. -/
  | score (node : Str)
  /-- `pcs resource meta drbd_dr_qm-clone target-role=role --wait=wait`. -/
  | targetRole (role : Role) (wait : ℕ)
  /-- `crm_attribute --type crm_config --set-name pdrbd --name res-dr-role --update value`. -/
  | drRole (res : Str) (value : ℕ)
  /-- `runmqsc qm` with the definition of the drill queue. -/
  | defineDrill (qm : Str)
  /-- `amqsput DR.RPO0.DRILL qm` with the token. -/
  | putDrill (qm token : Str)
  /-- `amqsget DR.RPO0.DRILL qm`. -/
  | getDrill (qm : Str)
deriving DecidableEq

/-- A command on a node. -/
structure Cmd : Type where
  node : Str
  what : What
deriving DecidableEq

/-- An answer; `none` where the node is unreachable. -/
abbrev Ans (_ : Cmd) : Type := Option Ran

/-- The tasks that can fail. -/
inductive Task : Type where
  | assertDirection | assertNoDrill | dstCrm | assertDst | dstDr | preFlight
  | srcCrm | assertSrc | seed | demote | srcSecondary
  | dstDrAfter | reAssert | forceUpToDate | forcedState | assertForced | waitScore
  | promote | assertPrimary | verifyGet | verifyToken
deriving DecidableEq

/-- Tasks in a row; a failed one ends the run. -/
abbrev Tasks (α : Type) : Type := Prog Cmd Ans Task α

/-! ### What is read from the output -/

section
variable (alnum : Char → Bool)

/-- `pdrbd_crm_role_re` for the DR clone. -/
def crmRoleRe (role : Role) : Re := seqs
  [lit "Clone Set: drbd_dr_qm-clone [".toList, plus (noneOf "]\n".toList), lit "]".toList,
    star true (noneOf "\n".toList), lit "\n".toList,
    star false (seqs [lit "    ".toList, star true (lit " ".toList), lit "*".toList,
      star true (noneOf "\n".toList), lit "\n".toList]),
    lit "    * ".toList, lit role.text,
    opt (seqs [lit " (".toList, star true (noneOf ")\n".toList), lit ")".toList]),
    lit ": [ ".toList, group (plusLazy (noneOf "]\n".toList)), lit " ]".toList]

def drbdRoleRe : Re := seqs
  [bol, plus nonSpace, lit " node-id:".toList, plus digit, lit " role:".toList, group (plus (word alnum))]

def drbdDiskRe : Re := seqs
  [bol, lit "  volume:".toList, plus digit, lit " minor:".toList, plus digit, lit " disk:".toList,
    group (plus (word alnum))]

def drbdConnRe : Re := seqs
  [bol, lit "  ".toList, plus nonSpace, lit " node-id:".toList, plus digit, lit " connection:".toList,
    group (plus (word alnum))]

def drbdPeerDiskRe : Re := seqs
  [bol, lit "    volume:".toList, plus digit, lit " ".toList, star true dot, lit "peer-disk:".toList,
    group (plus (word alnum))]

def drbdQuorumRe : Re := seqs
  [bol, lit "  volume:".toList, plus digit, lit " minor:".toList, plus digit, lit " ".toList,
    star true dot, lit "quorum:".toList, group (plus (word alnum))]

/-- `grep -E 'mq_qm\s.*Started'`. -/
def startedRe : Re := seqs [lit "mq_qm".toList, char isAsciiSpace, star true dot, lit "Started".toList]

/-- The facts `dst_disk`, `dst_conn` and `dst_peer_disk`. -/
structure DstState : Type where
  disk : List Str
  conn : List Str
  peerDisk : List Str
deriving DecidableEq

def parseDst (out : Str) : DstState :=
  ⟨findall (drbdDiskRe alnum) out, findall (drbdConnRe alnum) out, findall (drbdPeerDiskRe alnum) out⟩

/-- The target's own disk is UpToDate and its one peer Connected and UpToDate. -/
def DstState.InSync (s : DstState) : Prop :=
  s.disk = ["UpToDate".toList] ∧ s.conn = ["Connected".toList] ∧ s.peerDisk = ["UpToDate".toList]

instance (s : DstState) : Decidable s.InSync := inferInstanceAs (Decidable (_ ∧ _ ∧ _))

/-- `dst_gate`. -/
def DstState.dstGate (s : DstState) (drForce : Bool) : Prop :=
  s.InSync ∨
    (drForce = true ∧ s.disk.length = 1 ∧ s.disk.headD [] ∈ ["UpToDate".toList, "Outdated".toList])

instance (s : DstState) (drForce : Bool) : Decidable (s.dstGate drForce) :=
  inferInstanceAs (Decidable (_ ∨ _))

/-- UpToDate, Secondary and quorate: what the agent scores. -/
def Promotable (out : Str) : Prop :=
  findall (drbdDiskRe alnum) out = ["UpToDate".toList] ∧
    findall (drbdRoleRe alnum) out = ["Secondary".toList] ∧
    findall (drbdQuorumRe alnum) out = ["yes".toList]

instance (out : Str) : Decidable (Promotable alnum out) := inferInstanceAs (Decidable (_ ∧ _ ∧ _))

/-- The shell's test of a promotion score: ASCII digits that `test -gt 0` takes. -/
def scored (out : Str) : Bool :=
  let last := out.rdropWhile (· = '\n')
  -- beyond 2^63 `test` says "integer expression expected"
  last ≠ [] ∧ last.all Char.isDigit ∧ 0 < Nat.ofDigitChars 10 last 0 ∧
    Nat.ofDigitChars 10 last 0 < 9223372036854775808

/-- `grep -q 'role:Primary'` on the first line. -/
def rolePrimary (out : Str) : Bool :=
  contains ((out.rdropWhile (· = '\n')).takeWhile (· ≠ '\n')) "role:Primary".toList

/-- The queue manager's line says Started. -/
def qmStarted (out : Str) : Bool := (lines out).any (search startedRe)

/-! ### Tasks -/

/-- An `assert`. -/
def assert (t : Task) (that : Prop) [Decidable that] : Tasks Unit := if that then pure () else throw t

/-- A task with a `when`, and a script's `if` without an `else`. -/
def onlyWhen (c : Prop) [Decidable c] (p : Tasks Unit) : Tasks Unit := if c then p else pure ()

/-- A command of a task's script; the script judges its exit status. -/
def sh (t : Task) (node : Str) (what : What) : Tasks Ran := do
  match ← (ask ⟨node, what⟩ : Tasks (Option Ran)) with
  | some r => pure r
  | none => throw t

/-- A command whose exit status is the task's. -/
def command (t : Task) (node : Str) (what : What) : Tasks Ran := do
  let r ← sh t node what
  assert t (r.rc = 0)
  pure r

variable (inv : Inventory) (v : Vars)

/-- `groups[site][0]`. -/
def firstOf (t : Task) (site : Site) : Tasks Str :=
  match inv.groups site with
  | n :: _ => pure n
  | [] => throw t

/-- The one node that the DR clone runs on in `role`, by `crm_mon` at the site. -/
def findMember (crm one : Task) (site : Site) (role : Role) : Tasks Str := do
  let node ← firstOf inv crm site
  let r ← command crm node (.crmMon false)
  match findall (crmRoleRe role) r.stdout with
  | [n] => do
    assert one ((words n).length = 1)
    pure n
  | _ => throw one

/-- `pcs resource meta … target-role=role --wait=wait`, loud where it fails, and
then the marker. -/
def setRole (t : Task) (site : Site) (role : Role) (wait value : ℕ) : Tasks Unit := do
  let node ← firstOf inv t site
  let r ← sh t node (.targetRole role wait)
  onlyWhen (r.rc ≠ 0) do
    let _ ← sh t node (.crmMon false)
    throw t
  let _ ← command t node (.drRole v.pdrbdRes value)

/-- `rpo0-drill-seed.yml`. -/
def rpo0Seed (node : Str) : Tasks Unit := do
  let _ ← command .seed node (.defineDrill (v.qmName.getD []))
  let _ ← command .seed node (.putDrill (v.qmName.getD []) v.rpo0Token)

/-- The `until` task: some attempts, loud with the last state. -/
def untilSecondary (node : Str) : ℕ → Tasks Unit
  | 0 => throw .srcSecondary
  | n + 1 => do
    let r ← sh .srcSecondary node (.status v.pdrbdDrRes)
    if r.rc = 0 ∧ findall (drbdRoleRe alnum) r.stdout = ["Secondary".toList] then pure ()
    else untilSecondary node n

/-- `retries: 30`, after a first attempt. -/
def attempts : ℕ := 31

/-- `pdrbd-dr-switch-source.yml`: the only tasks that contact a source node. -/
def sourceTasks : Tasks Unit := do
  let node ← findMember inv .srcCrm .assertSrc v.drSrc .promoted
  onlyWhen v.rpo0Drill (rpo0Seed v node)
  setRole inv v .demote v.drSrc .unpromoted 300 2
  untilSecondary alnum v node attempts

/-- `primary --force`, then `secondary`, on the target's DR member. -/
def forceTask (node : Str) : Tasks Unit := do
  let r ← sh .forceUpToDate node (.primaryForce v.pdrbdDrRes)
  onlyWhen (r.rc ≠ 0) do
    let _ ← sh .forceUpToDate node (.status v.pdrbdDrRes)
    throw .forceUpToDate
  let r ← sh .forceUpToDate node (.secondary v.pdrbdDrRes)
  onlyWhen (r.rc ≠ 0) do
    let _ ← sh .forceUpToDate node (.status v.pdrbdDrRes)
    throw .forceUpToDate

/-- The script that waits for the agent's promotion score. -/
def waitScore (node : Str) : ℕ → Tasks Unit
  | 0 => do
    let _ ← sh .waitScore node (.crmMon true)
    let _ ← sh .waitScore node (.status v.pdrbdDrRes)
    throw .waitScore
  | n + 1 => do
    let r ← sh .waitScore node (.score node)
    if r.rc = 0 ∧ scored r.stdout then pure () else waitScore node n

/-- `seq 1 45`. -/
def scoreTries : ℕ := 45

/-- The tasks of a forced cutover before the promote. -/
def forcedTasks (node : Str) (disk : List Str) : Tasks Unit := do
  onlyWhen (disk ≠ ["UpToDate".toList]) (forceTask v node)
  let r ← command .forcedState node (.status v.pdrbdDrRes)
  assert .assertForced (Promotable alnum r.stdout)
  waitScore v node scoreTries

/-- The target's DR resource is Primary and the queue manager Started. -/
def assertPrimary (node : Str) : Tasks Unit := do
  let st ← sh .assertPrimary node (.status v.pdrbdDrRes)
  onlyWhen (¬ rolePrimary st.stdout) do
    let _ ← sh .assertPrimary node (.crmMon true)
    throw .assertPrimary
  let r ← sh .assertPrimary node (.crmMon false)
  onlyWhen (¬ (r.rc = 0 ∧ qmStarted r.stdout)) do
    let _ ← sh .assertPrimary node (.crmMon false)
    throw .assertPrimary

/-- `rpo0-drill-verify.yml`. -/
def rpo0Verify (node : Str) : Tasks Unit := do
  let r ← command .verifyGet node (.getDrill (v.qmName.getD []))
  assert .verifyToken (contains r.stdout v.rpo0Token)

/-- `resolve direction`. -/
def resolveDirection : Tasks Unit := do
  assert .assertDirection
    (v.drDirection.getD [] ∈ ["a2b".toList, "b2a".toList] ∧ 0 < (v.qmName.getD []).length)
  assert .assertNoDrill (¬ (v.drForce ∧ v.rpo0Drill))

/-- The pre-flight: the target's DR member, judged before any change. -/
def preFlight : Tasks Str := do
  let node ← findMember inv .dstCrm .assertDst v.drDst .unpromoted
  let r ← command .dstDr node (.status v.pdrbdDrRes)
  assert .preFlight ((parseDst alnum r.stdout).dstGate v.drForce)
  pure node

/-- The target again, after the demote; its `dst_disk`. -/
def reAssert (node : Str) : Tasks (List Str) := do
  let r ← command .dstDrAfter node (.status v.pdrbdDrRes)
  assert .reAssert ((parseDst alnum r.stdout).dstGate v.drForce)
  pure (parseDst alnum r.stdout).disk

/-- The promote at the target, and what has to come of it. -/
def promoteTasks (node : Str) : Tasks Unit := do
  setRole inv v .promote v.drDst .promoted 600 1
  assertPrimary v node
  onlyWhen v.rpo0Drill (rpo0Verify v node)

/-- The playbook. -/
def drSwitch : Tasks Unit := do
  resolveDirection v
  let node ← preFlight alnum inv v
  onlyWhen (v.drForce = false) (sourceTasks alnum inv v)
  let disk ← reAssert alnum v node
  onlyWhen v.drForce (forcedTasks alnum v node disk)
  promoteTasks inv v node

end

end Pdrbd
end MqResiliency
