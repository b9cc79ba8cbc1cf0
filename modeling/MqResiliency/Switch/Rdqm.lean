/-
# The cutover of the RDQM arm

`rdqm-dr-cutover.sh`, function by function. Every command is an ad-hoc
`ansible` call on one name; it comes to an exit status and a text. The lenient
reads (`rdqmstatus_on`) use the text whatever the status, the strict calls end
the script where they fail.
-/
import MqResiliency.Lib.Trace
import MqResiliency.Switch.Remote

namespace MqResiliency
namespace Rdqm

open Prog Py

/-! ### Commands and settings -/

/-- Which read of the script an `rdqmstatus` is. -/
inductive Read : Type where
  | discover | sync | settle | vip | verify
deriving DecidableEq

/-- What is asked of a node. -/
inductive What : Type where
  /-- `rdqmstatus -m QM`. -/
  | rdqmstatus (read : Read)
  /-- `rdqmdr -m QM -s` and `rdqmdr -m QM -p`. -/
  | rdqmdrS
  | rdqmdrP
  /-- `ip -br addr`, the line of the network of an address, its first field. -/
  | ipAddr (vip : Str)
  /-- `rdqmint -m QM -a -f vip -l iface`. -/
  | rdqmint (vip iface : Str)
  /-- `runmqsc QM` with the definition of the drill queue. -/
  | defineDrill (queue : Str)
  /-- `amqsput queue QM` with the token, `amqsget queue QM`. -/
  | putDrill (queue token : Str)
  | getDrill (queue : Str)
deriving DecidableEq

/-- A command on a name, for a queue manager. -/
structure Cmd : Type where
  node : Str
  qm : Str
  what : What
deriving DecidableEq

/-- The exit status and output of the call. -/
abbrev Ans (_ : Cmd) : Type := Ran

/-- The script's arguments and environment (`none`: unset), its timeouts in
seconds, the addresses that `topology.yaml` has (`none`: the read fails), and
the token that the drill makes up. -/
structure Settings : Type where
  dir : Option Str
  qm : Option Str
  drSyncTimeout : Option ℤ
  haSettleTimeout : Option ℤ
  rpo0Drill : Bool
  rpo0DrillQueue : Option Str
  rdqmVip : Site → Option Str
  rpo0Token : Str

/-- `${x:-default}`. -/
def orDefault (x : Option Str) (default : Str) : Str := if x.getD [] = [] then default else x.getD []

/-- A script that exits early with a status. -/
abbrev Sh (α : Type) : Type := Prog Cmd Ans ℕ α

/-- The nodes of a site. -/
def nodes : Site → List Str
  | .a => ["rdqm-a1".toList, "rdqm-a2".toList, "rdqm-a3".toList]
  | .b => ["rdqm-b1".toList, "rdqm-b2".toList, "rdqm-b3".toList]

/-! ### Reading `rdqmstatus` -/

section
variable (space : Char → Bool)

/-- The value of a line that starts with the label. -/
def fieldOf (label line : Str) : Option Str :=
  if (label ++ [':']).isPrefixOf line then
    some (((line.drop (label.length + 1)).dropWhile space).rdropWhile space)
  else none

/-- `rdqm_field`: of the first such line; empty where there is none. -/
def rdqmField (label text : Str) : Str := ((text.splitOn '\n').findSome? (fieldOf space label)).getD []

variable (v : Settings)

/-- `QM`. -/
def qmOf : Str := orDefault v.qm "RDQMAPP".toList

/-- A call whose failure ends the script. -/
def run (node : Str) (what : What) : Sh Str := do
  let r ← (ask ⟨node, qmOf v, what⟩ : Sh Ran)
  if r.rc = 0 then pure r.stdout else throw r.rc

/-- `rdqmstatus_on`: the text, whatever the exit status. -/
def rdqmstatusOn (read : Read) (node : Str) : Sh Str := do
  let r ← (ask ⟨node, qmOf v, .rdqmstatus read⟩ : Sh Ran)
  pure r.stdout

/-- One pass of `ha_primary` over the nodes. -/
def haPass : List Str → Sh (Option Str)
  | [] => pure none
  | n :: ns => do
    let out ← rdqmstatusOn v .discover n
    let loc := rdqmField space "HA current location".toList out
    if loc = [] then haPass ns
    else if loc = "This node".toList then pure (some n)
    else pure (some loc)

/-- `ha_primary`: up to some passes. -/
def haPrimaryFrom (ns : List Str) : ℕ → Sh Str
  | 0 => throw 1
  | i + 1 => do
    match ← haPass space v ns with
    | some primary => pure primary
    | none => haPrimaryFrom ns i

def haPrimary (ns : List Str) : Sh Str := haPrimaryFrom space v ns 30

/-- A wait loop that polls every ten seconds, `waited` so far, until the status
is good or the timeout is over. -/
def poll (read : Read) (good : Str → Bool) (late : Sh Unit) (timeout : ℤ) (node : Str) (waited : ℤ) :
    Sh Unit := do
  let out ← rdqmstatusOn v read node
  if good out then pure ()
  else if timeout ≤ waited then late
  else poll read good late timeout node (waited + 10)
termination_by (timeout - waited).toNat

/-- `confirm_dr_in_sync`. -/
def confirmDrInSync (timeout : ℤ) (node : Str) : Sh Unit :=
  poll v .sync (fun out => rdqmField space "DR status".toList out = "Normal".toList) (throw 1) timeout node 0

/-- `wait_ha_settle`; a timeout is a warning. -/
def waitHaSettle (timeout : ℤ) (node : Str) : Sh Unit :=
  poll v .settle (fun out => rdqmField space "Queue manager status".toList out = "Running".toList ∧
    rdqmField space "HA blocked location".toList out = "None".toList) (pure ()) timeout node 0

/-! ### The steps -/

def queueOf : Str := orDefault v.rpo0DrillQueue "DR.RPO0.DRILL".toList

/-- `rpo0_seed`. -/
def rpo0Seed (node : Str) : Sh Unit := do
  let _ ← run v node (.defineDrill (queueOf v))
  let _ ← run v node (.putDrill (queueOf v) v.rpo0Token)

/-- `grep -qF token`. -/
def retrieved (token out : Str) : Bool := (lines out).any (contains · token)

/-- `rpo0_verify`. -/
def rpo0Verify (node : Str) : Sh Unit := do
  let out ← run v node (.getDrill (queueOf v))
  if retrieved v.rpo0Token out then pure () else throw 1

/-- What the last line of the output is, by `tail -1`. -/
def lastLine (out : Str) : Str := (lines out).getLastD []

/-- 5. The site's own address, there already or added. -/
def ensureVip (node vip : Str) : Sh Unit := do
  let status ← run v node (.rdqmstatus .vip)
  let fip := rdqmField space "HA floating IP address".toList status
  if fip = vip then pure ()
  else if fip ≠ [] then throw 1
  else do
    let out ← run v node (.ipAddr vip)
    let _ ← run v node (.rdqmint vip (lastLine out))

/-- The final read shows the new live site. -/
def Shows (vip status : Str) : Prop :=
  rdqmField space "DR role".toList status = "Primary".toList ∧
    rdqmField space "Queue manager status".toList status = "Running".toList ∧
    rdqmField space "HA floating IP address".toList status = vip

instance (vip status : Str) : Decidable (Shows space vip status) := inferInstanceAs (Decidable (_ ∧ _ ∧ _))

/-- 6. -/
def verify (node vip : Str) : Sh Unit := do
  let status ← run v node (.rdqmstatus .verify)
  if Shows space vip status then pure () else throw 1

/-- `if [ "$RPO0_DRILL" = 1 ]`. -/
def onDrill (p : Sh Unit) : Sh Unit := if v.rpo0Drill then p else pure ()

/-- 6. and 7. -/
def verifySteps (node vip : Str) : Sh Unit := do
  verify space v node vip
  onDrill v (rpo0Verify v node)

/-- 1. to 7., given the primaries that were discovered. -/
def cutSteps (dst : Site) (vip fromPrimary toPrimary : Str) : Sh Unit := do
  confirmDrInSync space v (v.drSyncTimeout.getD 300) fromPrimary
  let _ ← run v fromPrimary .rdqmdrS
  let _ ← run v toPrimary .rdqmdrP
  let newPrimary ← haPrimary space v (nodes dst)
  waitHaSettle space v (v.haSettleTimeout.getD 180) newPrimary
  ensureVip space v newPrimary vip
  verifySteps space v newPrimary vip

/-- The steps from FROM to TO. -/
def steps (src dst : Site) (vip : Str) : Sh Unit := do
  let fromPrimary ← haPrimary space v (nodes src)
  let toPrimary ← haPrimary space v (nodes dst)
  onDrill v (rpo0Seed v fromPrimary)
  cutSteps space v dst vip fromPrimary toPrimary

/-- The sites of a direction. -/
def direction (dir : Str) : Option (Site × Site) :=
  if dir = "a2b".toList then some (.a, .b)
  else if dir = "b2a".toList then some (.b, .a)
  else none

/-- `rdqm-dr-cutover.sh DIR QM`. -/
def cutover : Sh Unit :=
  match direction (orDefault v.dir "a2b".toList) with
  | none => throw 2
  | some (src, dst) =>
    match v.rdqmVip dst with
    | none => throw 1
    | some vip => if vip = [] then throw 1 else steps space v src dst vip

end

end Rdqm
end MqResiliency
