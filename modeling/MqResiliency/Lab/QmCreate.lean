/-
# Creating the replicated queue manager

The retries of `rdqm-qm-create.sh`: of the coordinated create
(`runCrtmqmRetry`), which it makes again on a flake of the DR device only, and
of an MQSC block (`runMqscRetry`), on the node that runs the queue manager at
that moment. A remote command is an ad-hoc `ansible` call on a node; it comes
to a status and a text.
-/
import MqResiliency.Lib.Shell
import MqResiliency.Switch.Remote

namespace MqResiliency
namespace QmCreate

open Py Shell

/-- What the script does outside of itself. -/
inductive Cmd : Type where
  /-- `ansible NODE -b -m shell -a TEXT`. -/
  | remote (node text : Str)
  | sleep (seconds : ℕ)
  | echo (text : Str)

abbrev Ans : Cmd → Type
  | .remote _ _ => Ran
  | _ => Unit

abbrev Sh (α : Type) : Type := Shell.Sh Cmd Ans α

/-- `run`. -/
def run (node text : Str) : Sh Ran := Prog.ask (Cmd.remote node text)

/-- `run_mqm`. -/
def runMqm (node cmd : Str) : Sh Ran := run node ("su - mqm -c \"".toList ++ cmd ++ ['"'])

/-- `sleep`. -/
def sleep (seconds : ℕ) : Sh ℕ := do
  Prog.ask (Cmd.sleep seconds)
  return 0

/-- `echo` of a few words, and `printf '%s\n'`. -/
def echo (words : List Str) : Sh ℕ := do
  Prog.ask (Cmd.echo words.flatten)
  return 0

/-- A number as it stands in a message. -/
def num (n : ℕ) : Str := Nat.toDigits 10 n

/-! ### The node that runs the queue manager -/

section
variable (qm : Str)

/-- One round of `active_a_node` over the nodes. -/
def activeRound : List Str → Sh (Option Str)
  | [] => pure none
  | n :: ns => do
    let ran ← run n ("/opt/mqm/bin/dspmq -m ".toList ++ qm ++ " -o status".toList)
    if contains (captured ran.stdout) "STATUS(Running)".toList then return some n
    activeRound ns

/-- So many rounds of `active_a_node`. -/
def activeRounds : ℕ → Sh (Option Str)
  | 0 => pure none
  | rounds + 1 => do
    match ← activeRound qm ["rdqm-a1".toList, "rdqm-a2".toList, "rdqm-a3".toList] with
    | some n => return some n
    | none => do
      let _ ← sleep 5
      activeRounds rounds

/-- `node=$(active_a_node)`, which ends the script where no node is found. -/
def activeANode : Sh Str := do
  match ← activeRounds qm 30 with
  | some n => return n
  | none => do
    let _ ← echo ["ERROR: no site-A node (rdqm-a1/a2/a3) is running ".toList, qm]
    throw (.exit 1)

/-! ### An MQSC block -/

/-- One turn of `run_mqsc_retry`, that sets `node`. -/
def mqscTurn (label cmd : Str) (attempts delay i : ℕ) : Sh Str := do
  let node ← activeANode qm
  let ran ← run node cmd
  let _ ← ifThen (pure ran.rc) do
    let _ ← andThen (test (1 < i)) (echo ["=== ".toList, label, ": runmqsc succeeded on attempt ".toList, num i,
      ['/'], num attempts, " (".toList, node, ") ===".toList])
    ret 0
  let _ ← ifThen (test (i < attempts)) do
    let _ ← echo ["=== ".toList, label, ": runmqsc attempt ".toList, num i, ['/'], num attempts, " on ".toList, node,
      " failed (transient connection-broken? AMQ8145E) — re-resolving the active primary and retrying in ".toList,
      num delay, "s ===".toList]
    sleep delay
  return node

/-- `run_mqsc_retry`. -/
def runMqscRetry (label cmd : Str) : Sh ℕ := function do
  let attempts := 5
  let delay := 5
  let node ← loop (mqscTurn qm label cmd attempts delay) attempts 1 []
  let _ ← echo ["ERROR: ".toList, label, ": runmqsc still failing after ".toList, num attempts,
    " attempts on the site-A primary (last target ".toList, node, [')']]
  ret 1

end

/-! ### The coordinated create -/

/-- `is_transient_dr_io`. -/
def isTransientDrIo (out : Str) : Bool :=
  contains out "Input/output error".toList ||
    contains out "AMQ3817E".toList && contains out "mkfs".toList ||
    contains out "AMQ3812E".toList && (contains out "StandAlone".toList || contains out "Disconnecting".toList)

/-- One turn of `run_crtmqm_retry`. -/
def crtmqmTurn (label node cmd : Str) (attempts delay i : ℕ) : Sh Unit := do
  let ran ← runMqm node cmd
  let out := captured ran.stdout
  let rc ← ifThen (pure ran.rc) do
    let _ ← echo [out, ['\n']]
    let _ ← andThen (test (1 < i)) (echo ["=== ".toList, label, ": crtmqm succeeded on attempt ".toList, num i, ['/'],
      num attempts, " (".toList, node, ") ===".toList])
    ret 0
  -- `rc=$?` reads what the `if` left
  let _ ← echo [out, ['\n']]
  let _ ← ifThen (andThen (test (i < attempts)) (test (isTransientDrIo out = true))) do
    let _ ← echo ["=== ".toList, label, ": crtmqm attempt ".toList, num i, ['/'], num attempts, " on ".toList, node,
      " hit the transient DR-device format flake (mkfs I/O error; DR link settling, AMQ3817E/AMQ3812E) — ".toList,
      "crtmqm has rolled the create back; waiting ".toList, num delay,
      "s for the DR link to stabilize, then retrying ===".toList]
    let _ ← sleep delay
    next
  let _ ← echo ["ERROR: ".toList, label, ": crtmqm failed on ".toList, node, " (rc=".toList, num rc,
    ") — not the retryable DR-device I/O flake, or retries exhausted after ".toList, num attempts,
    " attempts. Surfacing the failure (crtmqm output above).".toList]
  ret rc

/-- `run_crtmqm_retry`. -/
def runCrtmqmRetry (label node cmd : Str) : Sh ℕ := function do
  let attempts := 3
  let delay := 20
  loop (crtmqmTurn label node cmd attempts delay) attempts 1 ()
  return 0

/-! ### The create sequence -/

section
variable (qm : Str)

/-- `A_WAN`, `B_WAN` and `DR_PORT`. -/
def aWan : Str := "10.99.0.31,10.99.0.32,10.99.0.33".toList

def bWan : Str := "10.99.0.41,10.99.0.42,10.99.0.43".toList

def drPort : Str := "7001".toList

/-- The `crtmqm` of a site: its DR role, its own addresses and the peer's. -/
def crtmqmLine (role wan peerWan : Str) : Str :=
  ["/opt/mqm/bin/crtmqm -fs 3072M -sx -rr ".toList, role, " -rl ".toList, wan, " -ri ".toList, peerWan, " -rp ".toList,
    drPort, " -re ".toList, qm].flatten

/-- The create at site A. -/
def createA : Sh ℕ := runCrtmqmRetry "site-A DR-primary create (rdqm-a1, auto-creates a2/a3)".toList "rdqm-a1".toList
  (crtmqmLine qm ['p'] aWan bWan)

/-- The create at site B. -/
def createB : Sh ℕ := runCrtmqmRetry "site-B DR-secondary create (rdqm-b1, auto-creates b2/b3)".toList "rdqm-b1".toList
  (crtmqmLine qm ['s'] bWan aWan)

/-- Both creates of HA/DR, where the queue manager does not exist yet, and the
script goes on. -/
def createBoth : Sh ℕ := do
  let _ ← checked (createA qm)
  checked (createB qm)

end
end QmCreate
end MqResiliency
