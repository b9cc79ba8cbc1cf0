/-
# The phases of a bootstrap

`bootstrap <stack>` runs four phases in order, net, vms, provision and observe
(`phases.py`). It probes the world first (`probeAll`), and starts at the first
phase whose probe is not satisfied (`selectPhases`).

The flag `--no-dr` shapes what a phase builds: the guests that `vagrant up`
boots (`vmsBuildSteps`) are those of `allVms` under the flag. The probes take
no flag.
-/
import MqResiliency.Lab.Fleet
import MqResiliency.Lab.Lifecycle

namespace MqResiliency
namespace Lab

open Py

/-! ### The world as probed -/

/-- What `classify_net` tells apart. -/
inductive Net : Type where
  | absent | inactive | active
deriving DecidableEq

/-- `classify_net(states, net)`. -/
def classifyNet (states : Dict Str Str) (net : Str) : Net :=
  match states.get? net with
  | none => .absent
  | some raw => if raw = "active".toList then .active else .inactive

/-- One line of the listing: a network and its state. -/
def parseNetLine (raw : Str) : Option (Str × Str) :=
  let line := trim raw
  if line = [] ∨ "Name".toList.isPrefixOf line ∨ line.all (· = '-') then none
  else
    match words line with
    | name :: state :: _ => some (name, state)
    | _ => none

/-- `parse_net_states(text)`. -/
def parseNetStates (text : Str) : Dict Str Str := .ofList ((splitlines text).filterMap parseNetLine)

/-- The fields of a `Stack` that its probes read: its name, its cluster group,
whether it has a `qm-status` verb, and the port of its exporter, 0 if none is
allocated. -/
structure Stack : Type where
  name : Str
  cluster : Option Str
  hasQmStatus : Bool
  exporterAppPort : ℕ
deriving DecidableEq

/-- An active target of Prometheus. -/
structure Target : Type where
  scrapeUrl : Str
  health : Str
deriving DecidableEq

/-- What the probes meet: the two listings of `virsh`, the exit status of the
stack's `qm-status` command, and the active targets, if Prometheus answers. -/
structure Host : Type where
  netList : Str
  domainList : Str
  qmStatus : ℤ
  targets : Option (List Target)

/-- `build_states`. -/
structure States : Type where
  nets : Dict Str Str
  domains : Dict Str Str
  qmUp : Bool
  observe : Bool

/-- All of these guests run. -/
def allRunning (domains : Dict Str Str) (guests : List Str) : Bool :=
  guests.all fun g => classify domains g = .running

/-- `_probe_skipped_down`: there is no target host, or one does not run. -/
def probeSkippedDown (domains : Dict Str Str) (hosts : List Str) : Bool :=
  hosts = [] ∨ allRunning domains hosts = false

section
variable (topo : Topology) (stack : Stack)

/-- `_probe_qm_up`. -/
def probeQmUp (domains : Dict Str Str) (host : Host) : Bool :=
  match stack.cluster with
  | none => false
  | some group =>
    if stack.hasQmStatus = false then false
    else if probeSkippedDown domains ((topo.hosts group).take 1) then false
    else host.qmStatus = 0

/-- `OBS_GROUP`. -/
def obsGroup : Str := "obs_box".toList

/-- The exporter's port, as it stands in a URL. -/
def exporterNeedle : Str := ':' :: Nat.toDigits 10 stack.exporterAppPort ++ ['/']

/-- `_probe_observe`. -/
def probeObserve (domains : Dict Str Str) (host : Host) : Bool :=
  if stack.exporterAppPort = 0 then false
  else if probeSkippedDown domains (topo.hosts obsGroup) then false
  else
    match host.targets with
    | none => false
    | some targets => targets.any fun t => contains t.scrapeUrl (exporterNeedle stack) ∧ t.health = "up".toList

/-- `_probe_all`. -/
def probeAll (host : Host) : States :=
  let domains := parseDomainStates host.domainList
  { nets := parseNetStates host.netList
    domains := domains
    qmUp := probeQmUp topo stack domains host
    observe := probeObserve topo stack domains host }

end

/-! ### The registry -/

/-- A bring-up phase. -/
inductive Phase : Type where
  | net | vms | provision | observe
deriving DecidableEq

/-- `PHASES`. -/
def phases : List Phase := [.net, .vms, .provision, .observe]

section
variable (labNets : List Str) (topo : Topology) (stack : Stack)

/-- `_net_satisfied`; `labNets` is `lab_net_names()`. -/
def netSatisfied (s : States) : Bool := labNets.all fun net => classifyNet s.nets net = .active

/-- `_vms_satisfied`. -/
def vmsSatisfied (s : States) : Bool := allRunning s.domains (allVms topo stack.name false)

/-- `Phase.satisfied`. -/
def Phase.satisfied (s : States) : Phase → Bool
  | .net => netSatisfied labNets s
  | .vms => vmsSatisfied topo stack s
  | .provision => s.qmUp
  | .observe => s.observe

/-- `first_unsatisfied`. -/
def firstUnsatisfied (s : States) : Option ℕ := phases.findIdx? fun p => !p.satisfied labNets topo stack s

/-- `_select_phases`, of the names that `--only` and `--from` give. -/
def selectPhases (s : States) (only fromPhase : Option Phase) : List Phase :=
  match only, fromPhase with
  | some p, _ => phases.filter (· = p)
  | none, some p => phases.drop (phases.idxOf p)
  | none, none =>
    match firstUnsatisfied labNets topo stack s with
    | none => []
    | some start => phases.drop start

/-! ### What a phase builds -/

/-- `_non_mq_commons_hosts()`. -/
def nonMqCommonsHosts : List Str := topo.hostsOf ["infra".toList]

/-- `_boot_order(stack, no_dr)`. -/
def bootOrder (noDr : Bool) : List Str :=
  let vms := allVms topo stack.name noDr
  vms.filter (· ∈ nonMqCommonsHosts topo) ++ vms.filter (· ∉ nonMqCommonsHosts topo)

/-- `_batch_guests(guests, size)`. -/
def batchGuests (guests : List Str) (size : ℕ) : List (List Str) :=
  (List.range ((guests.length + size - 1) / size)).map fun i => (guests.drop (i * size)).take size

/-- `_guest_box(guest, boxes)`; a guest that is no node is a `ValueError`. -/
def guestBox (boxes : Dict Str BoxEntry) (guest : Str) : Except Str Str :=
  match boxes.get? guest with
  | some b => pure b.name
  | none => throw ("guest ".toList ++ guest ++ " is not a node in lab/topology.yaml — add it under nodes:".toList)

/-- `_batch_shares_box(batch, boxes)`. -/
def batchSharesBox (boxes : Dict Str BoxEntry) (batch : List Str) : Except Str Bool := do
  let keys ← batch.mapM (guestBox boxes)
  return decide (¬ keys.Nodup)

/-- A `vagrant up`: the flags before the guests, and the guests. -/
structure VagrantUp : Type where
  flags : List Str
  guests : List Str
deriving DecidableEq

/-- The step of a batch. -/
def batchStep (boxes : Dict Str BoxEntry) (batch : List Str) : Except Str VagrantUp := do
  let shared ← batchSharesBox boxes batch
  return ⟨if shared then ["--no-parallel".toList] else [], batch⟩

/-- `_vms_build_steps`; `boxes` is what `node_boxes` gives, and `bootBatch`
what `_boot_batch` does. -/
def vmsBuildSteps (boxes : Dict Str BoxEntry) (bootBatch : ℕ) (noDr : Bool) : Except Str (List VagrantUp) :=
  (batchGuests (bootOrder topo stack noDr) bootBatch).mapM (batchStep boxes)

/-- What the phase builds under this flag is up. -/
def Phase.up (noDr : Bool) (s : States) : Phase → Bool
  | .net => netSatisfied labNets s
  | .vms => allRunning s.domains (allVms topo stack.name noDr)
  | .provision => s.qmUp
  | .observe => s.observe

end

end Lab
end MqResiliency
