/-
# The cluster-state collector

`clusterstate.py`: the parsers of `crm_mon`, `drbdsetup status`,
`stonith_admin --history`, `iscsiadm -m session` and `systemctl is-active`, and
the samples of the cluster and the storage nodes. `none` is where Python
raises.
-/
import MqResiliency.Obs.Probe

namespace MqResiliency
namespace Obs
namespace ClusterState

open Py Xml

/-! ### `crm_mon` -/

structure NodeState : Type where
  online : Bool
  standby : Bool
  unclean : Bool

structure Resource : Type where
  state : Str
  node : Option Str

structure Crm : Type where
  quorate : Bool
  nodes : Dict Str NodeState
  resources : Dict Str Resource

/-- `e.get(key) == "true"`. -/
def isTrue (e : Element) (key : Str) : Bool := e.get key = some "true".toList

/-- The nodes of the cluster in the document. -/
def nodeElements (root : Element) : List Element :=
  (root.named "nodes".toList).flatMap (·.named "node".toList)

def nodeState (n : Element) : Str × NodeState :=
  (n.getD "name".toList [],
    ⟨isTrue n "online".toList, isTrue n "standby".toList, isTrue n "unclean".toList⟩)

/-- The path `.//group[@id='mq_group']//resource`. -/
def groupResources (root : Element) : List Element :=
  ((root.beneath "group".toList).filter fun g => g.get "id".toList = some "mq_group".toList).flatMap
    (·.beneath "resource".toList)

def resource (r : Element) : Str × Resource :=
  (r.getD "id".toList [],
    ⟨r.getD "role".toList "Unknown".toList,
      (r.named "node".toList).head?.bind (·.get "name".toList)⟩)

/-- What `parse_crm` makes of the document. -/
def crmOf (root : Element) : Crm where
  quorate :=
    (((root.named "summary".toList).flatMap (·.named "current_dc".toList)).head?.bind
      (·.get "with_quorum".toList)) = some "true".toList
  nodes := .ofList ((nodeElements root).map nodeState)
  resources := .ofList ((groupResources root).map resource)

def parseCrm (py : Runtime) (text : Str) : Option Crm := (py.fromstring text).map crmOf

/-! ### `drbdsetup status` -/

structure Drbd : Type where
  role : Str
  disk : Str
  conn : Str
  resyncPct : PyFloat
  outOfSyncBytes : ℤ

/-- The resources so far, and the one that `cur` is; before the first one,
`cur` is a dictionary that is not kept. -/
structure Scan : Type where
  out : Dict Str Drbd
  cur : Option Str

def Scan.update (s : Scan) (f : Drbd → Drbd) : Scan :=
  match s.cur with
  | none => s
  | some name => { s with out := s.out.mapValues fun k d => if k = name then f d else d }

/-- `100.0`. -/
def inSync : PyFloat := ⟨false, .fin ((100 : ℤ) : ℚ) (Double.isDouble_intCast (by norm_num))⟩

/-- The tokens `key:value` of a line. -/
def tokens (raw : Str) : Dict Str Str := .ofList (((words raw).filter fun t => ':' ∈ t).map (cut ':'))

/-- A line that starts a resource. -/
def Scan.header (s : Scan) (raw : Str) (ts : Dict Str Str) : Scan :=
  match ts.get? "role".toList with
  | some role =>
    if raw.take 1 ∈ [[], [' '], ['\t']] then s
    else
      let name := (words raw).headD []
      ⟨s.out.set name ⟨role, "Unknown".toList, "Unknown".toList, inSync, 0⟩, some name⟩
  | none => s

/-- A token that refines the resource, if it is there. -/
def Scan.refine (s : Scan) (token : Option Str) (f : Str → Drbd → Drbd) : Scan :=
  match token with
  | some t => s.update (f t)
  | none => s

/-- The same for a token that is converted. -/
def Scan.convert {α : Type} (s : Scan) (token : Option Str) (read : Str → Option α) (f : α → Drbd → Drbd) :
    Option Scan :=
  match token with
  | some t => (read t).map fun a => s.update (f a)
  | none => some s

def drbdLine (s : Scan) (raw : Str) : Option Scan :=
  let ts := tokens raw
  let s := s.header raw ts
  let s := s.refine (ts.get? "disk".toList) fun disk d => { d with disk }
  let s := s.refine (ts.get? "connection".toList) fun conn d => { d with conn }
  (s.convert (ts.get? "done".toList) float fun resyncPct d => { d with resyncPct }).bind fun s =>
    s.convert (ts.get? "out-of-sync".toList) Py.int fun outOfSyncBytes d => { d with outOfSyncBytes }

def parseDrbd (text : Str) : Option (Dict Str Drbd) :=
  ((splitlines text).foldlM drbdLine ⟨.empty, none⟩).map (·.out)

/-! ### The other probes -/

/-- A line of the fencing history. -/
def stonithLine (counts : Dict Str ℕ) (raw : Str) : Dict Str ℕ :=
  let line := trim raw
  if contains line " was reset ".toList || contains line " was fenced ".toList then
    let node := line.takeWhile (· ≠ ' ')
    counts.set node ((counts.get? node).getD 0 + 1)
  else counts

def parseStonith (text : Str) : Dict Str ℕ := (splitlines text).foldl stonithLine .empty

def isSession (raw : Str) : Bool := "tcp:".toList <+: trim raw ∨ "iser:".toList <+: trim raw

def parseIscsi (text : Str) : ℕ := (splitlines text).countP isSession

def parseDaemons (text : Str) (units : List Str) : Dict Str Bool :=
  let lines := splitlines text
  .ofList (units.zipIdx.map fun (unit, i) => (unit, (lines[i]?).map trim = some "active".toList))

/-! ### Rendering -/

/-- The samples of one node of the cluster. -/
def memberSamples (node : Str) (member : Str × NodeState) : List Sample :=
  let base := [nodeLabel node, ("member".toList, member.1)]
  [⟨"cluster_node_online".toList, base, flag member.2.online⟩,
    ⟨"cluster_node_unclean".toList, base, flag member.2.unclean⟩]

/-- The samples of one resource of the group. -/
def resourceSamples (node : Str) (r : Str × Resource) : List Sample :=
  let base := [nodeLabel node, ("resource".toList, r.1)]
  ⟨"cluster_resource_started".toList, base, flag (r.2.state = "Started".toList)⟩ ::
    match r.2.node with
    | none => []
    | some holder =>
      if holder = [] then []
      else [⟨"cluster_resource_owner".toList, base ++ [("holder".toList, holder)], .int 1⟩]

/-- The fence count of a node of the cluster. -/
def fenceSample (node : Str) (fences : Dict Str ℕ) (member : Str) : Sample :=
  ⟨"cluster_fence_count".toList, [nodeLabel node, ("member".toList, member)], .int ((fences.get? member).getD 0 : ℕ)⟩

/-- Quorum, nodes and resources. -/
def healthSamples (node : Str) (crm : Crm) : List Sample :=
  ⟨"cluster_quorate".toList, [nodeLabel node], flag crm.quorate⟩ ::
    crm.nodes.items.flatMap (memberSamples node) ++ crm.resources.items.flatMap (resourceSamples node)

def crmSamples (node : Str) (crm : Crm) (stonith : Option (Dict Str ℕ)) : List Sample :=
  healthSamples node crm ++
    -- no history counts as an empty one
    crm.nodes.keys.map (fenceSample node (stonith.getD .empty))

def daemonSamples (node : Str) (daemons : Dict Str Bool) : List Sample :=
  daemons.items.map fun (unit, up) =>
    ⟨"cluster_daemon_up".toList, [nodeLabel node, ("unit".toList, unit)], flag up⟩

/-- The samples of one replicated resource; the RDQM collector has the same. -/
def drbdResourceSamples (node : Str) (r : Str × Drbd) : List Sample :=
  let base := [nodeLabel node, ("resource".toList, r.1)]
  [⟨"cluster_drbd_role".toList, base ++ [("role".toList, r.2.role)], .int 1⟩,
    ⟨"cluster_drbd_disk".toList, base ++ [("disk".toList, r.2.disk)], .int 1⟩,
    ⟨"cluster_drbd_conn".toList, base ++ [("conn".toList, r.2.conn)], .int 1⟩,
    ⟨"cluster_drbd_resync_pct".toList, base, .float r.2.resyncPct⟩,
    ⟨"cluster_drbd_out_of_sync_bytes".toList, base, .int r.2.outOfSyncBytes⟩]

def drbdSamples (node : Str) (drbd : Dict Str Drbd) : List Sample := drbd.items.flatMap (drbdResourceSamples node)

/-! ### Collecting -/

inductive Role : Type where
  | cluster
  | storage
deriving DecidableEq

/-- `PROBE_SETS`. -/
def probeSet : Role → List Source
  | .cluster => [.crm, .stonith, .iscsi, .daemons]
  | .storage => [.drbd, .daemons]

/-- `DAEMON_UNITS`. -/
def daemonUnits : Role → List Str
  | .cluster => ["corosync".toList, "pacemaker".toList]
  | .storage => ["drbd".toList]

/-- What has been read so far. -/
structure Readings : Type where
  crm : Option Crm
  stonith : Option (Dict Str ℕ)
  iscsi : Option ℕ
  drbd : Option (Dict Str Drbd)
  daemons : Dict Str Bool
  fresh : List Source

/-- What a source's text adds. -/
def Readings.parse (py : Runtime) (role : Role) (r : Readings) (text : Str) : Source → Option Readings
  | .daemons => some { r with daemons := parseDaemons text (daemonUnits role) }
  | .crm => (parseCrm py text).map fun crm => { r with crm := some crm }
  | .drbd => (parseDrbd text).map fun drbd => { r with drbd := some drbd }
  | .stonith => some { r with stonith := some (parseStonith text) }
  | _ => some { r with iscsi := some (parseIscsi text) }

/-- One probe. -/
def Readings.probe (py : Runtime) (role : Role) (probes : Probes) (r : Readings) (source : Source) : Option Readings :=
  match probes source with
  | none => some r
  | some raw => (r.parse py role raw.text source).map fun r => { r with fresh := r.fresh ++ [source] }

/-- The samples of `render_cluster_state_prom`. -/
def render (node : Str) (now : Clock) (r : Readings) : List Sample :=
  (r.crm.elim [] fun crm => crmSamples node crm r.stonith) ++
    (r.iscsi.elim [] fun n => [⟨"cluster_iscsi_sessions".toList, [nodeLabel node], .int n⟩]) ++
    daemonSamples node r.daemons ++
    r.drbd.elim [] (drbdSamples node) ++
    stamps node now r.fresh

/-- The samples of `collect`. -/
def samples (py : Runtime) (role : Role) (node : Str) (now : Clock) (probes : Probes) : Option (List Sample) :=
  ((probeSet role).foldlM (Readings.probe py role probes) ⟨none, none, none, none, .empty, []⟩).map (render node now)

end ClusterState
end Obs
end MqResiliency
