/-
# The RDQM state collector

`rdqmstate.py`: the parser of `rdqmstatus`, that of `crm_mon` for the stack of
one queue manager, and the samples. The replicated volumes are parsed and
rendered as the cluster-state collector does. `none` is where Python raises.
-/
import MqResiliency.Obs.ClusterState

namespace MqResiliency
namespace Obs
namespace RdqmState

open Py Xml
open ClusterState (Drbd isTrue nodeElements parseDrbd drbdSamples)

/-! ### Names -/

/-- `_INFINITY`. -/
def infinity : ℤ := 1000000

/-- `rdqm_resource_base`; it refuses names that map to another directory name. -/
def rdqmResourceBase (py : Runtime) (qm : Str) : Option Str :=
  if qm = [] ∨ '.' ∈ qm ∨ '/' ∈ qm then none else some (py.lower qm)

/-- `rdqm_pm_resources`, from the base name. -/
def rdqmPmResources (base : Str) : List Str :=
  [base, "p_drbd_".toList ++ base, "p_drbd_dr_".toList ++ base, "p_ip_".toList ++ base]

/-- `_ROLE_CODE.get(role, 0)`. -/
def roleCode (role : Option Str) : ℤ :=
  if role = some "Primary".toList then 2 else if role = some "Secondary".toList then 1 else 0

/-- `_DR_ROLE_CODE.get(role, 0)`. -/
def drRoleCode (role : Str) : ℤ :=
  if role = "Primary".toList then 2 else if role = "Secondary".toList then 3 else 0

/-- `_PM_CODE.get(role, 0)`. -/
def pmCode (role : Option Str) : ℤ :=
  if role = some "Started".toList ∨ role = some "Promoted".toList ∨ role = some "Master".toList then 2
  else if role = some "Unpromoted".toList ∨ role = some "Slave".toList then 1
  else 0

/-! ### `rdqmstatus` -/

/-- What is kept of the report. -/
structure Status : Type where
  haStatus : Str
  qmStatus : Option Str
  haRole : Option Str
  haCurrentLocation : Option Str
  haPreferredLocation : Option Str
  floatingIp : Option Str
  floatingIpInterface : Option Str
  drRole : Option Str
  drStatus : Option Str
  members : Dict Str Str

/-- A field of the last block; before the first one it is ignored. -/
def setField : List (Dict Str Str) → Str → Str → List (Dict Str Str)
  | [], _, _ => []
  | [b], key, value => [b.set key value]
  | b :: bs, key, value => b :: setField bs key value

def statusLine (blocks : List (Dict Str Str)) (raw : Str) : List (Dict Str Str) :=
  if trim raw = [] ∨ ':' ∉ raw then blocks
  else
    let key := trim (cut ':' raw).1
    let value := trim (cut ':' raw).2
    if key = "Node".toList then blocks ++ [.ofList [("node".toList, value)]] else setField blocks key value

/-- A block's `HA status`. -/
def haStatusOf (b : Dict Str Str) : Str := (b.get? "HA status".toList).getD "Unknown".toList

def statusOf (blocks : List (Dict Str Str)) : Status :=
  let here := blocks.headD .empty
  { haStatus := haStatusOf here
    qmStatus := here.get? "Queue manager status".toList
    haRole := here.get? "HA role".toList
    haCurrentLocation := here.get? "HA current location".toList
    haPreferredLocation := here.get? "HA preferred location".toList
    floatingIp := here.get? "HA floating IP address".toList
    floatingIpInterface := here.get? "HA floating IP interface".toList
    drRole := here.get? "DR role".toList
    drStatus := here.get? "DR status".toList
    members := .ofList (blocks.map fun b => ((b.get? "node".toList).getD [], haStatusOf b)) }

def parseRdqmstatus (text : Str) : Status := statusOf ((splitlines text).foldl statusLine [])

/-! ### `crm_mon` -/

structure Crm : Type where
  online : Dict Str Bool
  roles : Dict Str (Dict Str Str)
  failcount : Dict Str ℤ

/-- `_parse_failcount`. -/
def parseFailcount : Option Str → Option ℤ
  | none => some 0
  | some fc =>
    if fc = "INFINITY".toList then some infinity
    else if isdigit (fc.dropWhile (· = '-')) then Py.int fc
    else some 0

/-- The placement of one instance of a resource. -/
def place (roles : Dict Str (Dict Str Str)) (res : Element) : Dict Str (Dict Str Str) :=
  match (res.named "node".toList).head? with
  | none => roles
  | some held =>
    let id := res.getD "id".toList []
    roles.set id (((roles.get? id).getD .empty).set (held.getD "name".toList []) (res.getD "role".toList []))

def rolesOf (root : Element) : Dict Str (Dict Str Str) :=
  match (root.named "resources".toList).head? with
  | none => .empty
  | some parent => (parent.iter.filter fun e => e.tag = "resource".toList).foldl place .empty

/-- The fail-counts of the queue manager's primitive in the history: where,
and the attribute. -/
def failcountTexts (root : Element) (base : Str) : List (Str × Option Str) :=
  ((root.beneath "node_history".toList).flatMap (·.named "node".toList)).flatMap fun n =>
    ((n.named "resource_history".toList).filter fun rh => rh.get "id".toList = some base).map fun rh =>
      (n.getD "name".toList [], rh.get "fail-count".toList)

def failcountOf (texts : List (Str × Option Str)) : Option (Dict Str ℤ) :=
  texts.foldlM (fun counts (node, fc) => (parseFailcount fc).map fun n => counts.set node n) Dict.empty

def crmOf (root : Element) (base : Str) : Option Crm :=
  (failcountOf (failcountTexts root base)).map fun failcount =>
    { online := .ofList ((nodeElements root).map fun n => (n.getD "name".toList [], isTrue n "online".toList))
      roles := rolesOf root
      failcount }

def parseCrm (py : Runtime) (text : Str) (base : Str) : Option Crm := (py.fromstring text).bind (crmOf · base)

/-! ### Rendering -/

/-- `_resolve`. -/
def resolve (location node : Str) : Str := if location = "This node".toList then node else location

/-- `None` in an f-string. -/
def orNone (s : Option Str) : Str := s.getD "None".toList

def memberSamples (node : Str) (member : Str × Str) : List Sample :=
  let base := [nodeLabel node, ("member".toList, member.1)]
  [⟨"cluster_node_online".toList, base, flag (member.2 = "Normal".toList)⟩,
    ⟨"cluster_rdqm_member_status".toList, base ++ [("status".toList, member.2)], .int 1⟩]

/-- The samples on the queue manager's role here. -/
def roleSamples (node : Str) (st : Status) : List Sample :=
  let member := [nodeLabel node, ("member".toList, node)]
  (st.haRole.elim [] fun role => [⟨"cluster_rdqm_role".toList, member ++ [("role".toList, role)], .int 1⟩]) ++
    [⟨"cluster_rdqm_role_code".toList, member, .int (roleCode st.haRole)⟩,
      ⟨"cluster_rdqm_qm_running".toList, member, flag (st.qmStatus = some "Running".toList)⟩]

/-- The floating address, where the queue manager runs. -/
def floatingIpSamples (node : Str) (st : Status) : List Sample :=
  if st.qmStatus = some "Running".toList then
    st.floatingIp.elim [] fun ip =>
      [⟨"cluster_rdqm_floating_ip".toList,
        [nodeLabel node, ("ip".toList, ip), ("interface".toList, orNone st.floatingIpInterface)], .int 1⟩]
  else []

/-- A location, current or preferred. -/
def locationSample (node kind location : Str) : Sample :=
  ⟨"cluster_rdqm_location".toList,
    [nodeLabel node, ("kind".toList, kind), ("holder".toList, resolve location node)], .int 1⟩

def currentSamples (node qm : Str) (st : Status) : List Sample :=
  st.haCurrentLocation.elim [] fun location =>
    locationSample node "current".toList location ::
      if st.qmStatus = some "Running".toList then
        [⟨"cluster_resource_owner".toList,
          [nodeLabel node, ("resource".toList, qm), ("holder".toList, resolve location node)], .int 1⟩]
      else []

def preferredSamples (node : Str) (st : Status) : List Sample :=
  st.haPreferredLocation.elim [] fun location => [locationSample node "preferred".toList location]

def drRoleSamples (node : Str) (st : Status) : List Sample :=
  st.drRole.elim [] fun role =>
    [⟨"cluster_rdqm_dr_role".toList, [nodeLabel node, ("role".toList, role)], .int 1⟩,
      ⟨"cluster_rdqm_dr_role_code".toList, [nodeLabel node], .int (drRoleCode role)⟩]

/-- The DR status, if it does not only point to another node. -/
def drStatusSamples (node : Str) (st : Status) : List Sample :=
  st.drStatus.elim [] fun status =>
    if "See ".toList <+: status then []
    else
      [⟨"cluster_rdqm_dr_status".toList, [nodeLabel node, ("status".toList, status)], .int 1⟩,
        ⟨"cluster_rdqm_dr_status_ok".toList, [nodeLabel node], flag (status = "Normal".toList)⟩]

def statusSamples (node qm : Str) (st : Status) : List Sample :=
  let haOk := flag (st.haStatus = "Normal".toList)
  [⟨"cluster_quorate".toList, [nodeLabel node], haOk⟩,
    ⟨"cluster_rdqm_ha_status_ok".toList, [nodeLabel node], haOk⟩,
    ⟨"cluster_rdqm_ha_status".toList, [nodeLabel node, ("status".toList, st.haStatus)], .int 1⟩] ++
    roleSamples node st ++
    st.members.items.flatMap (memberSamples node) ++
    floatingIpSamples node st ++
    currentSamples node qm st ++
    preferredSamples node st ++
    drRoleSamples node st ++
    drStatusSamples node st

/-- What Pacemaker says of one node. -/
def pmSamples (node base : Str) (crm : Crm) (member : Str × Bool) : List Sample :=
  let labels := [nodeLabel node, ("member".toList, member.1)]
  let fc := (crm.failcount.get? member.1).getD 0
  let startable : Bool := fc < infinity
  ⟨"cluster_rdqm_pm_online".toList, labels, flag member.2⟩ ::
    (rdqmPmResources base).map (fun res =>
      ⟨"cluster_rdqm_pm_state".toList, labels ++ [("resource".toList, res)],
        .int (pmCode ((crm.roles.get? res).bind (·.get? member.1)))⟩) ++
    [⟨"cluster_rdqm_failcount".toList, labels, .int fc⟩,
      ⟨"cluster_rdqm_qm_startable".toList, labels, flag startable⟩,
      ⟨"cluster_rdqm_node_ready".toList, labels, flag (member.2 && startable)⟩]

def crmSamples (node base : Str) (crm : Crm) : List Sample := crm.online.items.flatMap (pmSamples node base crm)

/-! ### Collecting -/

/-- What was read. -/
structure Readings : Type where
  status : Option Status
  drbd : Option (Dict Str Drbd)
  crm : Option Crm

/-- The samples of `render_rdqm_state_prom`. -/
def render (node qm base : Str) (now : Clock) (r : Readings) (fresh : List Source) : List Sample :=
  (r.status.elim [] (statusSamples node qm)) ++
    (r.drbd.elim [] (drbdSamples node)) ++
    (r.crm.elim [] (crmSamples node base)) ++
    stamps node now fresh

/-- The samples of `collect`. -/
def samples (py : Runtime) (node qm : Str) (now : Clock) (probes : Probes) : Option (List Sample) := do
  let base ← rdqmResourceBase py qm
  let status ← whenRead (probes .rdqmstatus) fun text => some (parseRdqmstatus text)
  let drbd ← whenRead (probes .drbd) parseDrbd
  let crm ← whenRead (probes .crm) (parseCrm py · base)
  pure (render node qm base now ⟨status, drbd, crm⟩ (freshSources probes [.rdqmstatus, .drbd, .crm]))

end RdqmState
end Obs
end MqResiliency
