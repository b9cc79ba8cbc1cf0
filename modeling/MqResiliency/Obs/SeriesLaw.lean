/-
# Textfiles that are expositions

No collector renders a series twice, whatever it read. That each line reads
back as the sample it was written from takes texts in which nothing has to be
escaped, and integers that a double can be nearest to (`exposition_iff`).
-/
import MqResiliency.Obs.Blocks
import MqResiliency.Obs.DegradedLaw
import MqResiliency.Obs.LogLifecycle

namespace MqResiliency
namespace Obs

open Py Exposition

/-! ### What has to be plain -/

namespace ClusterState

def CrmPlain (crm : Crm) : Prop :=
  (∀ m ∈ crm.nodes.items, Plain m.1) ∧
    ∀ r ∈ crm.resources.items, Plain r.1 ∧ ∀ holder, r.2.node = some holder → Plain holder

def DrbdPlain (drbd : Dict Str Drbd) : Prop :=
  ∀ r ∈ drbd.items, Plain r.1 ∧ Plain r.2.role ∧ Plain r.2.disk ∧ Plain r.2.conn ∧ fits r.2.outOfSyncBytes.natAbs

end ClusterState

namespace RdqmState

/-- Of a queue manager that is not running here, the floating address is not shown. -/
def StatusPlain (qm : Str) (st : Status) : Prop :=
  Plain st.haStatus ∧
    (∀ role, st.haRole = some role → Plain role) ∧
    (∀ m ∈ st.members.items, Plain m.1 ∧ Plain m.2) ∧
    (st.qmStatus = some "Running".toList → ∀ ip, st.floatingIp = some ip →
      Plain ip ∧ ∀ interface, st.floatingIpInterface = some interface → Plain interface) ∧
    (∀ location, st.haCurrentLocation = some location →
      Plain location ∧ (st.qmStatus = some "Running".toList → Plain qm)) ∧
    (∀ location, st.haPreferredLocation = some location → Plain location) ∧
    (∀ role, st.drRole = some role → Plain role) ∧
    ∀ status, st.drStatus = some status → ¬ "See ".toList <+: status → Plain status

def CrmPlain (base : Str) (crm : Crm) : Prop :=
  ∀ m ∈ crm.online.items, Plain m.1 ∧ Plain base ∧ fits ((crm.failcount.get? m.1).getD 0).natAbs

end RdqmState

namespace NativeHaState

def HaxPlain (qm : Str) (h : Hax) : Prop :=
  (∀ current, h.quorumCurrent = some current → h.quorumTotal.isSome → fits current.natAbs) ∧
    ∀ m ∈ h.instances.items, Plain m.1 ∧ Plain m.2.role ∧ Plain m.2.hastatus ∧ (m.2.role = "Active".toList → Plain qm)

def GroupsPlain (groups : Dict Str Group) : Prop :=
  ∀ g ∈ groups.items, Plain g.1 ∧ Plain g.2.role ∧ Plain g.2.status ∧ ∀ n, g.2.backlog = some n → fits n.natAbs

end NativeHaState

namespace LogLifecycle

def RowPlain (r : Row) : Prop :=
  Plain r.qm ∧ Plain r.inst ∧ Plain r.role ∧ ∀ d, r.disk = some d → fits d.usedBytes.natAbs ∧ fits d.totalBytes.natAbs

end LogLifecycle

/-! ### Samples -/

theorem fits_int {n : ℤ} : (Value.int n).Fits ↔ fits n.natAbs := Iff.rfl

theorem fits_small {n : ℤ} (h : n.natAbs < 2 ^ 63) : fits n.natAbs := fits_of_le (by decide) h.le

theorem fits_one : fits (Int.natAbs 1 : ℕ) := fits_small (by decide)

theorem fits_flag (b : Bool) : (flag b).Fits := by
  cases b
  · exact fits_small (by decide)
  · exact fits_one

theorem fits_float {x : PyFloat} : (Value.float x).Fits := trivial

section
variable {node key key' name v w : Str} {value : Value}

theorem reads_node (hnode : Plain node) : Reads ⟨name, [nodeLabel node], value⟩ ↔ value.Fits := by
  simp [Reads, nodeLabel, hnode]

theorem reads_base (hnode : Plain node) : Reads ⟨name, [nodeLabel node, (key, v)], value⟩ ↔ Plain v ∧ value.Fits := by
  simp [Reads, nodeLabel, hnode]

theorem reads_more (hnode : Plain node) :
    Reads ⟨name, [nodeLabel node, (key, v)] ++ [(key', w)], value⟩ ↔ (Plain v ∧ Plain w) ∧ value.Fits := by
  simp [Reads, nodeLabel, hnode]

end

/-! ### The cluster and the storage nodes -/

section
variable {node : Str}

theorem block_drbdResource (r : Str × ClusterState.Drbd) : Block (Plain node) ClusterState.drbdNames
    (Plain r.1 ∧ Plain r.2.role ∧ Plain r.2.disk ∧ Plain r.2.conn ∧ fits r.2.outOfSyncBytes.natAbs)
    (ClusterState.drbdResourceSamples node r) := by
  refine (((((Block.nil.cons rfl).cons rfl).cons rfl).cons rfl).cons rfl).congr fun hnode => ?_
  simp only [reads_more hnode, reads_base hnode, fits_float, fits_int, fits_one]
  tauto

theorem block_drbd (drbd : Dict Str ClusterState.Drbd) :
    Block (Plain node) ClusterState.drbdNames (ClusterState.DrbdPlain drbd) (ClusterState.drbdSamples node drbd) := by
  refine Block.flatMap (fun _ => "resource".toList) Prod.fst drbd.nodup (fun r _ => block_drbdResource r)
    fun r _ s hs => ?_
  simp only [ClusterState.drbdResourceSamples, List.mem_cons, List.not_mem_nil, or_false] at hs
  rcases hs with rfl | rfl | rfl | rfl | rfl <;> rfl

theorem block_member (m : Str × ClusterState.NodeState) :
    Block (Plain node) ["cluster_node_online".toList, "cluster_node_unclean".toList] (Plain m.1)
      (ClusterState.memberSamples node m) := by
  refine ((Block.nil.cons rfl).cons rfl).congr fun hnode => ?_
  simp only [reads_base hnode, fits_flag, and_true, and_self]

theorem block_resource (r : Str × ClusterState.Resource) :
    Block (Plain node) ["cluster_resource_started".toList, "cluster_resource_owner".toList]
      (Plain r.1 ∧ ∀ holder, r.2.node = some holder → Plain holder) (ClusterState.resourceSamples node r) := by
  obtain ⟨name, state, held⟩ := r
  cases held with
  | none =>
    refine (Block.nil.cons rfl).congr fun hnode => ?_
    simp only [reads_base hnode, fits_flag, reduceCtorEq, false_implies, implies_true, and_true]
  | some holder =>
    show Block _ _ _ (_ :: if holder = [] then [] else [_])
    by_cases hempty : holder = []
    · rw [if_pos hempty]
      refine (Block.nil.cons rfl).congr fun hnode => ?_
      have hplain : ∀ h, some holder = some h → Plain h := by
        intro h hh c hc
        rw [← Option.some.inj hh, hempty] at hc
        cases hc
      simp only [reads_base hnode, fits_flag, and_true]
      exact (and_iff_left hplain).symm
    · rw [if_neg hempty]
      refine ((Block.nil.cons rfl).cons rfl).congr fun hnode => ?_
      simp only [reads_base hnode, reads_more hnode, fits_flag, fits_int, fits_one, and_true, Option.some.injEq,
        forall_eq', and_self_left]

theorem block_health (crm : ClusterState.Crm) : Block (Plain node) ClusterState.healthNames (ClusterState.CrmPlain crm)
    (ClusterState.healthSamples node crm) := by
  have hmembers : Block (Plain node) _ _ (crm.nodes.items.flatMap (ClusterState.memberSamples node)) :=
    Block.flatMap (fun _ => "member".toList) Prod.fst crm.nodes.nodup (fun m _ => block_member m) fun m _ s hs => by
      simp only [ClusterState.memberSamples, List.mem_cons, List.not_mem_nil, or_false] at hs
      rcases hs with rfl | rfl <;> rfl
  have hresources : Block (Plain node) _ _ (crm.resources.items.flatMap (ClusterState.resourceSamples node)) :=
    Block.flatMap (fun _ => "resource".toList) Prod.fst crm.resources.nodup (fun r _ => block_resource r) fun r _ s hs => by
      unfold ClusterState.resourceSamples at hs
      simp only at hs
      rcases List.mem_cons.mp hs with rfl | hs
      · rfl
      · split at hs
        · cases hs
        · split at hs
          · cases hs
          · rw [List.mem_singleton.mp hs]
            rfl
  refine ((hmembers.cons rfl).append hresources rfl).congr fun hnode => ?_
  simp only [reads_node hnode, fits_flag, true_and]
  exact Iff.rfl

theorem block_fences {fences : Dict Str ℕ} (hfences : ∀ p ∈ fences.items, p.2 < 2 ^ 63) {members : List Str}
    (hmembers : members.Nodup) :
    Block (Plain node) [fenceName] (∀ m ∈ members, Plain m) (members.map (ClusterState.fenceSample node fences)) := by
  refine (Block.map (f := ClusterState.fenceSample node fences) "member".toList id (by rwa [List.map_id])
    fun m => ⟨rfl, rfl, rfl⟩).congr fun hnode => forall₂_congr fun m _ => ?_
  have hcount : fits (Int.natAbs ((fences.get? m).getD 0 : ℕ) : ℕ) := by
    refine fits_small ?_
    rw [Int.natAbs_natCast]
    cases hget : fences.get? m with
    | none => decide
    | some n => exact hfences _ (Dict.get?_eq_some.mp hget)
  have hread : Reads (ClusterState.fenceSample node fences m) ↔ Plain m ∧ _ := reads_base hnode
  rw [hread]
  exact and_iff_left hcount

theorem block_daemons (daemons : Dict Str Bool) : Block (Plain node) [ClusterState.daemonName]
    (∀ d ∈ daemons.items, Plain d.1) (ClusterState.daemonSamples node daemons) := by
  refine (Block.map (f := fun d : Str × Bool => ⟨"cluster_daemon_up".toList, [nodeLabel node, ("unit".toList, d.1)], flag d.2⟩)
    "unit".toList Prod.fst daemons.nodup fun d => ⟨rfl, rfl, rfl⟩).congr fun hnode => forall₂_congr fun d _ => ?_
  rw [reads_base hnode]
  exact and_iff_left (fits_flag _)

theorem block_iscsi (out : Option Output) : Block (Plain node) [ClusterState.iscsiName] True
    ((out.map fun out => ClusterState.parseIscsi out.text).elim [] fun n =>
      [⟨"cluster_iscsi_sessions".toList, [nodeLabel node], .int n⟩]) := by
  refine (Block.elim fun n _ => Block.nil.cons rfl).congr fun hnode => iff_of_true (fun n hn => ?_) trivial
  obtain ⟨out, -, rfl⟩ := Option.map_eq_some_iff.mp hn
  refine ⟨(reads_node hnode).mpr (fits_small ?_), trivial⟩
  rw [Int.natAbs_natCast]
  exact iscsi_lt out

end

/-! ### RDQM -/

section
variable {node : Str}

theorem fits_roleCode (role : Option Str) : fits (RdqmState.roleCode role).natAbs := by
  unfold RdqmState.roleCode
  split
  · exact fits_small (by decide)
  · split <;> exact fits_small (by decide)

theorem fits_drRoleCode (role : Str) : fits (RdqmState.drRoleCode role).natAbs := by
  unfold RdqmState.drRoleCode
  split
  · exact fits_small (by decide)
  · split <;> exact fits_small (by decide)

theorem fits_pmCode (role : Option Str) : fits (RdqmState.pmCode role).natAbs := by
  unfold RdqmState.pmCode
  split
  · exact fits_small (by decide)
  · split <;> exact fits_small (by decide)

theorem plain_resolve (hnode : Plain node) (location : Str) : Plain (RdqmState.resolve location node) ↔ Plain location := by
  unfold RdqmState.resolve
  split
  · rename_i hhere
    rw [hhere]
    exact iff_of_true hnode (by decide +kernel)
  · exact Iff.rfl

theorem plain_orNone (s : Option Str) : Plain (RdqmState.orNone s) ↔ ∀ v, s = some v → Plain v := by
  cases s with
  | none => exact iff_of_true (by decide +kernel : Plain "None".toList) (by simp)
  | some v => simp [RdqmState.orNone]

theorem block_role (st : RdqmState.Status) : Block (Plain node)
    (["cluster_rdqm_role".toList] ++ ["cluster_rdqm_role_code".toList, "cluster_rdqm_qm_running".toList])
    (∀ role, st.haRole = some role → Plain role) (RdqmState.roleSamples node st) := by
  have hrole : Block (Plain node) ["cluster_rdqm_role".toList] _ (st.haRole.elim [] fun role =>
      [⟨"cluster_rdqm_role".toList, [nodeLabel node, ("member".toList, node)] ++ [("role".toList, role)], .int 1⟩]) :=
    Block.elim fun role _ => Block.nil.cons rfl
  refine (hrole.append ((Block.nil.cons rfl).cons rfl) rfl).congr fun hnode => ?_
  simp only [reads_base hnode, reads_more hnode, fits_flag, fits_int, fits_one, fits_roleCode, hnode, and_true, true_and]

theorem block_rdqmMember (m : Str × Str) : Block (Plain node)
    ["cluster_node_online".toList, "cluster_rdqm_member_status".toList] (Plain m.1 ∧ Plain m.2)
    (RdqmState.memberSamples node m) := by
  refine ((Block.nil.cons rfl).cons rfl).congr fun hnode => ?_
  simp only [reads_base hnode, reads_more hnode, fits_flag, fits_int, fits_one, and_true, and_self_left]

theorem block_members (members : Dict Str Str) : Block (Plain node)
    ["cluster_node_online".toList, "cluster_rdqm_member_status".toList] (∀ m ∈ members.items, Plain m.1 ∧ Plain m.2)
    (members.items.flatMap (RdqmState.memberSamples node)) :=
  Block.flatMap (fun _ => "member".toList) Prod.fst members.nodup (fun m _ => block_rdqmMember m) fun m _ s hs => by
    simp only [RdqmState.memberSamples, List.mem_cons, List.not_mem_nil, or_false] at hs
    rcases hs with rfl | rfl <;> rfl

theorem block_floatingIp (st : RdqmState.Status) : Block (Plain node) ["cluster_rdqm_floating_ip".toList]
    (st.qmStatus = some "Running".toList → ∀ ip, st.floatingIp = some ip →
      Plain ip ∧ ∀ interface, st.floatingIpInterface = some interface → Plain interface)
    (RdqmState.floatingIpSamples node st) := by
  refine Block.ite fun _ => Block.elim fun ip _ => (Block.nil.cons rfl).congr fun hnode => ?_
  have hread : ∀ i, Reads ⟨"cluster_rdqm_floating_ip".toList,
      [nodeLabel node, ("ip".toList, ip)] ++ [("interface".toList, i)], .int 1⟩ ↔ (Plain ip ∧ Plain i) ∧ _ :=
    fun i => reads_more hnode
  rw [and_true]
  exact (hread _).trans (by rw [plain_orNone]; exact and_iff_left fits_one)

theorem reads_location (hnode : Plain node) {kind : Str} (hkind : Plain kind) (location : Str) :
    Reads (RdqmState.locationSample node kind location) ↔ Plain location := by
  have hread : Reads (RdqmState.locationSample node kind location) ↔ (Plain kind ∧ _) ∧ (Value.int 1).Fits :=
    reads_more hnode
  rw [hread, plain_resolve hnode]
  simp only [hkind, fits_int, fits_one, true_and, and_true]

/-- The locations are told apart by their kind. -/
theorem block_locations (qm : Str) (st : RdqmState.Status) : Block (Plain node)
    (["cluster_rdqm_location".toList, "cluster_resource_owner".toList] ++ ["cluster_rdqm_location".toList])
    ((∀ location, st.haCurrentLocation = some location →
      Plain location ∧ (st.qmStatus = some "Running".toList → Plain qm)) ∧
      ∀ location, st.haPreferredLocation = some location → Plain location)
    (RdqmState.currentSamples node qm st ++ RdqmState.preferredSamples node st) := by
  have hcurrent : Block (Plain node) ["cluster_rdqm_location".toList, "cluster_resource_owner".toList]
      (∀ location, st.haCurrentLocation = some location →
        Plain location ∧ (st.qmStatus = some "Running".toList → Plain qm)) (RdqmState.currentSamples node qm st) := by
    refine Block.elim fun location _ => ((Block.ite fun _ => Block.nil.cons rfl).cons rfl).congr fun hnode => ?_
    have howner : Reads ⟨"cluster_resource_owner".toList, [nodeLabel node, ("resource".toList, qm)] ++
        [("holder".toList, RdqmState.resolve location node)], .int 1⟩ ↔ Plain qm ∧ Plain location := by
      rw [reads_more hnode, plain_resolve hnode]
      simp only [fits_int, fits_one, and_true]
    rw [reads_location hnode (by decide +kernel)]
    refine and_congr_right fun hlocation => forall_congr' fun _ => ?_
    rw [and_true]
    exact howner.trans (and_iff_left hlocation)
  have hpreferred : Block (Plain node) ["cluster_rdqm_location".toList]
      (∀ location, st.haPreferredLocation = some location → Plain location) (RdqmState.preferredSamples node st) :=
    Block.elim fun location _ => (Block.nil.cons rfl).congr fun hnode => by
      rw [reads_location hnode (by decide +kernel), and_true]
  refine hcurrent.append_of_apart hpreferred fun s hs t ht => ?_
  obtain ⟨preferred, rfl⟩ : ∃ location, t = RdqmState.locationSample node "preferred".toList location := by
    unfold RdqmState.preferredSamples at ht
    cases hloc : st.haPreferredLocation with
    | none =>
      rw [hloc] at ht
      exact absurd ht List.not_mem_nil
    | some location =>
      rw [hloc] at ht
      exact ⟨location, List.mem_singleton.mp ht⟩
  unfold RdqmState.currentSamples at hs
  cases hloc : st.haCurrentLocation with
  | none =>
    rw [hloc] at hs
    exact absurd hs List.not_mem_nil
  | some location =>
    rw [hloc] at hs
    rcases List.mem_cons.mp hs with rfl | hs
    · exact .inr ⟨"kind".toList, fun h => absurd (Option.some.inj h) (by decide +kernel)⟩
    · split at hs
      · rw [List.mem_singleton.mp hs]
        have hname : "cluster_resource_owner".toList ≠ "cluster_rdqm_location".toList := by decide +kernel
        exact .inl hname
      · cases hs

theorem block_drRole (st : RdqmState.Status) : Block (Plain node)
    ["cluster_rdqm_dr_role".toList, "cluster_rdqm_dr_role_code".toList]
    (∀ role, st.drRole = some role → Plain role) (RdqmState.drRoleSamples node st) := by
  refine Block.elim fun role _ => ((Block.nil.cons rfl).cons rfl).congr fun hnode => ?_
  simp only [reads_base hnode, reads_node hnode, fits_int, fits_one, fits_drRoleCode, and_true]

theorem block_drStatus (st : RdqmState.Status) : Block (Plain node)
    ["cluster_rdqm_dr_status".toList, "cluster_rdqm_dr_status_ok".toList]
    (∀ status, st.drStatus = some status → ¬ "See ".toList <+: status → Plain status)
    (RdqmState.drStatusSamples node st) := by
  refine Block.elim fun status _ => ?_
  by_cases hsee : "See ".toList <+: status
  · rw [if_pos hsee]
    exact Block.nil.congr fun _ => iff_of_true trivial fun hnot => absurd hsee hnot
  · rw [if_neg hsee]
    refine ((Block.nil.cons rfl).cons rfl).congr fun hnode => ?_
    simp only [reads_base hnode, reads_node hnode, fits_flag, fits_int, fits_one, and_true, hsee, not_false_eq_true,
      true_implies]

theorem block_status (qm : Str) (st : RdqmState.Status) : Block (Plain node) RdqmState.statusNames
    (RdqmState.StatusPlain qm st) (RdqmState.statusSamples node qm st) := by
  have hfirst : Block (Plain node)
      ["cluster_quorate".toList, "cluster_rdqm_ha_status_ok".toList, "cluster_rdqm_ha_status".toList] (Plain st.haStatus)
      [⟨"cluster_quorate".toList, [nodeLabel node], flag (st.haStatus = "Normal".toList)⟩,
        ⟨"cluster_rdqm_ha_status_ok".toList, [nodeLabel node], flag (st.haStatus = "Normal".toList)⟩,
        ⟨"cluster_rdqm_ha_status".toList, [nodeLabel node, ("status".toList, st.haStatus)], .int 1⟩] := by
    refine (((Block.nil.cons rfl).cons rfl).cons rfl).congr fun hnode => ?_
    simp only [reads_node hnode, reads_base hnode, fits_flag, fits_int, fits_one, true_and, and_true]
  have hall := ((((((hfirst.append (block_role st) rfl).append (block_members st.members)
    rfl).append (block_floatingIp st) rfl).append (block_locations qm st)
    rfl).append (block_drRole st) rfl).append (block_drStatus st) rfl)
  rw [← List.append_assoc _ (RdqmState.currentSamples node qm st)] at hall
  refine (hall.rename (RdqmState.named_status node qm st)).congr fun _ => ?_
  unfold RdqmState.StatusPlain
  simp only [and_assoc]

theorem nodup_rdqmPmResources (base : Str) : (RdqmState.rdqmPmResources base).Nodup := by
  have hlength : (RdqmState.rdqmPmResources base).Pairwise fun a b => a.length ≠ b.length := by
    simp [RdqmState.rdqmPmResources]
    omega
  exact hlength.imp fun hne heq => hne (congrArg _ heq)

theorem plain_rdqmPmResources {base : Str} : (∀ res ∈ RdqmState.rdqmPmResources base, Plain res) ↔ Plain base := by
  have hprefix : ∀ {pre : Str}, Plain pre → (Plain (pre ++ base) ↔ Plain base) := by
    intro pre hpre
    unfold Plain
    rw [List.forall_mem_append]
    exact and_iff_right hpre
  unfold RdqmState.rdqmPmResources
  rw [List.forall_mem_cons, List.forall_mem_cons, List.forall_mem_cons, List.forall_mem_singleton,
    hprefix (by decide +kernel), hprefix (by decide +kernel), hprefix (by decide +kernel)]
  simp only [and_self]

theorem block_pmMember (base : Str) (crm : RdqmState.Crm) (m : Str × Bool) : Block (Plain node) RdqmState.pmNames
    (Plain m.1 ∧ Plain base ∧ fits ((crm.failcount.get? m.1).getD 0).natAbs) (RdqmState.pmSamples node base crm m) := by
  have hstates : Block (Plain node) ["cluster_rdqm_pm_state".toList] (Plain m.1 ∧ Plain base)
      ((RdqmState.rdqmPmResources base).map fun res => ⟨"cluster_rdqm_pm_state".toList,
        [nodeLabel node, ("member".toList, m.1)] ++ [("resource".toList, res)],
        .int (RdqmState.pmCode ((crm.roles.get? res).bind (·.get? m.1)))⟩) := by
    refine (Block.map (f := fun res => ⟨"cluster_rdqm_pm_state".toList,
      [nodeLabel node, ("member".toList, m.1)] ++ [("resource".toList, res)],
      .int (RdqmState.pmCode ((crm.roles.get? res).bind (·.get? m.1)))⟩) "resource".toList id
      (by rw [List.map_id]; exact nodup_rdqmPmResources base) fun res => ⟨rfl, rfl, rfl⟩).congr fun hnode => ?_
    simp only [reads_more hnode, fits_int, fits_pmCode, and_true]
    have hres : _ ↔ Plain base := plain_rdqmPmResources
    rw [← hres]
    exact ⟨fun h => ⟨(h base List.mem_cons_self).1, fun res hres => (h res hres).2⟩,
      fun h res hres => ⟨h.1, h.2 res hres⟩⟩
  have hfirst : Block (Plain node) ["cluster_rdqm_pm_online".toList, "cluster_rdqm_pm_state".toList]
      (Plain m.1 ∧ Plain m.1 ∧ Plain base)
      (⟨"cluster_rdqm_pm_online".toList, [nodeLabel node, ("member".toList, m.1)], flag m.2⟩ :: List.map _ _) :=
    (hstates.cons rfl).congr fun hnode => by
      rw [reads_base hnode]
      exact and_congr_left' (and_iff_left (fits_flag m.2))
  have hlast : ∀ startable ready : Bool, Block (Plain node)
      ["cluster_rdqm_failcount".toList, "cluster_rdqm_qm_startable".toList, "cluster_rdqm_node_ready".toList]
      (Plain m.1 ∧ fits ((crm.failcount.get? m.1).getD 0).natAbs)
      [⟨"cluster_rdqm_failcount".toList, [nodeLabel node, ("member".toList, m.1)],
          .int ((crm.failcount.get? m.1).getD 0)⟩,
        ⟨"cluster_rdqm_qm_startable".toList, [nodeLabel node, ("member".toList, m.1)], flag startable⟩,
        ⟨"cluster_rdqm_node_ready".toList, [nodeLabel node, ("member".toList, m.1)], flag ready⟩] := by
    intro startable ready
    refine (((Block.nil.cons rfl).cons rfl).cons rfl).congr fun hnode => ?_
    simp only [reads_base hnode, fits_flag, fits_int, and_true]
    tauto
  refine (hfirst.append (hlast _ _) rfl).congr fun _ => ?_
  tauto

theorem block_pm (base : Str) (crm : RdqmState.Crm) : Block (Plain node) RdqmState.pmNames
    (RdqmState.CrmPlain base crm) (RdqmState.crmSamples node base crm) := by
  refine Block.flatMap (fun _ => "member".toList) Prod.fst crm.online.nodup (fun m _ => block_pmMember base crm m)
    fun m _ s hs => ?_
  rcases List.mem_append.mp hs with hs | hs
  · rcases List.mem_cons.mp hs with rfl | hs
    · rfl
    · obtain ⟨res, -, rfl⟩ := List.mem_map.mp hs
      rfl
  · simp only [List.mem_cons, List.not_mem_nil, or_false] at hs
    rcases hs with rfl | rfl | rfl <;> rfl

end

/-! ### Native HA -/

section
variable {node : Str}

theorem block_quorum (h : NativeHaState.Hax) : Block (Plain node) ["cluster_quorate".toList, "cluster_nha_quorum".toList]
    (∀ current, h.quorumCurrent = some current → h.quorumTotal.isSome → fits current.natAbs)
    (NativeHaState.quorumSamples node h) := by
  obtain ⟨current, total, role, instances⟩ := h
  cases current with
  | none => exact Block.nil.congr fun _ => by simp
  | some current =>
    cases total with
    | none => exact Block.nil.congr fun _ => by simp
    | some total =>
      refine ((Block.nil.cons rfl).cons rfl).congr fun hnode => ?_
      simp only [reads_node hnode, fits_flag, fits_int, true_and, and_true, Option.some.injEq, forall_eq',
        Option.isSome_some, forall_const]

theorem fits_nativeHaRoleCode (role : Str) : fits (NativeHaState.roleCode role).natAbs := by
  unfold NativeHaState.roleCode
  split
  · exact fits_small (by decide)
  · split
    · exact fits_small (by decide)
    · split <;> exact fits_small (by decide)

theorem block_instance (qm : Str) (m : Str × NativeHaState.Instance) : Block (Plain node)
    (["cluster_node_online".toList, "cluster_nha_role".toList, "cluster_nha_role_code".toList,
      "cluster_nha_insync".toList, "cluster_nha_hastatus".toList, "cluster_nha_hastatus_ok".toList] ++
      ["cluster_resource_owner".toList])
    (Plain m.1 ∧ Plain m.2.role ∧ Plain m.2.hastatus ∧ (m.2.role = "Active".toList → Plain qm))
    (NativeHaState.instanceSamples node qm m) := by
  have hstate : Block (Plain node)
      ["cluster_node_online".toList, "cluster_nha_role".toList, "cluster_nha_role_code".toList,
        "cluster_nha_insync".toList, "cluster_nha_hastatus".toList, "cluster_nha_hastatus_ok".toList]
      (Plain m.1 ∧ Plain m.2.role ∧ Plain m.2.hastatus)
      [⟨"cluster_node_online".toList, [nodeLabel node, ("member".toList, m.1)], flag (m.2.role ≠ "Unknown".toList)⟩,
        ⟨"cluster_nha_role".toList, [nodeLabel node, ("member".toList, m.1)] ++ [("role".toList, m.2.role)], .int 1⟩,
        ⟨"cluster_nha_role_code".toList, [nodeLabel node, ("member".toList, m.1)],
          .int (NativeHaState.roleCode m.2.role)⟩,
        ⟨"cluster_nha_insync".toList, [nodeLabel node, ("member".toList, m.1)], flag m.2.insync⟩,
        ⟨"cluster_nha_hastatus".toList, [nodeLabel node, ("member".toList, m.1)] ++ [("status".toList, m.2.hastatus)],
          .int 1⟩,
        ⟨"cluster_nha_hastatus_ok".toList, [nodeLabel node, ("member".toList, m.1)],
          flag (m.2.hastatus = "Normal".toList)⟩] := by
    refine ((((((Block.nil.cons rfl).cons rfl).cons rfl).cons rfl).cons rfl).cons rfl).congr fun hnode => ?_
    simp only [reads_base hnode, reads_more hnode, fits_flag, fits_int, fits_one, fits_nativeHaRoleCode, and_true]
    tauto
  have howner : Block (Plain node) ["cluster_resource_owner".toList]
      (m.2.role = "Active".toList → (Plain qm ∧ Plain m.1) ∧ fits (Int.natAbs 1))
      (if m.2.role = "Active".toList then
        [⟨"cluster_resource_owner".toList,
          [nodeLabel node, ("resource".toList, qm)] ++ [("holder".toList, m.1)], .int 1⟩] else []) :=
    Block.ite fun _ => (Block.nil.cons rfl).congr fun hnode => by rw [reads_more hnode, fits_int, and_true]
  refine (hstate.append howner rfl).congr fun _ => ?_
  simp only [fits_one, and_true, and_assoc]
  refine and_congr_right fun hname => and_congr_right fun _ => and_congr_right fun _ => forall_congr' fun _ => ?_
  exact and_iff_left hname

/-- An owner is told apart by the member that it names as the holder. -/
theorem block_hax (qm : Str) (h : NativeHaState.Hax) : Block (Plain node) NativeHaState.haxNames
    (NativeHaState.HaxPlain qm h) (NativeHaState.haxSamples node qm h) := by
  have hinstances : Block (Plain node) _ _ (h.instances.items.flatMap (NativeHaState.instanceSamples node qm)) :=
    Block.flatMap (fun name => if name = "cluster_resource_owner".toList then "holder".toList else "member".toList)
      Prod.fst h.instances.nodup (fun m _ => block_instance qm m) fun m _ s hs => by
        rcases List.mem_append.mp hs with hs | hs
        · simp only [List.mem_cons, List.not_mem_nil, or_false] at hs
          rcases hs with rfl | rfl | rfl | rfl | rfl | rfl <;> rfl
        · split at hs
          · rw [List.mem_singleton.mp hs]
            rfl
          · cases hs
  exact ((block_quorum h).append hinstances rfl).congr fun _ => Iff.rfl

theorem block_group (g : Str × NativeHaState.Group) : Block (Plain node) NativeHaState.groupNames
    (Plain g.1 ∧ Plain g.2.role ∧ Plain g.2.status ∧ ∀ n, g.2.backlog = some n → fits n.natAbs)
    (NativeHaState.groupSamples node g) := by
  have hstate : Block (Plain node) ["cluster_nha_group_role".toList, "cluster_nha_group_status".toList]
      (Plain g.1 ∧ Plain g.2.role ∧ Plain g.2.status)
      [⟨"cluster_nha_group_role".toList, [nodeLabel node, ("group".toList, g.1)] ++ [("role".toList, g.2.role)], .int 1⟩,
        ⟨"cluster_nha_group_status".toList, [nodeLabel node, ("group".toList, g.1)] ++ [("status".toList, g.2.status)],
          .int 1⟩] := by
    refine ((Block.nil.cons rfl).cons rfl).congr fun hnode => ?_
    simp only [reads_more hnode, fits_int, fits_one, and_true]
    tauto
  have hflag : ∀ (name : Str) (o : Option Bool),
      (∀ b, Block (Plain node) [name] (Plain g.1) [⟨name, [nodeLabel node, ("group".toList, g.1)], flag b⟩]) →
      Block (Plain node) [name] (∀ b, o = some b → Plain g.1)
        (o.elim [] fun b => [⟨name, [nodeLabel node, ("group".toList, g.1)], flag b⟩]) :=
    fun name o h => Block.elim fun b _ => h b
  have hconnected := hflag "cluster_nha_connected".toList g.2.connected fun b =>
    (Block.nil.cons rfl).congr fun hnode => by
      rw [reads_base hnode, and_true]
      exact and_iff_left (fits_flag b)
  have hinsync := hflag "cluster_nha_group_insync".toList g.2.insync fun b =>
    (Block.nil.cons rfl).congr fun hnode => by
      rw [reads_base hnode, and_true]
      exact and_iff_left (fits_flag b)
  have hbacklog : Block (Plain node) ["cluster_nha_group_backlog".toList]
      (∀ n, g.2.backlog = some n → Plain g.1 ∧ fits n.natAbs) (g.2.backlog.elim [] fun n =>
        [⟨"cluster_nha_group_backlog".toList, [nodeLabel node, ("group".toList, g.1)], .int n⟩]) :=
    Block.elim fun n _ => (Block.nil.cons rfl).congr fun hnode => by rw [reads_base hnode, fits_int, and_true]
  refine ((((hstate.append hconnected rfl).append hinsync rfl).append hbacklog
    rfl)).congr fun _ => ?_
  constructor
  · rintro ⟨⟨⟨⟨hname, hrole, hstatus⟩, -⟩, -⟩, hback⟩
    exact ⟨hname, hrole, hstatus, fun n hn => (hback n hn).2⟩
  · rintro ⟨hname, hrole, hstatus, hback⟩
    exact ⟨⟨⟨⟨hname, hrole, hstatus⟩, fun _ _ => hname⟩, fun _ _ => hname⟩, fun n hn => ⟨hname, hback n hn⟩⟩

theorem block_groups (groups : Dict Str NativeHaState.Group) : Block (Plain node) NativeHaState.groupNames
    (NativeHaState.GroupsPlain groups) (groups.items.flatMap (NativeHaState.groupSamples node)) := by
  refine Block.flatMap (fun _ => "group".toList) Prod.fst groups.nodup (fun g _ => block_group g) fun g _ s hs => ?_
  have hopt : ∀ {α : Type} {o : Option α} {name : Str} {value : α → Value},
      s ∈ (o.elim [] fun a => [⟨name, [nodeLabel node, ("group".toList, g.1)], value a⟩]) →
      s.labels.lookup "group".toList = some g.1 := by
    intro α o name value hs
    cases o with
    | none => exact absurd hs List.not_mem_nil
    | some a =>
      rw [List.mem_singleton.mp hs]
      rfl
  rcases List.mem_append.mp hs with hs | hs
  · rcases List.mem_append.mp hs with hs | hs
    · rcases List.mem_append.mp hs with hs | hs
      · simp only [List.mem_cons, List.not_mem_nil, or_false] at hs
        rcases hs with rfl | rfl <;> rfl
      · exact hopt hs
    · exact hopt hs
  · exact hopt hs

end

/-! ### The stamps -/

/-- The stamps read back if the node's name is plain. -/
theorem block_stamps (node : Str) (now : Clock) {fresh : List Source} (hfresh : fresh.Nodup) :
    Block True [stampName] (fresh ≠ [] → Plain node) (stamps node now fresh) := by
  have hname : ∀ source : Source, Plain source.name := by
    intro source
    cases source <;> decide +kernel
  have hnodup : (fresh.map Source.name).Nodup := hfresh.map fun _ _ => Source.name_inj
  refine (Block.map (f := fun source => ⟨"cluster_state_last_write_timestamp".toList,
    [nodeLabel node, ("source".toList, source.name)], .int now.seconds⟩)
    "source".toList Source.name hnodup fun source => ⟨rfl, rfl, rfl⟩).congr fun _ => ?_
  have hreads : ∀ source : Source, Reads ⟨"cluster_state_last_write_timestamp".toList,
      [nodeLabel node, ("source".toList, source.name)], .int now.seconds⟩ ↔ Plain node := by
    intro source
    have hfits : (Value.int now.seconds).Fits := fits_of_isDouble now.isDouble
    simp [Reads, nodeLabel, hname, hfits]
  simp only [hreads]
  constructor
  · intro h hne
    obtain ⟨source, hsource⟩ := List.exists_mem_of_ne_nil fresh hne
    exact h source hsource
  · exact fun h source hsource => h (List.ne_nil_of_mem hsource)

/-- A source was read. -/
def Answered (c : Collector) (run : Run) : Prop := ∃ source ∈ c.sources, (run.probes source).isSome

theorem nodup_sources (c : Collector) : c.sources.Nodup := by
  cases c with
  | cluster role => cases role <;> decide
  | rdqm qm =>
    show ([.rdqmstatus, .drbd, .crm] : List Source).Nodup
    decide
  | nativeHa qm =>
    show ([.nativehaX, .nativehaG] : List Source).Nodup
    decide

/-- Blocks of what was read, and the stamps: as soon as there is one, it takes
a node whose name is plain. -/
theorem Block.stamped {c : Collector} {run : Run} {names : List Str} {P : Prop} {l : List Sample}
    (h : Block (Plain run.node) names P l) (hnames : (!names.contains stampName) = true)
    (hnone : (∀ source ∈ c.sources, run.probes source = none) → l = [] ∧ P) :
    Block True (names ++ [stampName]) ((Answered c run → Plain run.node) ∧ P)
      (l ++ stamps run.node run.now (freshSources run.probes c.sources)) := by
  have hanswered : freshSources run.probes c.sources ≠ [] ↔ Answered c run := by
    rw [freshSources, ne_eq, List.filter_eq_nil_iff]
    simp [Answered, Option.isSome_iff_ne_none]
  have hstamps : Block True [stampName] (freshSources run.probes c.sources ≠ [] → Plain run.node) _ :=
    block_stamps run.node run.now ((nodup_sources c).filter _)
  have hplain : Block True names (∀ s ∈ l, Reads s) l := ⟨h.named, h.formed, h.apart, fun _ => Iff.rfl⟩
  refine (hplain.append_of_names hstamps fun n hn hstamp => ?_).congr fun _ => ?_
  · have hnew : stampName ∉ names := by simpa using hnames
    exact hnew (List.mem_singleton.mp hstamp ▸ hn)
  rw [hanswered, and_comm]
  by_cases hnode : Plain run.node
  · rw [h.reads hnode]
  · refine and_congr_right fun himp => ?_
    obtain ⟨rfl, hP⟩ := hnone fun source hsource => by
      by_contra hne
      exact hnode (himp ⟨source, hsource, Option.isSome_iff_ne_none.mpr hne⟩)
    exact iff_of_true (List.forall_mem_nil _) hP

/-! ### Runs -/

/-- A run of one of the four collectors. -/
inductive Rendering : Type where
  | state (c : Collector) (run : Run)
  | logLifecycle (inst qm : Str) (probes : LogLifecycle.LogProbes)

/-- Its samples, `none` where it raises. -/
def Rendering.samples (py : Runtime) : Rendering → Option (List Sample)
  | state c run => Obs.samples py c run
  | logLifecycle inst qm probes => some (LogLifecycle.samples py inst qm probes)

/-- All that is shown of the texts of a run is plain. -/
def Collector.Plain (py : Runtime) (c : Collector) (run : Run) : Prop :=
  match c with
  | .cluster .cluster =>
    ∀ crm, whenRead (run.probes .crm) (ClusterState.parseCrm py) = some (some crm) → ClusterState.CrmPlain crm
  | .cluster .storage =>
    ∀ drbd, whenRead (run.probes .drbd) ClusterState.parseDrbd = some (some drbd) → ClusterState.DrbdPlain drbd
  | .rdqm qm =>
    (∀ raw, run.probes .rdqmstatus = some raw → RdqmState.StatusPlain qm (RdqmState.parseRdqmstatus raw.text)) ∧
      (∀ drbd, whenRead (run.probes .drbd) ClusterState.parseDrbd = some (some drbd) → ClusterState.DrbdPlain drbd) ∧
      ∀ base crm, RdqmState.rdqmResourceBase py qm = some base →
        whenRead (run.probes .crm) (RdqmState.parseCrm py · base) = some (some crm) → RdqmState.CrmPlain base crm
  | .nativeHa qm =>
    (∀ raw, run.probes .nativehaX = some raw → NativeHaState.HaxPlain qm (NativeHaState.parseNativehaX py raw.text)) ∧
      ∀ raw, run.probes .nativehaG = some raw → NativeHaState.GroupsPlain (NativeHaState.parseNativehaG py raw.text)

/-- Nothing that is shown has to be escaped, and every integer that was read
fits a double. -/
def Rendering.Plain (py : Runtime) : Rendering → Prop
  | state c run => (Answered c run → Exposition.Plain run.node) ∧ c.Plain py run
  | logLifecycle inst qm probes => LogLifecycle.RowPlain (LogLifecycle.row py inst qm probes)

section
variable {py : Runtime} {run : Run} {l : List Sample}

theorem plain_daemons (text : Str) (role : ClusterState.Role) :
    ∀ d ∈ (ClusterState.parseDaemons text (ClusterState.daemonUnits role)).items, Exposition.Plain d.1 := by
  intro d hd
  have hunits : ∀ unit ∈ ClusterState.daemonUnits role, Exposition.Plain unit := by
    cases role <;> decide +kernel
  have hkey : d.1 ∈ (ClusterState.parseDaemons text (ClusterState.daemonUnits role)).keys := List.mem_map_of_mem hd
  unfold ClusterState.parseDaemons at hkey
  rw [Dict.mem_keys_ofList, List.map_map] at hkey
  obtain ⟨⟨unit, i⟩, hunit, hname⟩ := List.mem_map.mp hkey
  rw [← hname]
  exact hunits unit (List.fst_mem_of_mem_zipIdx hunit)

/-- What the units are is fixed. -/
theorem block_daemonProbe (node : Str) (role : ClusterState.Role) (out : Option Output) :
    Block (Exposition.Plain node) [ClusterState.daemonName] True (ClusterState.daemonSamples node
      (out.elim .empty fun out => ClusterState.parseDaemons out.text (ClusterState.daemonUnits role))) := by
  refine (block_daemons _).congr fun _ => iff_of_true (fun d hd => ?_) trivial
  cases out with
  | none => exact absurd hd List.not_mem_nil
  | some out => exact plain_daemons out.text role d hd

theorem block_cluster (h : samples py (.cluster .cluster) run = some l) :
    ∃ names, Block True names ((Rendering.state (.cluster .cluster) run).Plain py) l := by
  have hrun : samples py (.cluster .cluster) run = _ := ClusterState.samples_cluster py run.node run.now run.probes
  rw [hrun] at h
  obtain ⟨crm, hcrm, rfl⟩ := Option.map_eq_some_iff.mp h
  have hfences : ∀ p ∈ (((run.probes .stonith).map fun out => ClusterState.parseStonith out.text).getD .empty).items,
      p.2 < 2 ^ 63 := by
    cases run.probes .stonith with
    | none => exact fun p hp => absurd hp List.not_mem_nil
    | some out => exact shows_stonith out
  have hblock : Block (Exposition.Plain run.node) (ClusterState.healthNames ++ [fenceName])
      (∀ crm', crm = some crm' → ClusterState.CrmPlain crm')
      (crm.elim [] fun crm => ClusterState.crmSamples run.node crm
        ((run.probes .stonith).map fun out => ClusterState.parseStonith out.text)) := by
    refine Block.elim fun crm _ => ((block_health crm).append (block_fences hfences crm.nodes.nodup)
      rfl).congr fun _ => and_iff_left_of_imp fun hplain m hm => ?_
    obtain ⟨p, hp, rfl⟩ := List.mem_map.mp hm
    exact hplain.1 p hp
  have hnil : Block (Exposition.Plain run.node) [] True [] := Block.nil
  have hall := (((hblock.append (block_iscsi (run.probes .iscsi)) rfl).append
    (block_daemonProbe run.node .cluster (run.probes .daemons)) rfl).append_of_names hnil (by simp)).congr
    (Q := (Collector.cluster .cluster).Plain py run) fun _ => by
      show (((_ ∧ True) ∧ True) ∧ True) ↔ ∀ crm', whenRead _ _ = _ → _
      simp only [and_true, hcrm, Option.some.injEq]
  refine ⟨_, hall.stamped (c := .cluster .cluster) rfl fun hnone => ?_⟩
  rw [hnone .crm (by decide)] at hcrm
  obtain rfl : crm = none := (Option.some.inj hcrm).symm
  rw [hnone .iscsi (by decide), hnone .daemons (by decide)]
  refine ⟨rfl, fun crm' hread => ?_⟩
  rw [hnone .crm (by decide)] at hread
  cases hread

theorem block_storage (h : samples py (.cluster .storage) run = some l) :
    ∃ names, Block True names ((Rendering.state (.cluster .storage) run).Plain py) l := by
  have hrun : samples py (.cluster .storage) run = _ := ClusterState.samples_storage py run.node run.now run.probes
  rw [hrun] at h
  obtain ⟨drbd, hdrbd, rfl⟩ := Option.map_eq_some_iff.mp h
  have hnil : Block (Exposition.Plain run.node) [] True [] := Block.nil
  have hdrbds : Block (Exposition.Plain run.node) ClusterState.drbdNames
      (∀ d, drbd = some d → ClusterState.DrbdPlain d) (drbd.elim [] (ClusterState.drbdSamples run.node)) :=
    Block.elim fun d _ => block_drbd d
  have hall := ((hnil.append (block_daemonProbe run.node .storage (run.probes .daemons)) rfl).append hdrbds
    rfl).congr (Q := (Collector.cluster .storage).Plain py run) fun _ => by
      show ((True ∧ True) ∧ _) ↔ ∀ d, whenRead _ _ = _ → _
      simp only [and_self, true_and, hdrbd, Option.some.injEq]
  refine ⟨_, hall.stamped (c := .cluster .storage) rfl fun hnone => ?_⟩
  rw [hnone .drbd (by decide)] at hdrbd
  obtain rfl : drbd = none := (Option.some.inj hdrbd).symm
  rw [hnone .daemons (by decide)]
  refine ⟨rfl, fun d hread => ?_⟩
  rw [hnone .drbd (by decide)] at hread
  cases hread

theorem block_rdqm {qm : Str} (h : samples py (.rdqm qm) run = some l) :
    ∃ names, Block True names ((Rendering.state (.rdqm qm) run).Plain py) l := by
  obtain ⟨base, hbase, h⟩ := Option.bind_eq_some_iff.mp h
  obtain ⟨status, hstatus, h⟩ := Option.bind_eq_some_iff.mp h
  obtain ⟨drbd, hdrbd, h⟩ := Option.bind_eq_some_iff.mp h
  obtain ⟨crm, hcrm, h⟩ := Option.bind_eq_some_iff.mp h
  obtain rfl := Option.some.inj h
  have hstatuses : Block (Exposition.Plain run.node) RdqmState.statusNames
      (∀ st, status = some st → RdqmState.StatusPlain qm st) (status.elim [] (RdqmState.statusSamples run.node qm)) :=
    Block.elim fun st _ => block_status qm st
  have hdrbds : Block (Exposition.Plain run.node) ClusterState.drbdNames
      (∀ d, drbd = some d → ClusterState.DrbdPlain d) (drbd.elim [] (ClusterState.drbdSamples run.node)) :=
    Block.elim fun d _ => block_drbd d
  have hpm : Block (Exposition.Plain run.node) RdqmState.pmNames
      (∀ c, crm = some c → RdqmState.CrmPlain base c) (crm.elim [] (RdqmState.crmSamples run.node base)) :=
    Block.elim fun c _ => block_pm base c
  have hread : ∀ {α : Type} {out : Option Output} {parse : Str → α} {a : Option α},
      whenRead out (fun text => some (parse text)) = some a →
      ∀ P : α → Prop, (∀ x, a = some x → P x) ↔ ∀ raw, out = some raw → P (parse raw.text) := by
    intro α out parse a ha P
    cases out with
    | none =>
      obtain rfl := Option.some.inj ha
      simp
    | some raw =>
      obtain rfl : some (parse raw.text) = a := Option.some.inj ha
      simp
  have hall := ((hstatuses.append hdrbds rfl).append hpm rfl).congr
    (Q := (Collector.rdqm qm).Plain py run) fun _ => by
      show ((_ ∧ _) ∧ _) ↔ (∀ raw, run.probes .rdqmstatus = some raw → _) ∧ (∀ d, whenRead _ _ = _ → _) ∧
        ∀ base c, RdqmState.rdqmResourceBase py qm = some base → whenRead _ _ = _ → _
      rw [hread hstatus (RdqmState.StatusPlain qm), and_assoc]
      simp only [hdrbd, hbase, Option.some.injEq]
      refine and_congr_right fun _ => and_congr_right fun _ => ⟨?_, fun h c hc => h base c rfl (hc ▸ hcrm)⟩
      rintro h _ c rfl hc
      exact h c (Option.some.inj (hcrm.symm.trans hc))
  refine ⟨_, hall.stamped (c := .rdqm qm) rfl fun hnone => ?_⟩
  have hnone : ∀ source ∈ [Source.rdqmstatus, .drbd, .crm], run.probes source = none := hnone
  have hstatus_none := hnone .rdqmstatus (by decide)
  have hdrbd_none := hnone .drbd (by decide)
  have hcrm_none := hnone .crm (by decide)
  rw [hstatus_none] at hstatus
  rw [hdrbd_none] at hdrbd
  rw [hcrm_none] at hcrm
  obtain rfl : status = none := (Option.some.inj hstatus).symm
  obtain rfl : drbd = none := (Option.some.inj hdrbd).symm
  obtain rfl : crm = none := (Option.some.inj hcrm).symm
  refine ⟨rfl, fun raw hraw => ?_, fun d hd => ?_, fun _ c _ hc => ?_⟩
  · rw [hstatus_none] at hraw
    cases hraw
  · rw [hdrbd_none] at hd
    cases hd
  · rw [hcrm_none] at hc
    cases hc

theorem block_nativeHa (py : Runtime) (qm : Str) (run : Run) : ∃ names, Block True names
    ((Rendering.state (.nativeHa qm) run).Plain py) (NativeHaState.samples py run.node qm run.now run.probes) := by
  have hhax : Block (Exposition.Plain run.node) NativeHaState.haxNames
      (∀ h, (run.probes .nativehaX).map (fun out => NativeHaState.parseNativehaX py out.text) = some h →
        NativeHaState.HaxPlain qm h) _ :=
    Block.elim fun h _ => block_hax qm h
  have hgroups : Block (Exposition.Plain run.node) NativeHaState.groupNames
      (∀ g, (run.probes .nativehaG).map (fun out => NativeHaState.parseNativehaG py out.text) = some g →
        NativeHaState.GroupsPlain g) _ :=
    Block.elim fun g _ => block_groups g
  have hread : ∀ {α : Type} (out : Option Output) (parse : Str → α) (P : α → Prop),
      (∀ x, out.map (fun out => parse out.text) = some x → P x) ↔ ∀ raw, out = some raw → P (parse raw.text) := by
    intro α out parse P
    cases out <;> simp
  have hall := (hhax.append hgroups rfl).congr (Q := (Collector.nativeHa qm).Plain py run) fun _ =>
    and_congr (hread _ _ _) (hread _ _ _)
  refine ⟨_, hall.stamped (c := .nativeHa qm) rfl fun hnone => ?_⟩
  have hnone : ∀ source ∈ [Source.nativehaX, .nativehaG], run.probes source = none := hnone
  have hx_none := hnone .nativehaX (by decide)
  have hg_none := hnone .nativehaG (by decide)
  rw [hx_none, hg_none]
  refine ⟨rfl, fun raw hraw => ?_, fun raw hraw => ?_⟩
  · rw [hx_none] at hraw
    cases hraw
  · rw [hg_none] at hraw
    cases hraw

end

namespace LogLifecycle

theorem count_lt (letter : Char) (out : Output) : (countExtents letter (splitlines out.text)) < 2 ^ 63 := by
  have hcount : countExtents letter (splitlines out.text) ≤ (splitlines out.text).length := List.countP_le_length
  have hlines := length_splitlines out.text
  have hout := out.length_lt
  omega

theorem reads_row {r : Row} {name : Str} {value : Value} :
    Reads ⟨name, [("qm".toList, r.qm), ("instance".toList, r.inst), ("role".toList, r.role)], value⟩ ↔
      (Exposition.Plain r.qm ∧ Exposition.Plain r.inst ∧ Exposition.Plain r.role) ∧ value.Fits := by
  simp [Reads]

theorem block_row (r : Row) (hactive : ∀ n, r.active = some n → n < 2 ^ 63)
    (hinactive : ∀ n, r.inactive = some n → n < 2 ^ 63) : ∃ names, Block True names (RowPlain r) (render r) := by
  have hdisk : Block True ["mqlab_log_disk_used_bytes".toList, "mqlab_log_disk_total_bytes".toList] _
      (r.disk.elim [] fun d =>
        [⟨"mqlab_log_disk_used_bytes".toList,
            [("qm".toList, r.qm), ("instance".toList, r.inst), ("role".toList, r.role)], .int d.usedBytes⟩,
          ⟨"mqlab_log_disk_total_bytes".toList,
            [("qm".toList, r.qm), ("instance".toList, r.inst), ("role".toList, r.role)], .int d.totalBytes⟩]) :=
    Block.elim fun d _ => (Block.nil.cons rfl).cons rfl
  have hcount : ∀ (name : Str) (o : Option ℕ), (∀ n, o = some n → n < 2 ^ 63) →
      (∀ n : ℕ, Block True [name]
        (Reads ⟨name, [("qm".toList, r.qm), ("instance".toList, r.inst), ("role".toList, r.role)], .int n⟩ ∧ True)
        [⟨name, [("qm".toList, r.qm), ("instance".toList, r.inst), ("role".toList, r.role)], .int n⟩]) →
      Block True [name] (∀ n, o = some n → Exposition.Plain r.qm ∧ Exposition.Plain r.inst ∧ Exposition.Plain r.role)
        (o.elim [] fun n =>
          [⟨name, [("qm".toList, r.qm), ("instance".toList, r.inst), ("role".toList, r.role)], .int n⟩]) := by
    intro name o hlt hone
    refine Block.elim fun n hn => (hone n).congr fun _ => ?_
    rw [and_true, reads_row]
    exact and_iff_left (fits_small (by rw [Int.natAbs_natCast]; exact hlt n hn))
  have hactive := hcount "mqlab_log_extents_active".toList r.active hactive fun n => Block.nil.cons rfl
  have hinactive := hcount "mqlab_log_extents_inactive".toList r.inactive hinactive fun n => Block.nil.cons rfl
  have hstale : Block True ["mqlab_log_sample_stale".toList]
      (Exposition.Plain r.qm ∧ Exposition.Plain r.inst ∧ Exposition.Plain r.role)
      [⟨"mqlab_log_sample_stale".toList,
        [("qm".toList, r.qm), ("instance".toList, r.inst), ("role".toList, r.role)], flag r.stale⟩] :=
    (Block.nil.cons rfl).congr fun _ => by
      rw [and_true, reads_row]
      exact and_iff_left (fits_flag _)
  have hall := ((hdisk.append hactive rfl).append hinactive rfl).append hstale
    rfl
  refine ⟨_, hall.congr fun _ => ?_⟩
  simp only [reads_row, fits_int, and_true]
  constructor
  · rintro ⟨⟨⟨hdisk, -⟩, -⟩, hqm, hinst, hrole⟩
    exact ⟨hqm, hinst, hrole, fun d hd => ⟨(hdisk d hd).1.2, (hdisk d hd).2.2⟩⟩
  · rintro ⟨hqm, hinst, hrole, hdisk⟩
    have hlabels : Exposition.Plain r.qm ∧ Exposition.Plain r.inst ∧ Exposition.Plain r.role := ⟨hqm, hinst, hrole⟩
    have hboth : ∀ d, r.disk = some d → (_ ∧ fits d.usedBytes.natAbs) ∧ _ ∧ fits d.totalBytes.natAbs :=
      fun d hd => ⟨⟨hlabels, (hdisk d hd).1⟩, hlabels, (hdisk d hd).2⟩
    exact ⟨⟨⟨hboth, fun _ _ => hlabels⟩, fun _ _ => hlabels⟩, hlabels⟩

theorem block_samples (py : Runtime) (inst qm : Str) (probes : LogProbes) : ∃ names,
    Block True names (RowPlain (row py inst qm probes)) (samples py inst qm probes) := by
  have hcount : ∀ (letter : Char) (n : ℕ),
      (probes.extents.map fun out => countExtents letter (splitlines out.text)) = some n → n < 2 ^ 63 := by
    intro letter n hn
    obtain ⟨out, -, rfl⟩ := Option.map_eq_some_iff.mp hn
    exact count_lt letter out
  exact block_row _ (hcount 'S') (hcount 'R')

end LogLifecycle

/-- **When a textfile is an exposition.** On every run that returns, the lines
read back as the samples they were written from and no series is there twice,
if and only if nothing that is shown has to be escaped and every integer that
was read fits a double. -/
theorem exposition_iff (py : Runtime) (r : Rendering) (l : List Sample) (shown : List Exposition.Sample)
    (hrun : r.samples py = some l) (hshown : l.mapM Sample.shown = some shown) : Valid shown ↔ r.Plain py := by
  obtain ⟨names, hblock⟩ : ∃ names, Block True names (r.Plain py) l := by
    cases r with
    | state c run =>
      cases c with
      | cluster role =>
        cases role with
        | cluster => exact block_cluster hrun
        | storage => exact block_storage hrun
      | rdqm qm => exact block_rdqm hrun
      | nativeHa qm =>
        obtain rfl := Option.some.inj hrun
        exact block_nativeHa py qm run
    | logLifecycle inst qm probes =>
      obtain rfl := Option.some.inj hrun
      exact LogLifecycle.block_samples py inst qm probes
  exact hblock.valid_iff hshown

/-- A storage node with a volume in sync. -/
def syncedRendering : Rendering := .state (.cluster .storage) (storageRun synced)

theorem synced_valid : ∃ l shown, syncedRendering.samples oneNode = some l ∧ l.mapM Sample.shown = some shown ∧
    Valid shown := by
  obtain ⟨shown, hshown⟩ : ∃ shown, (syncedRendering.samples oneNode).bind (·.mapM Sample.shown) = some shown :=
    Option.isSome_iff_exists.mp (by decide +kernel)
  obtain ⟨l, hl, hmap⟩ := Option.bind_eq_some_iff.mp hshown
  have hplain : ∀ d ∈ ClusterState.parseDrbd synced.text, ∀ r ∈ d.items, Exposition.Plain r.1 ∧ Exposition.Plain r.2.role ∧
      Exposition.Plain r.2.disk ∧ Exposition.Plain r.2.conn ∧ r.2.outOfSyncBytes = 0 := by decide +kernel
  refine ⟨l, shown, hl, hmap, (exposition_iff oneNode syncedRendering l shown hl hmap).mpr ⟨fun _ => ?_, fun drbd hread => ?_⟩⟩
  · show Exposition.Plain "stor-a1".toList
    decide +kernel
  · have hparse : (ClusterState.parseDrbd synced.text).map some = some (some drbd) := hread
    obtain ⟨d, hd, heq⟩ := Option.map_eq_some_iff.mp hparse
    obtain rfl := Option.some.inj heq
    intro r hr
    obtain ⟨hname, hrole, hdisk, hconn, hbytes⟩ := hplain d hd r hr
    rw [hbytes]
    exact ⟨hname, hrole, hdisk, hconn, fits_small (by decide)⟩

/-- A storage node with a quote in the name of a volume. -/
def quotedRendering : Rendering :=
  .state (.cluster .storage) (storageRun ⟨"r\"0 role:Primary\n".toList, by decide +kernel⟩)

theorem quoted_not_valid : ∃ l shown, quotedRendering.samples oneNode = some l ∧ l.mapM Sample.shown = some shown ∧
    ¬ Valid shown := by
  have hall : ((quotedRendering.samples oneNode).bind (·.mapM Sample.shown)).map
      (fun shown => decide (∀ s ∈ shown, readLine s.line = some s)) = some false := by decide +kernel
  obtain ⟨shown, hshown, hlines⟩ := Option.map_eq_some_iff.mp hall
  obtain ⟨l, hl, hmap⟩ := Option.bind_eq_some_iff.mp hshown
  exact ⟨l, shown, hl, hmap, fun hvalid => of_decide_eq_false hlines hvalid.1⟩

end Obs
end MqResiliency
