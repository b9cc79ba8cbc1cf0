/-
# Families of metrics

Each block of samples has names of its own, and each name reports one source:
the one whose text the block is rendered from. The fence counts are a block
apart. They are rendered for the nodes that `crm_mon` lists, and report the
fencing history.
-/
import MqResiliency.Obs.Collect

namespace MqResiliency
namespace Obs

open Py

namespace ClusterState

def healthNames : List Str :=
  ["cluster_quorate".toList, "cluster_node_online".toList, "cluster_node_unclean".toList,
    "cluster_resource_started".toList, "cluster_resource_owner".toList]

def drbdNames : List Str :=
  ["cluster_drbd_role".toList, "cluster_drbd_disk".toList, "cluster_drbd_conn".toList,
    "cluster_drbd_resync_pct".toList, "cluster_drbd_out_of_sync_bytes".toList]

def iscsiName : Str := "cluster_iscsi_sessions".toList

def daemonName : Str := "cluster_daemon_up".toList

theorem named_health (node : Str) (crm : Crm) : Named healthNames (healthSamples node crm) := by
  have hmember : ∀ m, Named healthNames (memberSamples node m) := by
    intro m
    exact Named.cons (by simp [healthNames]) (Named.cons (by simp [healthNames]) named_nil)
  have hresource : ∀ r, Named healthNames (resourceSamples node r) := by
    intro r
    refine Named.cons (by simp [healthNames]) ?_
    split
    · exact named_nil
    · split
      · exact named_nil
      · exact Named.cons (by simp [healthNames]) named_nil
  exact ((Named.flatMap hmember _).cons (by simp [healthNames])).append (Named.flatMap hresource _)

theorem named_fences (node : Str) (fences : Dict Str ℕ) (members : List Str) :
    Named [fenceName] (members.map (fenceSample node fences)) := by
  intro s hs
  obtain ⟨m, -, rfl⟩ := List.mem_map.mp hs
  exact List.mem_singleton.mpr rfl

theorem named_iscsi (node : Str) (sessions : Option ℕ) :
    Named [iscsiName] (sessions.elim [] fun n => [⟨"cluster_iscsi_sessions".toList, [nodeLabel node], .int n⟩]) :=
  .elim (fun _ => Named.cons (show iscsiName ∈ [iscsiName] from List.mem_singleton.mpr rfl) named_nil) _

theorem named_daemons (node : Str) (daemons : Dict Str Bool) : Named [daemonName] (daemonSamples node daemons) := by
  intro s hs
  obtain ⟨d, -, rfl⟩ := List.mem_map.mp hs
  exact List.mem_singleton.mpr rfl

theorem named_drbd (node : Str) (drbd : Dict Str Drbd) : Named drbdNames (drbdSamples node drbd) := by
  refine Named.flatMap (fun r s hs => ?_) _
  simp only [drbdResourceSamples, List.mem_cons, List.not_mem_nil, or_false] at hs
  rcases hs with rfl | rfl | rfl | rfl | rfl <;> simp [drbdNames]

end ClusterState

namespace RdqmState

def statusNames : List Str :=
  ["cluster_quorate".toList, "cluster_rdqm_ha_status_ok".toList, "cluster_rdqm_ha_status".toList,
    "cluster_rdqm_role".toList, "cluster_rdqm_role_code".toList, "cluster_rdqm_qm_running".toList,
    "cluster_node_online".toList, "cluster_rdqm_member_status".toList, "cluster_rdqm_floating_ip".toList,
    "cluster_rdqm_location".toList, "cluster_resource_owner".toList, "cluster_rdqm_dr_role".toList,
    "cluster_rdqm_dr_role_code".toList, "cluster_rdqm_dr_status".toList, "cluster_rdqm_dr_status_ok".toList]

def pmNames : List Str :=
  ["cluster_rdqm_pm_online".toList, "cluster_rdqm_pm_state".toList, "cluster_rdqm_failcount".toList,
    "cluster_rdqm_qm_startable".toList, "cluster_rdqm_node_ready".toList]

theorem name_location (node kind location : Str) : (locationSample node kind location).name ∈ statusNames := by
  show "cluster_rdqm_location".toList ∈ statusNames
  decide +kernel

theorem named_status (node qm : Str) (st : Status) : Named statusNames (statusSamples node qm st) := by
  have hmember : ∀ m, Named statusNames (memberSamples node m) := by
    intro m
    exact Named.cons (by simp [statusNames]) (Named.cons (by simp [statusNames]) named_nil)
  have hrole : Named statusNames (roleSamples node st) := by
    refine (Named.elim (fun role => ?_) _).append ?_
    · exact Named.cons (by simp [statusNames]) named_nil
    · exact Named.cons (by simp [statusNames]) (Named.cons (by simp [statusNames]) named_nil)
  have hip : Named statusNames (floatingIpSamples node st) := by
    unfold floatingIpSamples
    split
    · exact Named.elim (fun ip => Named.cons (by simp [statusNames]) named_nil) _
    · exact named_nil
  have hcurrent : Named statusNames (currentSamples node qm st) := by
    refine Named.elim (fun location => Named.cons (name_location node _ location) ?_) _
    split
    · exact Named.cons (by simp [statusNames]) named_nil
    · exact named_nil
  have hpreferred : Named statusNames (preferredSamples node st) :=
    Named.elim (fun location => Named.cons (name_location node _ location) named_nil) _
  have hdr : Named statusNames (drRoleSamples node st) :=
    Named.elim (fun role => Named.cons (by simp [statusNames]) (Named.cons (by simp [statusNames]) named_nil)) _
  have hdrStatus : Named statusNames (drStatusSamples node st) := by
    refine Named.elim (fun status => ?_) _
    split
    · exact named_nil
    · exact Named.cons (by simp [statusNames]) (Named.cons (by simp [statusNames]) named_nil)
  have hfirst : Named statusNames (statusSamples node qm st |>.take 3) := by
    exact Named.cons (by simp [statusNames]) (Named.cons (by simp [statusNames])
      (Named.cons (by simp [statusNames]) named_nil))
  exact ((((((hfirst.append hrole).append (Named.flatMap hmember _)).append hip).append hcurrent).append
    hpreferred).append hdr).append hdrStatus

theorem named_pm (node base : Str) (crm : Crm) : Named pmNames (crmSamples node base crm) := by
  refine Named.flatMap (fun m => ?_) _
  have hstate : Named pmNames ((rdqmPmResources base).map fun res =>
      (⟨"cluster_rdqm_pm_state".toList, [nodeLabel node, ("member".toList, m.1)] ++ [("resource".toList, res)],
        .int (pmCode ((crm.roles.get? res).bind (·.get? m.1)))⟩ : Sample)) := by
    intro s hs
    obtain ⟨res, -, rfl⟩ := List.mem_map.mp hs
    simp [pmNames]
  refine (hstate.cons (by simp [pmNames])).append ?_
  exact Named.cons (by simp [pmNames]) (Named.cons (by simp [pmNames]) (Named.cons (by simp [pmNames]) named_nil))

end RdqmState

namespace NativeHaState

def haxNames : List Str :=
  ["cluster_quorate".toList, "cluster_nha_quorum".toList, "cluster_node_online".toList, "cluster_nha_role".toList,
    "cluster_nha_role_code".toList, "cluster_nha_insync".toList, "cluster_nha_hastatus".toList,
    "cluster_nha_hastatus_ok".toList, "cluster_resource_owner".toList]

def groupNames : List Str :=
  ["cluster_nha_group_role".toList, "cluster_nha_group_status".toList, "cluster_nha_connected".toList,
    "cluster_nha_group_insync".toList, "cluster_nha_group_backlog".toList]

theorem named_hax (node qm : Str) (h : Hax) : Named haxNames (haxSamples node qm h) := by
  have hquorum : Named haxNames (quorumSamples node h) := by
    unfold quorumSamples
    split
    · exact Named.cons (by simp [haxNames]) (Named.cons (by simp [haxNames]) named_nil)
    · exact named_nil
  refine hquorum.append (Named.flatMap (fun m => Named.append (fun s hs => ?_) ?_) _)
  · simp only [List.mem_cons, List.not_mem_nil, or_false] at hs
    rcases hs with rfl | rfl | rfl | rfl | rfl | rfl <;> simp [haxNames]
  · split
    · exact Named.cons (by simp [haxNames]) named_nil
    · exact named_nil

theorem named_groups (node : Str) (grp : Dict Str Group) :
    Named groupNames (grp.items.flatMap (groupSamples node)) := by
  refine Named.flatMap (fun g => ?_) _
  have hfirst : Named groupNames (groupSamples node g |>.take 2) :=
    Named.cons (by simp [groupNames]) (Named.cons (by simp [groupNames]) named_nil)
  refine ((hfirst.append ?_).append ?_).append ?_
  · exact Named.elim (fun b => Named.cons (by simp [groupNames]) named_nil) _
  · exact Named.elim (fun b => Named.cons (by simp [groupNames]) named_nil) _
  · exact Named.elim (fun b => Named.cons (by simp [groupNames]) named_nil) _

end NativeHaState

/-! ### What the families report -/

theorem forall_names {names : List Str} {P : Str → Prop} [DecidablePred P] (h : (names.all fun n => P n) = true) :
    ∀ n ∈ names, P n := by
  simpa using h

theorem measures_health : ∀ n ∈ ClusterState.healthNames, n ≠ stampName ∧ clusterMeasures n = .crm := forall_names rfl

theorem measures_fence : ∀ n ∈ [fenceName], n ≠ stampName ∧ clusterMeasures n = .stonith := forall_names rfl

theorem measures_iscsi : ∀ n ∈ [ClusterState.iscsiName], n ≠ stampName ∧ clusterMeasures n = .iscsi := forall_names rfl

theorem measures_daemons : ∀ n ∈ [ClusterState.daemonName], n ≠ stampName ∧ clusterMeasures n = .daemons := forall_names rfl

theorem measures_drbd : ∀ n ∈ ClusterState.drbdNames, n ≠ stampName ∧ clusterMeasures n = .drbd := forall_names rfl

theorem measures_rdqmDrbd : ∀ n ∈ ClusterState.drbdNames, n ≠ stampName ∧ rdqmMeasures n = .drbd := forall_names rfl

theorem measures_status : ∀ n ∈ RdqmState.statusNames, n ≠ stampName ∧ rdqmMeasures n = .rdqmstatus := forall_names rfl

theorem measures_pm : ∀ n ∈ RdqmState.pmNames, n ≠ stampName ∧ rdqmMeasures n = .crm := forall_names rfl

theorem measures_hax : ∀ n ∈ NativeHaState.haxNames, n ≠ stampName ∧ nativeHaMeasures n = .nativehaX := forall_names rfl

theorem measures_group : ∀ n ∈ NativeHaState.groupNames, n ≠ stampName ∧ nativeHaMeasures n = .nativehaG := forall_names rfl

end Obs
end MqResiliency
