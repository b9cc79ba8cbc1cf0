/-
# The collectors

The three cluster-state collectors side by side (`Collector`), what a run of
one has (`Run`), and its textfile (`collect`). Over them, what their metrics
are about: the source whose reading a metric reports (`measures`), and the
sources that a metric is computed from (`derives`).
-/
import MqResiliency.Obs.NativeHaState
import MqResiliency.Obs.RdqmState

namespace MqResiliency
namespace Obs

open Py

/-- A collector, as it is started. -/
inductive Collector : Type where
  | cluster (role : ClusterState.Role)
  | rdqm (qm : Str)
  | nativeHa (qm : Str)

/-- A run: the node, the clock, and what the probes came to. -/
structure Run : Type where
  node : Str
  now : Clock
  probes : Probes

/-- What a collector probes. -/
def Collector.sources : Collector → List Source
  | cluster role => ClusterState.probeSet role
  | rdqm _ => [.rdqmstatus, .drbd, .crm]
  | nativeHa _ => [.nativehaX, .nativehaG]

/-- The samples of a run, `none` where it raises. -/
def samples (py : Runtime) (c : Collector) (run : Run) : Option (List Sample) :=
  match c with
  | .cluster role => ClusterState.samples py role run.node run.now run.probes
  | .rdqm qm => RdqmState.samples py run.node qm run.now run.probes
  | .nativeHa qm => some (NativeHaState.samples py run.node qm run.now run.probes)

/-- `collect`: the body of the textfile. -/
def collect (py : Runtime) (c : Collector) (run : Run) : Option Str := (samples py c run).bind body

/-! ### What the metrics are about -/

def stampName : Str := "cluster_state_last_write_timestamp".toList

def fenceName : Str := "cluster_fence_count".toList

/-- `cluster_drbd_*`. -/
def isDrbd (name : Str) : Bool := "cluster_drbd_".toList <+: name

def clusterMeasures (name : Str) : Source :=
  if name = fenceName then .stonith
  else if name = "cluster_iscsi_sessions".toList then .iscsi
  else if name = "cluster_daemon_up".toList then .daemons
  else if isDrbd name then .drbd
  else .crm

/-- What Pacemaker is asked, under the wrap of `rdqmadm`. -/
def isPacemaker (name : Str) : Bool :=
  "cluster_rdqm_pm_".toList <+: name ∨ name = "cluster_rdqm_failcount".toList ∨
    name = "cluster_rdqm_qm_startable".toList ∨ name = "cluster_rdqm_node_ready".toList

def rdqmMeasures (name : Str) : Source :=
  if isDrbd name then .drbd else if isPacemaker name then .crm else .rdqmstatus

/-- The metrics of the groups. -/
def isGroup (name : Str) : Bool := "cluster_nha_group_".toList <+: name ∨ name = "cluster_nha_connected".toList

def nativeHaMeasures (name : Str) : Source := if isGroup name then .nativehaG else .nativehaX

/-- The source whose reading a metric reports. -/
def measures : Collector → Str → Source
  | .cluster _ => clusterMeasures
  | .rdqm _ => rdqmMeasures
  | .nativeHa _ => nativeHaMeasures

/-- The sources that a metric is computed from: a fence count is one of the
nodes that the cluster has. -/
def derives (c : Collector) (name : Str) : List Source :=
  if name = stampName then []
  else if name = fenceName then [.crm, .stonith]
  else [measures c name]

/-! ### Names -/

/-- All samples have one of these names. -/
def Named (names : List Str) (l : List Sample) : Prop := ∀ s ∈ l, s.name ∈ names

section
variable {names : List Str} {l l' : List Sample}

theorem Named.append (h : Named names l) (h' : Named names l') : Named names (l ++ l') := by
  intro s hs
  rcases List.mem_append.mp hs with hs | hs
  · exact h s hs
  · exact h' s hs

theorem Named.flatMap {α : Type} {f : α → List Sample} (h : ∀ a, Named names (f a)) (as : List α) :
    Named names (as.flatMap f) := by
  intro s hs
  obtain ⟨a, -, ha⟩ := List.mem_flatMap.mp hs
  exact h a s ha

theorem Named.elim {α : Type} {f : α → List Sample} (h : ∀ a, Named names (f a)) (o : Option α) :
    Named names (o.elim [] f) := by
  cases o with
  | none => exact fun s hs => absurd hs List.not_mem_nil
  | some a => exact h a

theorem named_nil : Named names [] := fun _ hs => absurd hs List.not_mem_nil

theorem Named.cons {s : Sample} (hs : s.name ∈ names) (h : Named names l) : Named names (s :: l) := by
  intro t ht
  rcases List.mem_cons.mp ht with rfl | ht
  · exact hs
  · exact h t ht

end

theorem named_stamps (node : Str) (now : Clock) (fresh : List Source) : Named [stampName] (stamps node now fresh) := by
  intro s hs
  obtain ⟨source, -, rfl⟩ := List.mem_map.mp hs
  exact List.mem_singleton.mpr rfl

end Obs
end MqResiliency
