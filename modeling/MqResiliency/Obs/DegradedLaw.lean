/-
# What one reading decides

Two runs that differ in what one source printed (`Differ`) show the same of
all others: a metric that is not computed from the source has the same samples
in both (`others_eq`). A reading therefore costs at most the metrics that are
computed from it, unless it does not convert and costs the whole textfile
(`confined_iff`).
-/
import MqResiliency.Obs.RaiseLaw

namespace MqResiliency
namespace Obs

open Py

/-- Two runs that differ only in the text of one source. -/
structure Differ (source : Source) (run run' : Run) : Prop where
  node : run'.node = run.node
  now : run'.now = run.now
  elsewhere : ∀ s, s ≠ source → run'.probes s = run.probes s
  answers : (run'.probes source).isSome = (run.probes source).isSome

/-- The samples that are not computed from a source. -/
def others (c : Collector) (source : Source) (l : List Sample) : List Sample :=
  l.filter fun s => source ∉ derives c s.name

/-- Both runs return a textfile, and what differs between the two is computed
from the source. -/
def Confined (py : Runtime) (c : Collector) (source : Source) (run run' : Run) : Prop :=
  (collect py c run).isSome ∧ (collect py c run').isSome ∧
    ∃ l l', samples py c run = some l ∧ samples py c run' = some l' ∧ others c source l = others c source l'

/-! ### What the families are computed from -/

theorem derives_of_measures {c : Collector} {names : List Str} {source : Source}
    (h : ∀ n ∈ names, n ≠ stampName ∧ measures c n = source) (hfence : ∀ n ∈ names, n ≠ fenceName) :
    ∀ n ∈ names, derives c n = [source] := by
  intro n hn
  rw [derives, if_neg (h n hn).1, if_neg (hfence n hn), (h n hn).2]

section
variable {role : ClusterState.Role} {qm : Str}

theorem derives_fence : ∀ n ∈ [fenceName], derives (.cluster role) n = [.crm, .stonith] := by
  intro n hn
  rw [derives, if_neg (measures_fence n hn).1, if_pos (List.mem_singleton.mp hn)]

theorem derives_health : ∀ n ∈ ClusterState.healthNames, derives (.cluster role) n = [.crm] :=
  derives_of_measures measures_health (forall_names rfl)

theorem derives_iscsi : ∀ n ∈ [ClusterState.iscsiName], derives (.cluster role) n = [.iscsi] :=
  derives_of_measures measures_iscsi (forall_names rfl)

theorem derives_daemons : ∀ n ∈ [ClusterState.daemonName], derives (.cluster role) n = [.daemons] :=
  derives_of_measures measures_daemons (forall_names rfl)

theorem derives_drbd : ∀ n ∈ ClusterState.drbdNames, derives (.cluster role) n = [.drbd] :=
  derives_of_measures measures_drbd (forall_names rfl)

theorem derives_rdqmDrbd : ∀ n ∈ ClusterState.drbdNames, derives (.rdqm qm) n = [.drbd] :=
  derives_of_measures measures_rdqmDrbd (forall_names rfl)

theorem derives_status : ∀ n ∈ RdqmState.statusNames, derives (.rdqm qm) n = [.rdqmstatus] :=
  derives_of_measures measures_status (forall_names rfl)

theorem derives_pm : ∀ n ∈ RdqmState.pmNames, derives (.rdqm qm) n = [.crm] :=
  derives_of_measures measures_pm (forall_names rfl)

theorem derives_hax : ∀ n ∈ NativeHaState.haxNames, derives (.nativeHa qm) n = [.nativehaX] :=
  derives_of_measures measures_hax (forall_names rfl)

theorem derives_group : ∀ n ∈ NativeHaState.groupNames, derives (.nativeHa qm) n = [.nativehaG] :=
  derives_of_measures measures_group (forall_names rfl)

end

/-! ### Blocks -/

section
variable {c : Collector} {source : Source} {names : List Str} {l l' k k' : List Sample}

/-- A block whose metrics are computed from the source does not count. -/
theorem others_eq_nil (hnamed : Named names l) (h : ∀ n ∈ names, source ∈ derives c n) : others c source l = [] := by
  rw [others, List.filter_eq_nil_iff]
  intro s hs
  simpa using h s.name (hnamed s hs)

/-- A block that only some sources decide. -/
theorem others_block {sources : List Source} (hnamed : Named names l) (hnamed' : Named names l')
    (h : ∀ n ∈ names, derives c n = sources) (heq : source ∉ sources → l = l') :
    others c source l = others c source l' := by
  by_cases hsource : source ∈ sources
  · have hderives : ∀ n ∈ names, source ∈ derives c n := fun n hn => (h n hn).symm ▸ hsource
    rw [others_eq_nil hnamed hderives, others_eq_nil hnamed' hderives]
  · rw [heq hsource]

theorem others_append (h : others c source l = others c source l') (h' : others c source k = others c source k') :
    others c source (l ++ k) = others c source (l' ++ k') := by
  unfold others at h h' ⊢
  rw [List.filter_append, List.filter_append, h, h']

end

section
variable {py : Runtime} {source : Source} {node : Str} {now : Clock} {probes probes' : Probes} {l l' : List Sample}

/-- The stamps say who answered, not what. -/
theorem stamps_eq (h : Differ source ⟨node, now, probes⟩ ⟨node, now, probes'⟩) (order : List Source) :
    stamps node now (freshSources probes order) = stamps node now (freshSources probes' order) := by
  have hanswers : ∀ s, (probes s).isSome = (probes' s).isSome := by
    intro s
    by_cases hs : s = source
    · rw [hs]
      exact h.answers.symm
    · rw [show probes' s = probes s from h.elsewhere s hs]
  have hfresh : freshSources probes order = freshSources probes' order := List.filter_congr fun s _ => hanswers s
  rw [hfresh]

theorem whenRead_eq {α : Type} {parse : Str → Option α} {a a' : Option α} {s : Source}
    (h : Differ source ⟨node, now, probes⟩ ⟨node, now, probes'⟩) (hs : s ≠ source)
    (ha : whenRead (probes s) parse = some a) (ha' : whenRead (probes' s) parse = some a') : a = a' := by
  have hprobe : probes' s = probes s := h.elsewhere s hs
  rw [hprobe, ha] at ha'
  exact Option.some.inj ha'

theorem others_cluster (h : Differ source ⟨node, now, probes⟩ ⟨node, now, probes'⟩)
    (hl : samples py (.cluster .cluster) ⟨node, now, probes⟩ = some l)
    (hl' : samples py (.cluster .cluster) ⟨node, now, probes'⟩ = some l') :
    others (.cluster .cluster) source l = others (.cluster .cluster) source l' := by
  have hrun : ∀ probes, samples py (.cluster .cluster) ⟨node, now, probes⟩ = _ :=
    ClusterState.samples_cluster py node now
  rw [hrun] at hl hl'
  obtain ⟨crm, hcrm, rfl⟩ := Option.map_eq_some_iff.mp hl
  obtain ⟨crm', hcrm', rfl⟩ := Option.map_eq_some_iff.mp hl'
  have hsplit : ∀ (crm : Option ClusterState.Crm) (fences : Option (Dict Str ℕ)),
      (crm.elim [] fun crm => ClusterState.crmSamples node crm fences) =
        (crm.elim [] (ClusterState.healthSamples node)) ++
          crm.elim [] fun crm => crm.nodes.keys.map (ClusterState.fenceSample node (fences.getD .empty)) := by
    intro crm fences
    cases crm <;> rfl
  have hcrm_eq : source ≠ .crm → crm = crm' := fun hs => whenRead_eq h (Ne.symm hs) hcrm hcrm'
  have hprobe : ∀ s, source ≠ s → probes' s = probes s := fun s hs => h.elsewhere s (Ne.symm hs)
  unfold ClusterState.render
  refine others_append (others_append (others_append (others_append ?_ ?_) ?_) rfl)
    (congrArg _ (stamps_eq h [.crm, .stonith, .iscsi, .daemons]))
  · rw [hsplit, hsplit]
    refine others_append (others_block (.elim (ClusterState.named_health node) _)
      (.elim (ClusterState.named_health node) _) derives_health fun hs => ?_)
      (others_block (.elim (fun crm => ClusterState.named_fences node _ _) _)
        (.elim (fun crm => ClusterState.named_fences node _ _) _) derives_fence fun hs => ?_)
    · rw [hcrm_eq (by simpa using hs)]
    · have hsources : source ≠ .crm ∧ source ≠ .stonith := by simpa using hs
      rw [hcrm_eq hsources.1, hprobe .stonith hsources.2]
  · refine others_block (ClusterState.named_iscsi node _) (ClusterState.named_iscsi node _) derives_iscsi fun hs => ?_
    rw [hprobe .iscsi (by simpa using hs)]
  · refine others_block (ClusterState.named_daemons node _) (ClusterState.named_daemons node _) derives_daemons
      fun hs => ?_
    rw [hprobe .daemons (by simpa using hs)]

theorem others_storage (h : Differ source ⟨node, now, probes⟩ ⟨node, now, probes'⟩)
    (hl : samples py (.cluster .storage) ⟨node, now, probes⟩ = some l)
    (hl' : samples py (.cluster .storage) ⟨node, now, probes'⟩ = some l') :
    others (.cluster .storage) source l = others (.cluster .storage) source l' := by
  have hrun : ∀ probes, samples py (.cluster .storage) ⟨node, now, probes⟩ = _ :=
    ClusterState.samples_storage py node now
  rw [hrun] at hl hl'
  obtain ⟨drbd, hdrbd, rfl⟩ := Option.map_eq_some_iff.mp hl
  obtain ⟨drbd', hdrbd', rfl⟩ := Option.map_eq_some_iff.mp hl'
  unfold ClusterState.render
  refine others_append (others_append (others_append rfl ?_) ?_) (congrArg _ (stamps_eq h [.drbd, .daemons]))
  · refine others_block (ClusterState.named_daemons node _) (ClusterState.named_daemons node _) derives_daemons
      fun hs => ?_
    rw [show probes' .daemons = probes .daemons from h.elsewhere _ (Ne.symm (by simpa using hs))]
  · refine others_block (.elim (ClusterState.named_drbd node) _) (.elim (ClusterState.named_drbd node) _) derives_drbd
      fun hs => ?_
    rw [whenRead_eq h (Ne.symm (by simpa using hs)) hdrbd hdrbd']

theorem others_rdqm {qm : Str} (h : Differ source ⟨node, now, probes⟩ ⟨node, now, probes'⟩)
    (hl : samples py (.rdqm qm) ⟨node, now, probes⟩ = some l)
    (hl' : samples py (.rdqm qm) ⟨node, now, probes'⟩ = some l') :
    others (.rdqm qm) source l = others (.rdqm qm) source l' := by
  obtain ⟨base, hbase, hl⟩ := Option.bind_eq_some_iff.mp hl
  obtain ⟨status, hstatus, hl⟩ := Option.bind_eq_some_iff.mp hl
  obtain ⟨drbd, hdrbd, hl⟩ := Option.bind_eq_some_iff.mp hl
  obtain ⟨crm, hcrm, hl⟩ := Option.bind_eq_some_iff.mp hl
  obtain ⟨base', hbase', hl'⟩ := Option.bind_eq_some_iff.mp hl'
  obtain ⟨status', hstatus', hl'⟩ := Option.bind_eq_some_iff.mp hl'
  obtain ⟨drbd', hdrbd', hl'⟩ := Option.bind_eq_some_iff.mp hl'
  obtain ⟨crm', hcrm', hl'⟩ := Option.bind_eq_some_iff.mp hl'
  obtain rfl := Option.some.inj hl
  obtain rfl := Option.some.inj hl'
  obtain rfl : base = base' := Option.some.inj (hbase.symm.trans hbase')
  unfold RdqmState.render
  refine others_append (others_append (others_append ?_ ?_) ?_) (congrArg _ (stamps_eq h [.rdqmstatus, .drbd, .crm]))
  · refine others_block (.elim (RdqmState.named_status node qm) _) (.elim (RdqmState.named_status node qm) _)
      derives_status fun hs => ?_
    rw [whenRead_eq h (Ne.symm (by simpa using hs)) hstatus hstatus']
  · refine others_block (.elim (ClusterState.named_drbd node) _) (.elim (ClusterState.named_drbd node) _)
      derives_rdqmDrbd fun hs => ?_
    rw [whenRead_eq h (Ne.symm (by simpa using hs)) hdrbd hdrbd']
  · refine others_block (.elim (RdqmState.named_pm node base) _) (.elim (RdqmState.named_pm node base) _)
      derives_pm fun hs => ?_
    rw [whenRead_eq h (Ne.symm (by simpa using hs)) hcrm hcrm']

theorem others_nativeHa {qm : Str} (h : Differ source ⟨node, now, probes⟩ ⟨node, now, probes'⟩) :
    others (.nativeHa qm) source (NativeHaState.samples py node qm now probes) =
      others (.nativeHa qm) source (NativeHaState.samples py node qm now probes') := by
  have hprobe : ∀ s, source ≠ s → probes' s = probes s := fun s hs => h.elsewhere s (Ne.symm hs)
  unfold NativeHaState.samples NativeHaState.render
  refine others_append (others_append ?_ ?_) (congrArg _ (stamps_eq h [.nativehaX, .nativehaG]))
  · refine others_block (.elim (NativeHaState.named_hax node qm) _) (.elim (NativeHaState.named_hax node qm) _)
      derives_hax fun hs => ?_
    rw [hprobe .nativehaX (by simpa using hs)]
  · refine others_block (.elim (NativeHaState.named_groups node) _) (.elim (NativeHaState.named_groups node) _)
      derives_group fun hs => ?_
    rw [hprobe .nativehaG (by simpa using hs)]

end

/-- What one source printed shows in no other metric. -/
theorem others_eq {py : Runtime} {c : Collector} {source : Source} {run run' : Run} (h : Differ source run run')
    {l l' : List Sample} (hl : samples py c run = some l) (hl' : samples py c run' = some l') :
    others c source l = others c source l' := by
  obtain ⟨node, now, probes⟩ := run
  obtain ⟨node', now', probes'⟩ := run'
  obtain rfl : node' = node := h.node
  obtain rfl : now' = now := h.now
  cases c with
  | cluster role =>
    cases role with
    | cluster => exact others_cluster h hl hl'
    | storage => exact others_storage h hl hl'
  | rdqm qm => exact others_rdqm h hl hl'
  | nativeHa qm =>
    obtain rfl := Option.some.inj hl
    obtain rfl := Option.some.inj hl'
    exact others_nativeHa h

/-- **One bad reading.** Of two runs that differ in the text of one source,
both return a textfile and agree on all that is not computed from the source,
just if what was read converts in both. -/
theorem confined_iff (py : Runtime) (c : Collector) (source : Source) (run run' : Run) (h : Differ source run run') :
    Confined py c source run run' ↔ Readable py c run ∧ Readable py c run' := by
  constructor
  · rintro ⟨hrun, hrun', -⟩
    exact ⟨(isSome_collect py c run).mp hrun, (isSome_collect py c run').mp hrun'⟩
  · rintro ⟨hread, hread'⟩
    obtain ⟨l, hl⟩ := Option.isSome_iff_exists.mp ((isSome_samples py c run).mpr hread)
    obtain ⟨l', hl'⟩ := Option.isSome_iff_exists.mp ((isSome_samples py c run').mpr hread')
    exact ⟨(isSome_collect py c run).mpr hread, (isSome_collect py c run').mpr hread', l, l', hl, hl',
      others_eq h hl hl'⟩

/-- A run of a storage node on which only `drbdsetup status` answers. -/
def storageRun (status : Output) : Run where
  node := "stor-a1".toList
  now := newYear
  probes source := if source = .drbd then some status else none

def syncing : Output := ⟨"r0 role:Secondary\n  disk:Inconsistent\n  done:42.50\n".toList, by decide +kernel⟩

def synced : Output := ⟨"r0 role:Secondary\n  disk:UpToDate\n".toList, by decide +kernel⟩

/-- A volume whose progress is no number. -/
def stalled : Output := ⟨"r0 role:Secondary\n  disk:Inconsistent\n  done:n/a\n".toList, by decide +kernel⟩

theorem differ_storageRun (status status' : Output) : Differ .drbd (storageRun status) (storageRun status') where
  node := rfl
  now := rfl
  elsewhere _ hs := (if_neg hs).trans (if_neg hs).symm
  answers := rfl

theorem syncing_confined : Confined oneNode (.cluster .storage) .drbd (storageRun synced) (storageRun syncing) := by
  have hread : ∀ status : Output, (ClusterState.parseDrbd status.text).isSome →
      Readable oneNode (.cluster .storage) (storageRun status) := by
    intro status hparse raw hraw
    obtain rfl := Option.some.inj (show some status = some raw from hraw)
    exact (isSome_parseDrbd _).mp hparse
  exact (confined_iff oneNode (.cluster .storage) .drbd (storageRun synced) (storageRun syncing)
    (differ_storageRun synced syncing)).mpr ⟨hread _ (by decide +kernel), hread _ (by decide +kernel)⟩

theorem stalled_blanks_node : Differ .drbd (storageRun synced) (storageRun stalled) ∧
    ¬ Confined oneNode (.cluster .storage) .drbd (storageRun synced) (storageRun stalled) := by
  refine ⟨differ_storageRun synced stalled, fun h => ?_⟩
  have hraises : collect oneNode (.cluster .storage) (storageRun stalled) = none := by decide +kernel
  have hreturns := h.2.1
  rw [hraises] at hreturns
  cases hreturns

end Obs
end MqResiliency
