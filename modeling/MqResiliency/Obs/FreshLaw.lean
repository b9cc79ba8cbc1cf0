/-
# What a failed probe leaves

A block of samples is rendered only from what its source's probe printed. The
fence counts are the exception: where the fencing history could not be read,
every node that `crm_mon` lists has the count 0. Everything else that is shown
was read (`honest_iff`).
-/
import MqResiliency.Obs.Families

namespace MqResiliency
namespace Obs

open Py

/-! ### What a run reads -/

namespace ClusterState

/-- What the probes of a cluster node come to. -/
theorem samples_cluster (py : Runtime) (node : Str) (now : Clock) (probes : Probes) :
    samples py .cluster node now probes = (whenRead (probes .crm) (parseCrm py)).map fun crm =>
      render node now
        ⟨crm, (probes .stonith).map fun out => parseStonith out.text,
          (probes .iscsi).map fun out => parseIscsi out.text, none,
          (probes .daemons).elim .empty fun out => parseDaemons out.text (daemonUnits .cluster),
          freshSources probes [.crm, .stonith, .iscsi, .daemons]⟩ := by
  have hrest : ∀ r : Readings, r.stonith = none → r.iscsi = none → r.daemons = .empty →
      [Source.stonith, .iscsi, .daemons].foldlM (Readings.probe py .cluster probes) r =
        some ⟨r.crm, (probes .stonith).map fun out => parseStonith out.text,
          (probes .iscsi).map fun out => parseIscsi out.text, r.drbd,
          (probes .daemons).elim .empty fun out => parseDaemons out.text (daemonUnits .cluster),
          r.fresh ++ freshSources probes [.stonith, .iscsi, .daemons]⟩ := by
    rintro ⟨crm, stonith, iscsi, drbd, daemons, fresh⟩ rfl rfl rfl
    cases hstonith : probes .stonith <;> cases hiscsi : probes .iscsi <;> cases hdaemons : probes .daemons <;>
      simp [Readings.probe, Readings.parse, freshSources, hstonith, hiscsi, hdaemons]
  unfold samples probeSet
  rw [List.foldlM_cons]
  cases hcrm : probes .crm with
  | none =>
    have hprobe : Readings.probe py .cluster probes ⟨none, none, none, none, .empty, []⟩ .crm =
        some ⟨none, none, none, none, .empty, []⟩ := by simp [Readings.probe, hcrm]
    rw [hprobe, Option.bind_eq_bind, Option.bind_some, hrest _ rfl rfl rfl]
    simp [whenRead, freshSources, hcrm]
  | some raw =>
    cases hparse : parseCrm py raw.text with
    | none =>
      have hprobe : Readings.probe py .cluster probes ⟨none, none, none, none, .empty, []⟩ .crm = none := by
        simp [Readings.probe, Readings.parse, hcrm, hparse]
      rw [hprobe]
      simp [whenRead, hparse]
    | some crm =>
      have hprobe : Readings.probe py .cluster probes ⟨none, none, none, none, .empty, []⟩ .crm =
          some ⟨some crm, none, none, none, .empty, [.crm]⟩ := by
        simp [Readings.probe, Readings.parse, hcrm, hparse]
      rw [hprobe, Option.bind_eq_bind, Option.bind_some, hrest _ rfl rfl rfl]
      simp [whenRead, freshSources, hcrm, hparse]

/-- What the probes of a storage node come to. -/
theorem samples_storage (py : Runtime) (node : Str) (now : Clock) (probes : Probes) :
    samples py .storage node now probes = (whenRead (probes .drbd) parseDrbd).map fun drbd =>
      render node now
        ⟨none, none, none, drbd,
          (probes .daemons).elim .empty fun out => parseDaemons out.text (daemonUnits .storage),
          freshSources probes [.drbd, .daemons]⟩ := by
  unfold samples probeSet
  cases hdrbd : probes .drbd with
  | none =>
    cases hdaemons : probes .daemons with
    | none => simp [Readings.probe, whenRead, freshSources, hdrbd, hdaemons]
    | some daemons => simp [Readings.probe, Readings.parse, whenRead, freshSources, hdrbd, hdaemons]
  | some drbd =>
    cases hparse : parseDrbd drbd.text with
    | none => simp [Readings.probe, Readings.parse, whenRead, hdrbd, hparse]
    | some d =>
      cases hdaemons : probes .daemons with
      | none => simp [Readings.probe, Readings.parse, whenRead, freshSources, hdrbd, hdaemons, hparse]
      | some daemons => simp [Readings.probe, Readings.parse, whenRead, freshSources, hdrbd, hdaemons, hparse]

end ClusterState

/-! ### Honest samples -/

/-- A source is stamped. -/
def Stamped (l : List Sample) (source : Source) : Prop :=
  ∃ s ∈ l, s.name = stampName ∧ ("source".toList, source.name) ∈ s.labels

/-- What is shown of a source was read, and the sources that are stamped are
those that were read. -/
def Honest (c : Collector) (run : Run) (l : List Sample) : Prop :=
  (∀ s ∈ l, s.name ≠ stampName → (run.probes (measures c s.name)).isSome) ∧
    ∀ source, Stamped l source ↔ source ∈ c.sources ∧ (run.probes source).isSome

/-- Nodes are read, and the fencing history is not. -/
def MasksFencing (py : Runtime) (c : Collector) (run : Run) : Prop :=
  c = .cluster .cluster ∧ run.probes .stonith = none ∧
    ∃ raw root, run.probes .crm = some raw ∧ py.fromstring raw.text = some root ∧
      ClusterState.nodeElements root ≠ []

theorem Source.name_inj {a b : Source} (h : a.name = b.name) : a = b := by
  revert h
  cases a <;> cases b <;> decide +kernel

/-- A block whose names report a source, and which is there only if the source
was read. -/
theorem honest_block {c : Collector} {run : Run} {names : List Str} {l : List Sample} (source : Source)
    (hnames : ∀ n ∈ names, n ≠ stampName ∧ measures c n = source) (hnamed : Named names l)
    (hread : l ≠ [] → (run.probes source).isSome) :
    ∀ s ∈ l, s.name ≠ stampName ∧ (run.probes (measures c s.name)).isSome := by
  intro s hs
  obtain ⟨hne, hsource⟩ := hnames s.name (hnamed s hs)
  rw [hsource]
  exact ⟨hne, hread (List.ne_nil_of_mem hs)⟩

/-- Blocks of what was read, and the stamps. -/
theorem honest_of_blocks {c : Collector} {run : Run} {l : List Sample}
    (h : ∀ s ∈ l, s.name ≠ stampName ∧ (run.probes (measures c s.name)).isSome) :
    Honest c run (l ++ stamps run.node run.now (freshSources run.probes c.sources)) := by
  have hstamp : ∀ s ∈ stamps run.node run.now (freshSources run.probes c.sources), s.name = stampName := fun s hs =>
    List.mem_singleton.mp (named_stamps _ _ _ s hs)
  refine ⟨fun s hs hne => ?_, fun source => ⟨?_, ?_⟩⟩
  · rcases List.mem_append.mp hs with hs | hs
    · exact (h s hs).2
    · exact absurd (hstamp s hs) hne
  · rintro ⟨s, hs, hname, hlabel⟩
    rcases List.mem_append.mp hs with hs | hs
    · exact absurd hname (h s hs).1
    · obtain ⟨fresh, hfresh, rfl⟩ := List.mem_map.mp hs
      have hsource : source.name = fresh.name := by
        have hkey : "source".toList ≠ "node".toList := by decide
        simpa [nodeLabel, hkey] using hlabel
      obtain rfl := Source.name_inj hsource
      simpa [freshSources] using hfresh
  · intro hsource
    refine ⟨_, List.mem_append_right _ (List.mem_map.mpr ⟨source, ?_, rfl⟩), rfl, by simp⟩
    simpa [freshSources] using hsource

section
variable {py : Runtime} {run : Run}

/-- What is parsed was read. -/
theorem isSome_of_whenRead {α : Type} {out : Option Output} {parse : Str → Option α} {a : α}
    (h : whenRead out parse = some (some a)) : ∃ raw, out = some raw ∧ parse raw.text = some a := by
  cases out with
  | none => cases h
  | some raw => exact ⟨raw, rfl, by simpa [whenRead] using h⟩

theorem honest_cluster (hread : ¬ MasksFencing py (.cluster .cluster) run) {l : List Sample}
    (h : samples py (.cluster .cluster) run = some l) : Honest (.cluster .cluster) run l := by
  have hrun : samples py (.cluster .cluster) run = _ := ClusterState.samples_cluster py run.node run.now run.probes
  rw [hrun] at h
  obtain ⟨crm, hcrm, rfl⟩ := Option.map_eq_some_iff.mp h
  refine honest_of_blocks fun s hs => ?_
  obtain (((hs | hs) | hs) | hs) : (((s ∈ crm.elim [] fun crm => ClusterState.crmSamples run.node crm _) ∨ s ∈ _) ∨
      s ∈ ClusterState.daemonSamples run.node _) ∨ s ∈ (none : Option (Dict Str ClusterState.Drbd)).elim [] _ := by
    simpa only [List.mem_append] using hs
  · cases crm with
    | none => exact absurd hs List.not_mem_nil
    | some crm =>
      obtain ⟨raw, hraw, hparse⟩ := isSome_of_whenRead hcrm
      rcases List.mem_append.mp hs with hs | hs
      · exact honest_block .crm measures_health (ClusterState.named_health run.node crm)
          (fun _ => by simp [hraw]) s hs
      · refine honest_block .stonith measures_fence (ClusterState.named_fences run.node _ _)
          (fun hne => ?_) s hs
        by_contra hstonith
        obtain ⟨root, hroot, rfl⟩ := Option.map_eq_some_iff.mp hparse
        refine hread ⟨rfl, by simpa using hstonith, raw, root, hraw, hroot, fun hnodes => hne ?_⟩
        have hkeys : (ClusterState.crmOf root).nodes.keys = [] := by
          show (Dict.ofList ((ClusterState.nodeElements root).map ClusterState.nodeState)).keys = []
          rw [hnodes]
          rfl
        rw [hkeys]
        rfl
  · cases hiscsi : run.probes .iscsi with
    | none => simp [hiscsi] at hs
    | some out =>
      exact honest_block .iscsi measures_iscsi (ClusterState.named_iscsi run.node _)
        (fun _ => by simp [hiscsi]) s hs
  · cases hdaemons : run.probes .daemons with
    | none => simp [hdaemons, ClusterState.daemonSamples, Dict.empty] at hs
    | some out =>
      exact honest_block .daemons measures_daemons (ClusterState.named_daemons run.node _)
        (fun _ => by simp [hdaemons]) s hs
  · exact absurd hs List.not_mem_nil

theorem honest_storage {l : List Sample} (h : samples py (.cluster .storage) run = some l) :
    Honest (.cluster .storage) run l := by
  have hrun : samples py (.cluster .storage) run = _ := ClusterState.samples_storage py run.node run.now run.probes
  rw [hrun] at h
  obtain ⟨drbd, hdrbd, rfl⟩ := Option.map_eq_some_iff.mp h
  refine honest_of_blocks fun s hs => ?_
  obtain hs | hs : s ∈ ClusterState.daemonSamples run.node _ ∨ s ∈ drbd.elim [] (ClusterState.drbdSamples run.node) := by
    simpa only [Option.elim_none, List.nil_append, List.mem_append] using hs
  · cases hdaemons : run.probes .daemons with
    | none => simp [hdaemons, ClusterState.daemonSamples, Dict.empty] at hs
    | some out =>
      exact honest_block .daemons measures_daemons (ClusterState.named_daemons run.node _)
        (fun _ => by simp [hdaemons]) s hs
  · cases drbd with
    | none => exact absurd hs List.not_mem_nil
    | some drbd =>
      obtain ⟨raw, hraw, -⟩ := isSome_of_whenRead hdrbd
      exact honest_block .drbd measures_drbd (ClusterState.named_drbd run.node drbd)
        (fun _ => by simp [hraw]) s hs

theorem honest_rdqm {qm : Str} {l : List Sample} (h : samples py (.rdqm qm) run = some l) :
    Honest (.rdqm qm) run l := by
  obtain ⟨base, -, h⟩ := Option.bind_eq_some_iff.mp h
  obtain ⟨status, hstatus, h⟩ := Option.bind_eq_some_iff.mp h
  obtain ⟨drbd, hdrbd, h⟩ := Option.bind_eq_some_iff.mp h
  obtain ⟨crm, hcrm, h⟩ := Option.bind_eq_some_iff.mp h
  obtain rfl := Option.some.inj h
  refine honest_of_blocks fun s hs => ?_
  obtain ((hs | hs) | hs) : (s ∈ status.elim [] (RdqmState.statusSamples run.node qm) ∨
      s ∈ drbd.elim [] (ClusterState.drbdSamples run.node)) ∨ s ∈ crm.elim [] (RdqmState.crmSamples run.node base) := by
    simpa only [List.mem_append] using hs
  · cases status with
    | none => exact absurd hs List.not_mem_nil
    | some st =>
      obtain ⟨raw, hraw, -⟩ := isSome_of_whenRead hstatus
      exact honest_block .rdqmstatus measures_status (RdqmState.named_status run.node qm st)
        (fun _ => by simp [hraw]) s hs
  · cases drbd with
    | none => exact absurd hs List.not_mem_nil
    | some drbd =>
      obtain ⟨raw, hraw, -⟩ := isSome_of_whenRead hdrbd
      exact honest_block .drbd measures_rdqmDrbd (ClusterState.named_drbd run.node drbd)
        (fun _ => by simp [hraw]) s hs
  · cases crm with
    | none => exact absurd hs List.not_mem_nil
    | some crm =>
      obtain ⟨raw, hraw, -⟩ := isSome_of_whenRead hcrm
      exact honest_block .crm measures_pm (RdqmState.named_pm run.node base crm)
        (fun _ => by simp [hraw]) s hs

theorem honest_nativeHa {qm : Str} : Honest (.nativeHa qm) run (NativeHaState.samples py run.node qm run.now run.probes) := by
  refine honest_of_blocks fun s hs => ?_
  rcases List.mem_append.mp hs with hs | hs
  · cases hx : run.probes .nativehaX with
    | none => simp [hx] at hs
    | some out =>
      refine honest_block .nativehaX measures_hax ?_ (fun _ => by simp [hx]) s hs
      exact Named.elim (NativeHaState.named_hax run.node qm) _
  · cases hg : run.probes .nativehaG with
    | none => simp [hg] at hs
    | some out =>
      refine honest_block .nativehaG measures_group ?_ (fun _ => by simp [hg]) s hs
      exact Named.elim (NativeHaState.named_groups run.node) _

/-- **What a failed probe leaves.** All that a run shows was read, and just
the sources that were read are stamped, unless nodes of a cluster are shown
while their fencing history could not be read. -/
theorem honest_iff (py : Runtime) (c : Collector) (run : Run) :
    (∀ l, samples py c run = some l → Honest c run l) ↔ ¬ MasksFencing py c run := by
  constructor
  · rintro hall ⟨rfl, hstonith, raw, root, hraw, hroot, hnodes⟩
    have hcrm : whenRead (run.probes .crm) (ClusterState.parseCrm py) = some (some (ClusterState.crmOf root)) := by
      simp [whenRead, hraw, ClusterState.parseCrm, hroot]
    have hrun : samples py (.cluster .cluster) run = _ := ClusterState.samples_cluster py run.node run.now run.probes
    rw [hcrm, Option.map_some] at hrun
    obtain ⟨n, ns, hn⟩ := List.exists_cons_of_ne_nil hnodes
    have hmember : (ClusterState.nodeState n).1 ∈ (ClusterState.crmOf root).nodes.keys := by
      show _ ∈ (Dict.ofList ((ClusterState.nodeElements root).map ClusterState.nodeState)).keys
      rw [Dict.mem_keys_ofList, hn]
      exact List.mem_cons_self
    have hfence := (hall _ hrun).1 (ClusterState.fenceSample run.node _ (ClusterState.nodeState n).1) (by
      refine List.mem_append_left _ (List.mem_append_left _ (List.mem_append_left _ (List.mem_append_left _ ?_)))
      exact List.mem_append_right _ (List.mem_map_of_mem hmember)) (measures_fence _ (List.mem_singleton.mpr rfl)).1
    have hsource : measures (.cluster .cluster) fenceName = .stonith := (measures_fence _ (List.mem_singleton.mpr rfl)).2
    have hsome : (run.probes (measures (.cluster .cluster) fenceName)).isSome := hfence
    rw [hsource, hstonith] at hsome
    cases hsome
  · intro hread l hl
    cases c with
    | cluster role =>
      cases role with
      | cluster => exact honest_cluster hread hl
      | storage => exact honest_storage hl
    | rdqm qm => exact honest_rdqm hl
    | nativeHa qm =>
      obtain rfl := Option.some.inj hl
      exact honest_nativeHa

end

/-- What `crm_mon` prints of a cluster of one node. -/
def oneNodeText : Str := "<crm_mon><nodes><node name=\"pcmk-a1\" online=\"true\"/></nodes></crm_mon>".toList

/-- A runtime that reads that document. -/
def oneNode : Runtime where
  fromstring text :=
    if text = oneNodeText then
      some (.mk "crm_mon".toList .empty [.mk "nodes".toList .empty
        [.mk "node".toList (.ofList [("name".toList, "pcmk-a1".toList), ("online".toList, "true".toList)]) []]])
    else none
  alnum _ := false
  lower s := s.map Char.toLower

/-- A time. -/
def newYear : Clock := ⟨1767225600, Double.isDouble_intCast (by norm_num)⟩

/-- A run in which only `crm_mon` answers. -/
def lostHistory : Run where
  node := "pcmk-a1".toList
  now := newYear
  probes source := if source = .crm then some ⟨oneNodeText, by decide +kernel⟩ else none

theorem lost_history_reads_clean :
    ¬ ∀ l, samples oneNode (.cluster .cluster) lostHistory = some l → Honest (.cluster .cluster) lostHistory l := by
  intro h
  have hclean := (h _ rfl).1 ⟨fenceName, [nodeLabel "pcmk-a1".toList, ("member".toList, "pcmk-a1".toList)], .int 0⟩
    (by
      refine List.mem_append_left _ (List.mem_append_left _ (List.mem_append_left _ (List.mem_append_left _ ?_)))
      exact List.mem_append_right _ (List.mem_singleton.mpr rfl)) (by decide +kernel)
  exact absurd hclean (by decide +kernel)

end Obs
end MqResiliency
