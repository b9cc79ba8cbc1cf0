/-
# A diff reads what the records wrote

Two records saved as JSON and compared. The reader finds what the recorder
wrote: each phase's sums over the steps of the phase, the milestones and
notes, and for each guest with steal readings their mean and number, none of
them unreadable (`diff_data`, `agrees`). A record against itself differs in
nothing (`unmoved`), and the two sides exchanged negate each difference
(`swapped`). For the saved texts this is `diff_reads_records`.
-/
import MqResiliency.Lib.FloatText
import MqResiliency.Perf.Diff

namespace MqResiliency
namespace Perf

open Py

/-! ### Dictionaries that were written -/

/-- A dictionary that was written as an object is read as it was. -/
theorem dictOf_obj {α : Type} (f : α → Json ℚ) (d : Dict Str α) :
    dictOf (.obj (d.items.map fun p => (p.1, f p.2))) = some (d.mapValues fun _ v => f v) := by
  have hnodup : ((d.items.map fun p => (p.1, f p.2)).map Prod.fst).Nodup := by
    rw [List.map_map]
    exact d.nodup
  have hitems := Dict.items_ofList hnodup
  rw [dictOf, Option.some.injEq]
  cases h : Dict.ofList (d.items.map fun p => (p.1, f p.2)) with
  | mk items nodup =>
    rw [h] at hitems
    subst hitems
    rfl

/-- Items that all read are all there. -/
theorem readAll_mapValues {α β γ : Type} {f : Str → β → Except PerfDiffError γ} {h : α → β} {g : α → γ} (d : Dict Str α)
    (hf : ∀ k v, f k (h v) = .ok (g v)) : readAll f (d.mapValues fun _ v => h v) = .ok (d.mapValues fun _ v => g v) := by
  -- The induction is on the items that are still to be read.
  have hread : ∀ (ps : List (Str × α)) (out : Dict Str γ), ((out.items ++ ps.map fun p => (p.1, g p.2)).map Prod.fst).Nodup →
      ∃ res, (ps.map fun p => (p.1, h p.2)).foldlM (fun out p => (f p.1 p.2).map (out.set p.1)) out = .ok res ∧
        res.items = out.items ++ ps.map fun p => (p.1, g p.2) := by
    intro ps
    induction ps with
    | nil => exact fun out _ => ⟨out, rfl, by simp⟩
    | cons p ps ih =>
      intro out hnodup
      have hnew : p.1 ∉ out.items.map Prod.fst := by
        rw [List.map_append, List.nodup_append] at hnodup
        exact fun hm => hnodup.2.2 _ hm p.1 (by simp) rfl
      have hitems : (out.set p.1 (g p.2)).items = out.items ++ [(p.1, g p.2)] := Dict.assign_of_not_mem _ hnew
      obtain ⟨res, hres, heq⟩ := ih (out.set p.1 (g p.2)) (by rw [hitems]; simpa using hnodup)
      refine ⟨res, ?_, by rw [heq, hitems]; simp⟩
      rw [List.map_cons, List.foldlM_cons, hf]
      exact hres
  obtain ⟨res, hres, heq⟩ := hread d.items .empty (by
    simp only [Dict.empty, List.nil_append, List.map_map]
    exact d.nodup)
  have hmapped : (d.mapValues fun _ v => h v).items = d.items.map fun p => (p.1, h p.2) := rfl
  rw [readAll, hmapped, hres]
  congr 1
  cases res
  subst heq
  rfl

/-! ### Phases -/

/-- The steps of a phase. -/
def stepsOf (r : PerfRecord) (name : Str) : List StepTiming := r.steps.filter (·.phase = name)

/-- What steps add up to. -/
def total (steps : List StepTiming) : PhaseTotal := steps.foldl PhaseTotal.add {}

theorem total_concat (steps : List StepTiming) (s : StepTiming) : total (steps ++ [s]) = (total steps).add s := by
  rw [total, List.foldl_append]
  rfl

theorem total_eq (steps : List StepTiming) : total steps =
    ⟨(steps.map (·.seconds)).sum, (steps.map (·.retries)).sum, (steps.countP fun s => !s.ok : ℕ), steps⟩ := by
  induction steps using List.reverseRecOn with
  | nil => rfl
  | append_singleton steps s ih =>
    rw [total_concat, ih, PhaseTotal.add]
    cases hok : s.ok <;> simp [hok]

/-- A phase is there once it has a step. -/
theorem get?_phases (r : PerfRecord) (name : Str) : r.phases.get? name =
    if stepsOf r name = [] then none else some (total (stepsOf r name)) := by
  have hfold : ∀ steps : List StepTiming, (steps.foldl (fun d s => d.set s.phase (((d.get? s.phase).getD {}).add s))
      (.empty : Dict Str PhaseTotal)).get? name =
        if steps.filter (·.phase = name) = [] then none else some (total (steps.filter (·.phase = name))) := by
    intro steps
    induction steps using List.reverseRecOn with
    | nil => rfl
    | append_singleton steps s ih =>
      rw [List.foldl_append, List.foldl_cons, List.foldl_nil, Dict.get?_set, List.filter_append]
      by_cases hs : name = s.phase
      · subst hs
        rw [if_pos rfl, ih]
        split
        · rename_i hnil
          simp [hnil, total]
        · simp [total_concat]
      · have hskip : [s].filter (fun s => s.phase = name) = [] := by simp [Ne.symm hs]
        rw [if_neg hs, ih, hskip, List.append_nil]
  exact hfold r.steps

/-- A phase's sums, as a diff has them. -/
def sums (t : PhaseTotal) : ℚ × ℤ × ℤ := (t.seconds, t.retries, t.failed)

/-- A dictionary of literal keys reads each. -/
theorem dictOf_literal {ps : List (Str × Json ℚ)} (h : (ps.map Prod.fst).Nodup) : dictOf (.obj ps) = some ⟨ps, h⟩ := by
  have hitems := Dict.items_ofList h
  rw [dictOf, Option.some.injEq]
  cases hd : Dict.ofList ps with
  | mk items nodup =>
    rw [hd] at hitems
    subst hitems
    rfl

section
variable (repr : Json ℚ → Str)

theorem phaseOf_asDict (side : String) (name : Str) (t : PhaseTotal) : phaseOf repr side name t.asDict = .ok (sums t) := by
  rw [phaseOf, PhaseTotal.asDict, dictOf_literal (by simp)]
  rfl

/-! ### A record that was loaded -/

/-- The record's fields. -/
def fields (r : PerfRecord) : List (Str × Json ℚ) :=
  [("stack".toList, .str r.stack), ("started_at".toList, .float r.startedAt),
    ("phases".toList, .obj (r.phases.items.map fun p => (p.1, p.2.asDict))),
    ("milestones".toList, .obj (r.milestones.items.map fun p => (p.1, .float p.2))),
    ("notes".toList, .arr (r.notes.map .str)),
    ("samples".toList, .arr (r.samples.map HostContentionSample.asDict)),
    ("env".toList, r.env.elim .null .str), ("env_source".toList, r.envSource.elim .null .str)]

theorem nodup_fields (r : PerfRecord) : ((fields r).map Prod.fst).Nodup := by
  have hkeys : (fields r).map Prod.fst = ["stack".toList, "started_at".toList, "phases".toList, "milestones".toList,
      "notes".toList, "samples".toList, "env".toList, "env_source".toList] := rfl
  rw [hkeys]
  decide

/-- The record as it is loaded. -/
def loaded (r : PerfRecord) : Rec := ⟨fields r, nodup_fields r⟩

theorem asRecord_data (r : PerfRecord) (side : String) : asRecord r.data side = .ok (loaded r) := by
  have hdict : dictOf r.data = some (loaded r) := dictOf_literal (nodup_fields r)
  rw [asRecord, hdict]

variable (r : PerfRecord) (side : String)

theorem phases_loaded : phases repr (loaded r) side = .ok (r.phases.mapValues fun _ t => sums t) := by
  have hraw : (loaded r).at "phases" = .obj (r.phases.items.map fun p => (p.1, p.2.asDict)) := rfl
  rw [phases, hraw, dictOf_obj PhaseTotal.asDict r.phases]
  exact readAll_mapValues r.phases (phaseOf_asDict repr side)

theorem milestones_loaded : milestones repr (loaded r) side = .ok r.milestones := by
  have hraw : (loaded r).at "milestones" = .obj (r.milestones.items.map fun p => (p.1, .float p.2)) := rfl
  have hsame : (r.milestones.mapValues fun _ v => v) = r.milestones := by
    cases hm : r.milestones
    simp [Dict.mapValues]
  rw [milestones, hraw, dictOf_obj Json.float r.milestones]
  show readAll (milestoneOf repr side) (r.milestones.mapValues fun _ v => .float v) = _
  have hread : ∀ k v, milestoneOf repr side k (.float v) = .ok (id v) := fun _ _ => rfl
  rw [readAll_mapValues r.milestones hread]
  exact congrArg Except.ok hsame

theorem stack_loaded : stack repr (loaded r) side = .ok (some r.stack) := rfl

theorem notes_loaded : notes repr (loaded r) side = .ok r.notes := by
  have hraw : ((loaded r).get? "notes".toList).getD (.arr []) = .arr (r.notes.map .str) := rfl
  have htexts : ∀ ts : List Str, (ts.map (Json.str (F := ℚ))).mapM strOf = some ts := by
    intro ts
    induction ts with
    | nil => rfl
    | cons t ts ih => rw [List.map_cons, List.mapM_cons, ih]; rfl
  simp only [notes, hraw, htexts]

end

/-! ### Steal readings -/

/-- A guest's steal readings, over the samples that have one. -/
def stealReadings (samples : List HostContentionSample) (guest : Str) : List ℚ :=
  samples.filterMap fun s => (s.guests.get? guest).bind (·.stealPct)

/-- The readings by guest are those of `f`, where it has any. -/
def Collects (d : Dict Str (List ℚ)) (f : Str → List ℚ) : Prop :=
  ∀ guest, d.get? guest = if f guest = [] then none else some (f guest)

theorem Collects.congr {d : Dict Str (List ℚ)} {f g : Str → List ℚ} (h : Collects d f) (hfg : ∀ guest, f guest = g guest) :
    Collects d g := funext hfg ▸ h

theorem Collects.push {d : Dict Str (List ℚ)} {f : Str → List ℚ} (h : Collects d f) (guest : Str) (x : ℚ) :
    Collects (d.push guest x) (Function.update f guest (f guest ++ [x])) := by
  intro other
  rw [Dict.get?_push]
  by_cases hother : other = guest
  · subst hother
    have hgetD : (d.get? other).getD [] = f other := by
      rw [h]
      split
      · rename_i hnil
        rw [hnil]
        rfl
      · rfl
    simp [hgetD]
  · rw [if_neg hother, h, Function.update_of_ne hother]

theorem guestSteal_asDict (g : GuestSample) : guestSteal g.asDict = g.stealPct := by
  rw [guestSteal, GuestSample.asDict, dictOf_literal (by simp)]
  cases g.stealPct with
  | none => rfl
  | some x => rfl

theorem isBaseline_asDict {g : GuestSample} (h : g.stealPct = none) : isBaseline g.asDict = true := by
  rw [isBaseline, GuestSample.asDict, dictOf_literal (by simp), h]
  rfl

/-- One sample's guests, each with a reading or a null. -/
theorem Collects.guests : ∀ {ps : List (Str × GuestSample)} {d : Dict Str (List ℚ)} {f : Str → List ℚ} {n : ℕ},
    (ps.map Prod.fst).Nodup → Collects d f →
      ∃ d', (ps.map fun p => (p.1, p.2.asDict)).foldl guestReading (d, n) = (d', n) ∧
        Collects d' fun guest => f guest ++ (((ps.find? fun p => p.1 = guest).map Prod.snd).bind (·.stealPct)).toList
  | [], d, f, n, _, h => ⟨d, rfl, by simpa using h⟩
  | (k, g) :: ps, d, f, n, hnodup, h => by
    obtain ⟨hk, hps⟩ := List.nodup_cons.mp hnodup
    have hmiss : ps.find? (fun p => p.1 = k) = none := by
      refine List.find?_eq_none.mpr fun p hp => ?_
      have hne : p.1 ≠ k := fun heq => hk (List.mem_map.mpr ⟨p, hp, heq⟩)
      simpa using hne
    cases hsteal : g.stealPct with
    | none =>
      have hstep : guestReading (d, n) (k, g.asDict) = (d, n) := by
        rw [guestReading, guestSteal_asDict, hsteal, isBaseline_asDict hsteal]
        rfl
      obtain ⟨d', hd', hcol⟩ := Collects.guests (n := n) hps h
      refine ⟨d', by rw [List.map_cons, List.foldl_cons, hstep, hd'], hcol.congr fun guest => ?_⟩
      by_cases hguest : k = guest
      · subst hguest
        simp [hmiss, hsteal]
      · rw [List.find?_cons_of_neg (by simpa using hguest)]
    | some x =>
      have hstep : guestReading (d, n) (k, g.asDict) = (d.push k x, n) := by
        rw [guestReading, guestSteal_asDict, hsteal]
      obtain ⟨d', hd', hcol⟩ := Collects.guests (n := n) hps (h.push k x)
      refine ⟨d', by rw [List.map_cons, List.foldl_cons, hstep, hd'], hcol.congr fun guest => ?_⟩
      by_cases hguest : k = guest
      · subst hguest
        simp [hmiss, hsteal]
      · rw [List.find?_cons_of_neg (by simpa using hguest), Function.update_of_ne (Ne.symm hguest)]

theorem dictOf_sample (s : HostContentionSample) : ∃ h, dictOf s.asDict = some ⟨[("t".toList, .float s.t),
    ("host".toList, s.hostDict), ("guests".toList, .obj (s.guests.items.map fun p => (p.1, p.2.asDict)))], h⟩ :=
  ⟨by simp, dictOf_literal (by simp)⟩

/-- All samples: what is collected is what was read, and nothing is unreadable. -/
theorem collects_samples (samples : List HostContentionSample) :
    ∃ d, (samples.map HostContentionSample.asDict).foldl sampleReadings (.empty, 0) = (d, 0) ∧
      Collects d (stealReadings samples) := by
  induction samples using List.reverseRecOn with
  | nil => exact ⟨.empty, rfl, fun _ => rfl⟩
  | append_singleton samples s ih =>
    obtain ⟨d, hd, hcol⟩ := ih
    obtain ⟨hnodup, hdict⟩ := dictOf_sample s
    have hstep : sampleReadings (d, 0) s.asDict = (s.guests.items.map fun p => (p.1, p.2.asDict)).foldl guestReading (d, 0) := by
      have hguests : (dictOf s.asDict).bind (fun fields => dictOf (Rec.at fields "guests")) =
          some (s.guests.mapValues fun _ g => g.asDict) := by
        rw [hdict]
        exact dictOf_obj GuestSample.asDict s.guests
      rw [sampleReadings, hguests]
      rfl
    obtain ⟨d', hd', hcol'⟩ := Collects.guests (n := 0) s.guests.nodup hcol
    refine ⟨d', by rw [List.map_append, List.foldl_append, hd, List.map_cons, List.foldl_cons, hstep, hd']; rfl,
      hcol'.congr fun guest => ?_⟩
    rw [stealReadings, stealReadings, List.filterMap_append]
    congr 1

/-! ### What a diff says of the samples -/

/-- The readings by guest. -/
def perGuest (r : PerfRecord) : Dict Str (List ℚ) :=
  ((r.samples.map HostContentionSample.asDict).foldl sampleReadings (.empty, 0)).1

theorem foldl_samples (r : PerfRecord) : (r.samples.map HostContentionSample.asDict).foldl sampleReadings (.empty, 0) =
    (perGuest r, 0) := by
  obtain ⟨d, hd, -⟩ := collects_samples r.samples
  rw [perGuest, hd]

theorem collects_perGuest (r : PerfRecord) : Collects (perGuest r) (stealReadings r.samples) := by
  obtain ⟨d, hd, hcol⟩ := collects_samples r.samples
  rwa [perGuest, hd]

/-- The only note on a record's samples: there are none. -/
def emptyNote (r : PerfRecord) (side : String) : List Str :=
  if r.samples = [] then [(side ++ ": 'samples' is empty").toList] else []

theorem steal_loaded (r : PerfRecord) (side : String) :
    steal (loaded r) side = (some ((ranked (perGuest r)).take topSteal), emptyNote r side) := by
  have hraw : (loaded r).get? "samples".toList = some (.arr (r.samples.map HostContentionSample.asDict)) := rfl
  have hfold := foldl_samples r
  rw [steal, hraw, emptyNote]
  cases hs : r.samples with
  | nil =>
    have hnone : perGuest r = .empty := by rw [perGuest, hs]; rfl
    simp only [List.map_nil, if_true, hnone]
    rfl
  | cons s samples =>
    rw [hs, List.map_cons] at hfold
    simp only [List.map_cons, hfold, if_true, reduceCtorEq, if_false]

theorem hostOf_asDict (s : HostContentionSample) : (hostOf s.asDict).isSome := by
  obtain ⟨hnodup, hdict⟩ := dictOf_sample s
  have hhost : hostOf s.asDict = dictOf s.hostDict := by rw [hostOf, hdict]; rfl
  rw [hhost]
  rfl

theorem hostMeans_loaded (r : PerfRecord) (side : String) : (hostMeans (loaded r) side).2 = [] := by
  have hraw : (loaded r).at "samples" = .arr (r.samples.map HostContentionSample.asDict) := rfl
  rw [hostMeans, hraw]
  cases hs : r.samples with
  | nil => rfl
  | cons s samples =>
    have hreadable : ((s :: samples).map HostContentionSample.asDict).countP (fun v => (hostOf v).isNone) = 0 := by
      rw [List.countP_eq_zero]
      intro v hv
      obtain ⟨s', -, rfl⟩ := List.mem_map.mp hv
      have hsome := hostOf_asDict s'
      rw [Option.isNone_eq_false_iff.mpr hsome]
      simp
    rw [List.map_cons] at hreadable ⊢
    simp only [hreadable, if_true]

/-! ### The report -/

/-- A record's phases, each with its sums. -/
def phaseSums (r : PerfRecord) : Dict Str (ℚ × ℤ × ℤ) := r.phases.mapValues fun _ t => sums t

/-- The note on two stacks. -/
def crossing (a b : PerfRecord) : List Str :=
  if some a.stack = some b.stack then [] else
    ["stacks differ (A=".toList ++ stackText (some a.stack) ++ ", B=".toList ++ stackText (some b.stack) ++
      "): the comparison crosses stacks".toList]

def report (a b : PerfRecord) : DiffReport where
  aStack := some a.stack
  bStack := some b.stack
  phases := (union (phaseSums a) (phaseSums b)).map (phaseDelta (phaseSums a) (phaseSums b))
  milestones := (union a.milestones b.milestones).map fun name => ⟨name, a.milestones.get? name, b.milestones.get? name⟩
  dominant := dominantOf ((union (phaseSums a) (phaseSums b)).map (phaseDelta (phaseSums a) (phaseSums b)))
  stealA := some ((ranked (perGuest a)).take topSteal)
  stealB := some ((ranked (perGuest b)).take topSteal)
  hostA := (hostMeans (loaded a) "A").1
  hostB := (hostMeans (loaded b) "B").1
  aNotes := a.notes
  bNotes := b.notes
  notes := crossing a b ++ emptyNote a "A" ++ emptyNote b "B"

/-- **Two records compare**, and nothing is raised. -/
theorem diff_data (repr : Json ℚ → Str) (a b : PerfRecord) : diff repr a.data b.data = .ok (report a b) := by
  have hbind : ∀ {α β : Type} (x : α) (f : α → Except PerfDiffError β), (Except.ok x >>= f) = f x := fun _ _ => rfl
  rw [diff, asRecord_data, hbind, asRecord_data, hbind, phases_loaded, hbind, phases_loaded, hbind, milestones_loaded,
    hbind, milestones_loaded, hbind, stack_loaded, hbind, stack_loaded, hbind, notes_loaded, hbind, notes_loaded, hbind,
    steal_loaded, steal_loaded, hostMeans_loaded, hostMeans_loaded, List.append_nil, List.append_nil]
  rfl

/-! ### Each side -/

/-- What a diff says of one side's phase is what the steps of the phase add up to. -/
def SaysPhase (r : PerfRecord) (name : Str) (seconds : Option ℚ) (retries failed : Option ℤ) : Prop :=
  if stepsOf r name = [] then seconds = none ∧ retries = none ∧ failed = none
  else seconds = some ((stepsOf r name).map (·.seconds)).sum ∧ retries = some ((stepsOf r name).map (·.retries)).sum ∧
    failed = some ((stepsOf r name).countP fun s => !s.ok : ℕ)

/-- What a diff says of one side's steal: means and numbers of readings, of
all guests that have one or of as many as it lists. -/
def SaysSteal (r : PerfRecord) (steal : Option (List StealContributor)) : Prop :=
  ∃ top, steal = some top ∧
    (∀ c ∈ top, stealReadings r.samples c.guest ≠ [] ∧ c.meanStealPct = mean (stealReadings r.samples c.guest) ∧
      c.samples = (stealReadings r.samples c.guest).length) ∧
    ∀ guest, stealReadings r.samples guest ≠ [] → (∃ c ∈ top, c.guest = guest) ∨ top.length = topSteal

/-- A report says of each side what its record holds, and notes no sample as unreadable. -/
structure Agrees (a b : PerfRecord) (r : DiffReport) : Prop where
  phaseNames : ∀ name, name ∈ r.phases.map (·.name) ↔ stepsOf a name ≠ [] ∨ stepsOf b name ≠ []
  phases : ∀ p ∈ r.phases, SaysPhase a p.name p.a p.aRetries p.aFailed ∧ SaysPhase b p.name p.b p.bRetries p.bFailed
  milestoneNames : ∀ name, name ∈ r.milestones.map (·.name) ↔ name ∈ a.milestones.keys ∨ name ∈ b.milestones.keys
  milestones : ∀ m ∈ r.milestones, m.a = a.milestones.get? m.name ∧ m.b = b.milestones.get? m.name
  recordNotes : r.aNotes = a.notes ∧ r.bNotes = b.notes
  steal : SaysSteal a r.stealA ∧ SaysSteal b r.stealB
  notes : r.notes = crossing a b ++ emptyNote a "A" ++ emptyNote b "B"

theorem get?_phaseSums (r : PerfRecord) (name : Str) : (phaseSums r).get? name =
    if stepsOf r name = [] then none else some (sums (total (stepsOf r name))) := by
  rw [phaseSums, Dict.get?_mapValues, get?_phases]
  split <;> rfl

theorem saysPhase (r : PerfRecord) (name : Str) : SaysPhase r name (((phaseSums r).get? name).map (·.1))
    (((phaseSums r).get? name).map (·.2.1)) (((phaseSums r).get? name).map (·.2.2)) := by
  rw [SaysPhase, get?_phaseSums]
  split
  · exact ⟨rfl, rfl, rfl⟩
  · rw [total_eq]
    exact ⟨rfl, rfl, rfl⟩

theorem mem_keys_phaseSums (r : PerfRecord) (name : Str) : name ∈ (phaseSums r).keys ↔ stepsOf r name ≠ [] := by
  rw [← Dict.get?_isSome, get?_phaseSums]
  split <;> simp_all

theorem mem_union {α β : Type} {a : Dict Str α} {b : Dict Str β} {name : Str} :
    name ∈ union a b ↔ name ∈ a.keys ∨ name ∈ b.keys := by
  rw [union, List.mem_append, List.mem_filter, decide_eq_true_eq]
  tauto

theorem nodup_union {α β : Type} (a : Dict Str α) (b : Dict Str β) : (union a b).Nodup := by
  refine List.nodup_append.mpr ⟨a.nodup, b.nodup.filter _, fun k hk k' hk' heq => ?_⟩
  subst heq
  exact (by simpa using (List.mem_filter.mp hk').2 : k ∉ a.keys) hk

theorem saysSteal (r : PerfRecord) : SaysSteal r (some ((ranked (perGuest r)).take topSteal)) := by
  have hmem : ∀ c, c ∈ ranked (perGuest r) ↔ ∃ p ∈ (perGuest r).items, (⟨p.1, mean p.2, p.2.length⟩ : StealContributor) = c := by
    intro c
    rw [ranked, List.mem_insertionSort, List.mem_map]
  refine ⟨_, rfl, fun c hc => ?_, fun guest hguest => ?_⟩
  · obtain ⟨⟨guest, readings⟩, hp, rfl⟩ := (hmem c).mp (List.mem_of_mem_take hc)
    have hget := Dict.get?_eq_some.mpr hp
    rw [collects_perGuest r] at hget
    split at hget
    · cases hget
    · rename_i hne
      obtain rfl := Option.some.inj hget
      exact ⟨hne, rfl, rfl⟩
  · have hget : (perGuest r).get? guest = some (stealReadings r.samples guest) := by
      rw [collects_perGuest r, if_neg hguest]
    have hin := (hmem _).mpr ⟨_, Dict.get?_eq_some.mp hget, rfl⟩
    by_cases hlen : (ranked (perGuest r)).length ≤ topSteal
    · rw [List.take_of_length_le hlen]
      exact .inl ⟨_, hin, rfl⟩
    · rw [List.length_take]
      exact .inr (by omega)

theorem agrees (a b : PerfRecord) : Agrees a b (report a b) where
  phaseNames name := by
    have hnames : (report a b).phases.map (·.name) = union (phaseSums a) (phaseSums b) := by
      simp only [report, List.map_map]
      exact List.map_id _
    rw [hnames, mem_union, mem_keys_phaseSums, mem_keys_phaseSums]
  phases p hp := by
    obtain ⟨name, -, rfl⟩ := List.mem_map.mp hp
    exact ⟨saysPhase a name, saysPhase b name⟩
  milestoneNames name := by
    have hnames : (report a b).milestones.map (·.name) = union a.milestones b.milestones := by
      simp only [report, List.map_map]
      exact List.map_id _
    rw [hnames, mem_union]
  milestones m hm := by
    obtain ⟨name, -, rfl⟩ := List.mem_map.mp hm
    exact ⟨rfl, rfl⟩
  recordNotes := ⟨rfl, rfl⟩
  steal := ⟨saysSteal a, saysSteal b⟩
  notes := rfl

/-! ### A record against itself -/

/-- Nothing differs. -/
structure Unmoved (r : DiffReport) : Prop where
  phases : ∀ p ∈ r.phases, p.delta = some 0
  milestones : ∀ m ∈ r.milestones, m.delta = some 0
  dominant : r.dominant = none

theorem mem_union_self {α : Type} {a : Dict Str α} {name : Str} (h : name ∈ union a a) : ∃ v, a.get? name = some v := by
  rw [mem_union, or_self] at h
  exact Option.isSome_iff_exists.mp (Dict.get?_isSome.mpr h)

theorem unmoved (a : PerfRecord) : Unmoved (report a a) := by
  have hphases : ∀ p ∈ (report a a).phases, p.delta = some 0 := by
    intro p hp
    obtain ⟨name, hname, rfl⟩ := List.mem_map.mp hp
    obtain ⟨v, hv⟩ := mem_union_self hname
    simp [Compared.delta, phaseDelta, hv]
  refine ⟨hphases, fun m hm => ?_, ?_⟩
  · obtain ⟨name, hname, rfl⟩ := List.mem_map.mp hm
    obtain ⟨v, hv⟩ := mem_union_self hname
    simp [Compared.delta, hv]
  · have hnone : (report a a).phases.filter PhaseDelta.diverges = [] := by
      refine List.filter_eq_nil_iff.mpr fun p hp => ?_
      simp [PhaseDelta.diverges, hphases p hp]
    show ((report a a).phases.filter PhaseDelta.diverges).argmax PhaseDelta.size = none
    rw [hnone]
    rfl

/-! ### The sides exchanged -/

/-- The same differences the other way round, in some order, and a dominant one of the same size. -/
structure Swapped (r r' : DiffReport) : Prop where
  phases : (r'.phases.map fun p => (p.name, p.delta)).Perm (r.phases.map fun p => (p.name, p.delta.map (- ·)))
  milestones : (r'.milestones.map fun m => (m.name, m.delta)).Perm (r.milestones.map fun m => (m.name, m.delta.map (- ·)))
  dominant : r'.dominant.map PhaseDelta.size = r.dominant.map PhaseDelta.size

theorem union_perm {α β : Type} (a : Dict Str α) (b : Dict Str β) : (union b a).Perm (union a b) :=
  (List.perm_ext_iff_of_nodup (nodup_union b a) (nodup_union a b)).mpr fun name => by
    rw [mem_union, mem_union, or_comm]

/-- The largest value does not depend on the order. -/
theorem argmax_map_perm {α β : Type} [LinearOrder β] {f : α → β} {l l' : List α} (h : (l.map f).Perm (l'.map f)) :
    (l.argmax f).map f = (l'.argmax f).map f := by
  have hle : ∀ {l l' : List α}, (l.map f).Perm (l'.map f) → ∀ m ∈ l.argmax f, ∀ m' ∈ l'.argmax f, f m ≤ f m' := by
    intro l l' h m hm m' hm'
    obtain ⟨x, hx, hfx⟩ := List.mem_map.mp (h.subset (List.mem_map_of_mem (List.argmax_mem hm)))
    exact hfx ▸ List.le_of_mem_argmax hx hm'
  have hlen : l.length = l'.length := by simpa using h.length_eq
  cases hm : l.argmax f with
  | none =>
    have hnil : l' = [] := List.length_eq_zero_iff.mp (by rw [← hlen, List.argmax_eq_none.mp hm]; rfl)
    rw [hnil]
    rfl
  | some m =>
    cases hm' : l'.argmax f with
    | none =>
      rw [List.argmax_eq_none.mp hm'] at hlen
      rw [List.length_eq_zero_iff.mp hlen] at hm
      cases hm
    | some m' => exact congrArg some (le_antisymm (hle h m hm m' hm') (hle h.symm m' hm' m hm))

theorem delta_swap (a b : Option ℚ) (name : Str) : (⟨name, b, a⟩ : Compared).delta = (⟨name, a, b⟩ : Compared).delta.map (- ·) := by
  cases a <;> cases b <;> simp [Compared.delta]

theorem swapped (a b : PerfRecord) : Swapped (report a b) (report b a) := by
  have hdelta : ∀ name, (phaseDelta (phaseSums b) (phaseSums a) name).delta =
      (phaseDelta (phaseSums a) (phaseSums b) name).delta.map (- ·) := fun name => delta_swap _ _ name
  refine ⟨?_, ?_, ?_⟩
  · simp only [report, List.map_map, Function.comp_def, hdelta]
    exact (union_perm (phaseSums a) (phaseSums b)).map _
  · simp only [report, List.map_map, Function.comp_def, delta_swap (a.milestones.get? _)]
    exact (union_perm a.milestones b.milestones).map _
  · have hdiv : ∀ name, (phaseDelta (phaseSums b) (phaseSums a) name).diverges =
        (phaseDelta (phaseSums a) (phaseSums b) name).diverges := by
      intro name
      rw [PhaseDelta.diverges, PhaseDelta.diverges, hdelta]
      cases (phaseDelta (phaseSums a) (phaseSums b) name).delta <;> simp
    have hsize : ∀ name, (phaseDelta (phaseSums b) (phaseSums a) name).size =
        (phaseDelta (phaseSums a) (phaseSums b) name).size := by
      intro name
      rw [PhaseDelta.size, PhaseDelta.size, hdelta]
      cases (phaseDelta (phaseSums a) (phaseSums b) name).delta <;> simp
    refine argmax_map_perm ?_
    simp only [List.filter_map, List.map_map, Function.comp_def, hdiv, hsize]
    exact ((union_perm (phaseSums a) (phaseSums b)).filter _).map _

/-! ### Saved and loaded -/

/-- **A diff reads exactly what the records wrote**: of the JSON of any two
runs' records, whose numbers have texts that read back. -/
theorem diff_reads_records {repr : ℚ → Str} {fl : Floats ℚ} (pyRepr : Json ℚ → Str) (stackA stackB : Str)
    (startA startB : ℚ) (opsA opsB : List Op) (ha : NumbersTrip repr fl (record stackA startA opsA).data)
    (hb : NumbersTrip repr fl (record stackB startB opsB).data) :
    ∃ a b, loads fl ((record stackA startA opsA).toJson repr) = .ok a ∧
      loads fl ((record stackB startB opsB).toJson repr) = .ok b ∧
      ∃ r, diff pyRepr a b = .ok r ∧ Agrees (record stackA startA opsA) (record stackB startB opsB) r ∧
        (∃ back, diff pyRepr b a = .ok back ∧ Swapped r back) ∧
        ∃ same, diff pyRepr a a = .ok same ∧ Unmoved same :=
  ⟨_, _, loads_dumps ha, loads_dumps hb, _, diff_data pyRepr _ _, agrees _ _, ⟨_, diff_data pyRepr _ _, swapped _ _⟩,
    _, diff_data pyRepr _ _, unmoved _⟩

/-- The floats from zero on, by their texts. -/
def plainFloats : Floats ℚ where
  ofText t := ((Double.decimalOf t).map nearest).getD 0
  nan := 0
  posInf := 0
  negInf := 0

def plainRepr (q : ℚ) : Str := if q = 0 then "0.0".toList else shortest q

/-- A run with a failed step, whose sample has a guest's first reading. -/
def slowRun : List Op :=
  [.setEnv (some "lan".toList) "flag".toList, .addStep ⟨"boot".toList, "up".toList, 3 / 2, 1, true⟩,
    .addStep ⟨"boot".toList, "ping".toList, 1 / 2, 0, false⟩, .addMilestone "ready".toList 2, .note "cold".toList,
    .addSample ⟨5 / 2, some 40, none, some 8,
      .ofList [("n1".toList, { stealPct := some (1 / 4) }), ("n2".toList, { stealPct := none })], none⟩]

def fastRun : List Op :=
  [.addStep ⟨"boot".toList, "up".toList, 1 / 2, 0, true⟩, .addStep ⟨"check".toList, "ping".toList, 1 / 4, 0, true⟩]

theorem diff_reads_slow_and_fast :
    ∃ a b, loads plainFloats ((record "ha".toList 0 slowRun).toJson plainRepr) = .ok a ∧
      loads plainFloats ((record "rdqm".toList 7 fastRun).toJson plainRepr) = .ok b ∧
      ∃ r, diff (fun _ => []) a b = .ok r ∧ Agrees (record "ha".toList 0 slowRun) (record "rdqm".toList 7 fastRun) r ∧
        (∃ back, diff (fun _ => []) b a = .ok back ∧ Swapped r back) ∧
        ∃ same, diff (fun _ => []) a a = .ok same ∧ Unmoved same :=
  diff_reads_records _ _ _ _ _ _ _ (by decide +kernel) (by decide +kernel)

end Perf
end MqResiliency
