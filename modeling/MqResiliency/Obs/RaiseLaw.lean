/-
# What makes a collector raise

A collector raises on a reading that one of its conversions cannot take: an
XML document that does not parse, a `done:` that is no float, an `out-of-sync:`
or a fail-count that is no integer (`Readable`). On all others it returns a
textfile (`isSome_collect`): the numbers that it read print again.
-/
import MqResiliency.Lib.Conv
import MqResiliency.Lib.Lines
import MqResiliency.Obs.FreshLaw

namespace MqResiliency
namespace Obs

open Py

/-! ### Loops that may fail -/

section
variable {α β : Type} {f : β → α → Option β}

theorem isSome_bind_iff {o : Option α} {g : α → Option β} {P Q : Prop} (ho : o.isSome ↔ P)
    (hg : ∀ a, (g a).isSome ↔ Q) : (o.bind g).isSome ↔ P ∧ Q := by
  rw [← ho]
  cases o with
  | none => simp
  | some a => simp [hg a]

theorem isSome_foldlM {P : α → Prop} (h : ∀ b a, (f b a).isSome ↔ P a) :
    ∀ (l : List α) (b : β), (l.foldlM f b).isSome ↔ ∀ a ∈ l, P a
  | [], b => by simp
  | a :: l, b => by
    rw [List.foldlM_cons, List.forall_mem_cons, ← h b a]
    cases hf : f b a with
    | none => simp
    | some b' => simpa using isSome_foldlM h l b'

theorem foldlM_keeps {P : β → Prop} (h : ∀ b a b', P b → f b a = some b' → P b') :
    ∀ (l : List α) {b b' : β}, P b → l.foldlM f b = some b' → P b'
  | [], b, b', hb, he => Option.some.inj he ▸ hb
  | a :: l, b, b', hb, he => by
    rw [List.foldlM_cons] at he
    obtain ⟨b₁, h₁, he⟩ := Option.bind_eq_some_iff.mp he
    exact foldlM_keeps h l (h b a b₁ hb h₁) he

end

/-! ### What is readable -/

/-- The numbers of a line of `drbdsetup status` convert. -/
def DrbdLineReadable (raw : Str) : Prop :=
  (∀ t, (ClusterState.tokens raw).get? "done".toList = some t → (float t).isSome) ∧
    ∀ t, (ClusterState.tokens raw).get? "out-of-sync".toList = some t → (Py.int t).isSome

def DrbdReadable (text : Str) : Prop := ∀ raw ∈ splitlines text, DrbdLineReadable raw

/-- A fail-count of digits, after its dashes, is an integer. -/
def FailcountReadable (fc : Option Str) : Prop :=
  ∀ t, fc = some t → t ≠ "INFINITY".toList → isdigit (t.dropWhile (· = '-')) → (Py.int t).isSome

/-- The document parses, and the fail-counts in it convert. -/
def CrmReadable (py : Runtime) (base text : Str) : Prop :=
  ∃ root, py.fromstring text = some root ∧
    ∀ fc ∈ RdqmState.failcountTexts root base, FailcountReadable fc.2

/-- All that was read converts; and a queue manager's name is one that maps to
its directory name. -/
def Readable (py : Runtime) (c : Collector) (run : Run) : Prop :=
  match c with
  | .cluster .cluster => ∀ raw, run.probes .crm = some raw → (py.fromstring raw.text).isSome
  | .cluster .storage => ∀ raw, run.probes .drbd = some raw → DrbdReadable raw.text
  | .rdqm qm =>
    ∃ base, RdqmState.rdqmResourceBase py qm = some base ∧
      (∀ raw, run.probes .drbd = some raw → DrbdReadable raw.text) ∧
      ∀ raw, run.probes .crm = some raw → CrmReadable py base raw.text
  | .nativeHa _ => True

theorem isSome_whenRead {α : Type} {out : Option Output} {parse : Str → Option α} {P : Str → Prop}
    (h : ∀ text, (parse text).isSome ↔ P text) :
    (whenRead out parse).isSome ↔ ∀ raw, out = some raw → P raw.text := by
  cases out with
  | none => simp [whenRead]
  | some raw => simp [whenRead, h]

theorem isSome_parseDrbd (text : Str) : (ClusterState.parseDrbd text).isSome ↔ DrbdReadable text := by
  unfold ClusterState.parseDrbd DrbdReadable
  rw [Option.isSome_map]
  refine isSome_foldlM (fun s raw => ?_) _ _
  have hconvert : ∀ {α : Type} (s : ClusterState.Scan) (token : Option Str) (read : Str → Option α) f,
      (s.convert token read f).isSome ↔ ∀ t, token = some t → (read t).isSome := by
    intro α s token read f
    cases token with
    | none => simp [ClusterState.Scan.convert]
    | some t => simp [ClusterState.Scan.convert]
  exact isSome_bind_iff (hconvert _ _ _ _) fun s => hconvert s _ _ _

theorem isSome_parseFailcount (fc : Option Str) : (RdqmState.parseFailcount fc).isSome ↔ FailcountReadable fc := by
  unfold FailcountReadable
  cases fc with
  | none => simp [RdqmState.parseFailcount]
  | some t =>
    by_cases hinf : t = "INFINITY".toList
    · have hparse : RdqmState.parseFailcount (some t) = some RdqmState.infinity := if_pos hinf
      rw [hparse]
      exact iff_of_true rfl fun t' ht hne => absurd (Option.some.inj ht ▸ hinf) hne
    · have hparse : RdqmState.parseFailcount (some t) = if isdigit (t.dropWhile (· = '-')) then Py.int t else some 0 :=
        if_neg hinf
      rw [hparse]
      split
      · rename_i hdigits
        exact ⟨fun h t' ht _ _ => Option.some.inj ht ▸ h, fun h => h t rfl hinf hdigits⟩
      · rename_i hdigits
        exact iff_of_true rfl fun t' ht _ h => absurd (Option.some.inj ht ▸ h) hdigits

theorem isSome_parseCrm (py : Runtime) (base text : Str) :
    (RdqmState.parseCrm py text base).isSome ↔ CrmReadable py base text := by
  unfold RdqmState.parseCrm CrmReadable
  cases hroot : py.fromstring text with
  | none => simp
  | some root =>
    have hcounts := isSome_foldlM (f := fun counts (entry : Str × Option Str) =>
        (RdqmState.parseFailcount entry.2).map fun n => Dict.set counts entry.1 n)
      (P := fun entry => FailcountReadable entry.2)
      (fun counts entry => by rw [Option.isSome_map]; exact isSome_parseFailcount entry.2)
      (RdqmState.failcountTexts root base) .empty
    have hcrm : (RdqmState.crmOf root base).isSome ↔
        ∀ fc ∈ RdqmState.failcountTexts root base, FailcountReadable fc.2 := by
      rw [RdqmState.crmOf, Option.isSome_map]
      exact hcounts
    rw [Option.bind_some, hcrm]
    simp

/-- **A run raises where a reading does not convert.** -/
theorem isSome_samples (py : Runtime) (c : Collector) (run : Run) :
    (samples py c run).isSome ↔ Readable py c run := by
  cases c with
  | cluster role =>
    cases role with
    | cluster =>
      have hrun : samples py (.cluster .cluster) run = _ :=
        ClusterState.samples_cluster py run.node run.now run.probes
      rw [hrun, Option.isSome_map]
      refine isSome_whenRead (P := fun text => (py.fromstring text).isSome) fun text => ?_
      rw [ClusterState.parseCrm, Option.isSome_map]
    | storage =>
      have hrun : samples py (.cluster .storage) run = _ :=
        ClusterState.samples_storage py run.node run.now run.probes
      rw [hrun, Option.isSome_map]
      exact isSome_whenRead isSome_parseDrbd
  | rdqm qm =>
    show (RdqmState.samples py run.node qm run.now run.probes).isSome ↔
      ∃ base, RdqmState.rdqmResourceBase py qm = some base ∧ _ ∧ _
    unfold RdqmState.samples
    cases hbase : RdqmState.rdqmResourceBase py qm with
    | none => simp
    | some base =>
      have hstatus : ∃ st, whenRead (run.probes .rdqmstatus) (fun text => some (RdqmState.parseRdqmstatus text)) =
          some st := by
        cases run.probes .rdqmstatus with
        | none => exact ⟨none, rfl⟩
        | some raw => exact ⟨some _, rfl⟩
      obtain ⟨st, hst⟩ := hstatus
      have hdrbd : (whenRead (run.probes .drbd) _).isSome ↔ _ := isSome_whenRead isSome_parseDrbd
      have hcrm : (whenRead (run.probes .crm) _).isSome ↔ _ := isSome_whenRead (isSome_parseCrm py base)
      have hgoal : ∀ (a : Option (Option (Dict Str ClusterState.Drbd))) (b : Option (Option RdqmState.Crm)),
          (a.bind fun drbd => b.bind fun crm => some (RdqmState.render run.node qm base run.now ⟨st, drbd, crm⟩
            (freshSources run.probes [.rdqmstatus, .drbd, .crm]))).isSome ↔ a.isSome ∧ b.isSome := by
        intro a b
        cases a <;> cases b <;> simp
      have hbind := hgoal (whenRead (run.probes .drbd) ClusterState.parseDrbd)
        (whenRead (run.probes .crm) (RdqmState.parseCrm py · base))
      rw [hdrbd, hcrm] at hbind
      simp only [hst, Option.bind_eq_bind, Option.bind_some, Option.some.injEq, exists_eq_left']
      exact hbind
  | nativeHa qm => exact iff_of_true rfl trivial

/-! ### What prints -/

/-- All values print. -/
def Prints (l : List Sample) : Prop := ∀ s ∈ l, s.value.text.isSome

section
variable {l l' : List Sample}

theorem isSome_body : (body l).isSome ↔ Prints l := by
  have hmap : ∀ l : List Sample, (l.mapM Sample.shown).isSome ↔ Prints l := by
    intro l
    induction l with
    | nil => simp [Prints]
    | cons s l ih =>
      have hshown : s.shown.isSome = s.value.text.isSome := Option.isSome_map
      have hcons : Prints (s :: l) ↔ s.value.text.isSome ∧ Prints l := List.forall_mem_cons
      rw [hcons, ← ih, ← hshown, List.mapM_cons]
      cases s.shown <;> cases l.mapM Sample.shown <;> simp
  rw [body, Option.isSome_map, hmap]

theorem Prints.append (h : Prints l) (h' : Prints l') : Prints (l ++ l') := by
  intro s hs
  rcases List.mem_append.mp hs with hs | hs
  · exact h s hs
  · exact h' s hs

theorem Prints.flatMap {α : Type} {f : α → List Sample} {as : List α} (h : ∀ a ∈ as, Prints (f a)) :
    Prints (as.flatMap f) := by
  intro s hs
  obtain ⟨a, ha, hs⟩ := List.mem_flatMap.mp hs
  exact h a ha s hs

theorem Prints.elim {α : Type} {f : α → List Sample} {o : Option α} (h : ∀ a, o = some a → Prints (f a)) :
    Prints (o.elim [] f) := by
  cases o with
  | none => exact fun s hs => absurd hs List.not_mem_nil
  | some a => exact h a rfl

theorem prints_nil : Prints [] := fun _ hs => absurd hs List.not_mem_nil

theorem Prints.cons {s : Sample} (hs : s.value.text.isSome) (h : Prints l) : Prints (s :: l) := by
  intro t ht
  rcases List.mem_cons.mp ht with rfl | ht
  · exact hs
  · exact h t ht

theorem isSome_flag (b : Bool) : (flag b).text.isSome := by cases b <;> decide +kernel

theorem isSome_small {n : ℤ} (h : n.natAbs < 2 ^ 63) : (Value.int n).text.isSome :=
  isSome_str (h.trans (by decide +kernel))

end

/-! ### Numbers that were read -/

/-- An integer that prints. -/
def Shows (n : ℤ) : Prop := (str n).isSome

/-- Every count is at most the number of lines. -/
theorem count_le_lines : ∀ (lines : List Str) {counts : Dict Str ℕ} {b : ℕ}, (∀ p ∈ counts.items, p.2 ≤ b) →
    ∀ p ∈ (lines.foldl ClusterState.stonithLine counts).items, p.2 ≤ b + lines.length
  | [], _, _, h => h
  | raw :: lines, counts, b, h => by
    have hstep : ∀ p ∈ (ClusterState.stonithLine counts raw).items, p.2 ≤ b + 1 := by
      intro p hp
      unfold ClusterState.stonithLine at hp
      simp only at hp
      split at hp
      · rcases Dict.mem_items_set hp with rfl | hp
        · cases hget : counts.get? ((trim raw).takeWhile (· ≠ ' ')) with
          | none => simp
          | some n =>
            have := h _ (Dict.get?_eq_some.mp hget)
            simpa [hget] using this
        · exact (h p hp).trans (Nat.le_succ b)
      · exact (h p hp).trans (Nat.le_succ b)
    intro p hp
    have := count_le_lines lines hstep p hp
    rw [List.length_cons]
    omega

theorem shows_stonith (out : Output) : ∀ p ∈ (ClusterState.parseStonith out.text).items, p.2 < 2 ^ 63 := by
  intro p hp
  have hempty : ∀ p ∈ (Dict.empty : Dict Str ℕ).items, p.2 ≤ 0 := fun p hp => absurd hp List.not_mem_nil
  have hcount := count_le_lines (splitlines out.text) hempty p hp
  have hlines := length_splitlines out.text
  have hout := out.length_lt
  omega

theorem iscsi_lt (out : Output) : ClusterState.parseIscsi out.text < 2 ^ 63 := by
  have hcount : ClusterState.parseIscsi out.text ≤ (splitlines out.text).length := List.countP_le_length
  have hlines := length_splitlines out.text
  have hout := out.length_lt
  omega

/-- The bytes of every resource print. -/
def BytesShow (d : Dict Str ClusterState.Drbd) : Prop := ∀ p ∈ d.items, Shows p.2.outOfSyncBytes

theorem BytesShow.update {s : ClusterState.Scan} (h : BytesShow s.out) {f : ClusterState.Drbd → ClusterState.Drbd}
    (hf : ∀ d, Shows d.outOfSyncBytes → Shows (f d).outOfSyncBytes) : BytesShow (s.update f).out := by
  unfold ClusterState.Scan.update
  split
  · exact h
  · intro p hp
    obtain ⟨q, hq, rfl⟩ := List.mem_map.mp hp
    show Shows (if _ then _ else _ : ClusterState.Drbd).outOfSyncBytes
    split
    · exact hf _ (h q hq)
    · exact h q hq

theorem shows_zero : Shows 0 := by
  unfold Shows
  decide +kernel

theorem BytesShow.header {s : ClusterState.Scan} (h : BytesShow s.out) (raw : Str) (ts : Dict Str Str) :
    BytesShow (s.header raw ts).out := by
  unfold ClusterState.Scan.header
  split
  · split
    · exact h
    · intro p hp
      rcases Dict.mem_items_set hp with rfl | hp
      · exact shows_zero
      · exact h p hp
  · exact h

theorem BytesShow.refine {s : ClusterState.Scan} (h : BytesShow s.out) (token : Option Str)
    {f : Str → ClusterState.Drbd → ClusterState.Drbd} (hf : ∀ t d, (f t d).outOfSyncBytes = d.outOfSyncBytes) :
    BytesShow (s.refine token f).out := by
  cases token with
  | none => exact h
  | some t => exact h.update fun d hd => (hf t d).symm ▸ hd

theorem BytesShow.convert {α : Type} {s s' : ClusterState.Scan} {token : Option Str} {read : Str → Option α}
    {f : α → ClusterState.Drbd → ClusterState.Drbd} (h : BytesShow s.out) (he : s.convert token read f = some s')
    (hf : ∀ t a d, read t = some a → Shows d.outOfSyncBytes → Shows (f a d).outOfSyncBytes) : BytesShow s'.out := by
  cases token with
  | none => exact Option.some.inj he ▸ h
  | some t =>
    obtain ⟨a, ha, rfl⟩ := Option.map_eq_some_iff.mp he
    exact h.update fun d hd => hf t a d ha hd

theorem BytesShow.line {s s' : ClusterState.Scan} {raw : Str} (h : BytesShow s.out)
    (hs : ClusterState.drbdLine s raw = some s') : BytesShow s'.out := by
  obtain ⟨s₁, h₁, h₂⟩ := Option.bind_eq_some_iff.mp hs
  have hdisk : BytesShow ((s.header raw (ClusterState.tokens raw)).refine
      ((ClusterState.tokens raw).get? "disk".toList) fun disk d => { d with disk }).out :=
    (h.header raw _).refine _ fun _ _ => rfl
  have hconn : BytesShow (((s.header raw (ClusterState.tokens raw)).refine
      ((ClusterState.tokens raw).get? "disk".toList) fun disk d => { d with disk }).refine
      ((ClusterState.tokens raw).get? "connection".toList) fun conn d => { d with conn }).out :=
    hdisk.refine _ fun _ _ => rfl
  have hdone : BytesShow s₁.out := hconn.convert h₁ fun _ _ _ _ hd => hd
  exact hdone.convert h₂ fun t n d hn _ => isSome_str_of_int hn

theorem bytesShow_parseDrbd {text : Str} {d : Dict Str ClusterState.Drbd}
    (h : ClusterState.parseDrbd text = some d) : BytesShow d := by
  obtain ⟨s, hs, rfl⟩ := Option.map_eq_some_iff.mp h
  exact foldlM_keeps (P := fun s => BytesShow s.out) (fun _ _ _ hb he => hb.line he) _
    (fun p hp => absurd hp List.not_mem_nil) hs

theorem shows_parseFailcount {fc : Option Str} {n : ℤ} (h : RdqmState.parseFailcount fc = some n) : Shows n := by
  have hinf : Shows RdqmState.infinity := by
    unfold Shows
    decide +kernel
  cases fc with
  | none => exact Option.some.inj h ▸ shows_zero
  | some t =>
    unfold RdqmState.parseFailcount at h
    simp only at h
    split at h
    · exact Option.some.inj h ▸ hinf
    · split at h
      · exact isSome_str_of_int h
      · exact Option.some.inj h ▸ shows_zero

/-- The fail-counts print. -/
theorem shows_failcount {text base : Str} {py : Runtime} {crm : RdqmState.Crm}
    (h : RdqmState.parseCrm py text base = some crm) : ∀ p ∈ crm.failcount.items, Shows p.2 := by
  obtain ⟨root, -, h⟩ := Option.bind_eq_some_iff.mp h
  obtain ⟨failcount, hcounts, rfl⟩ := Option.map_eq_some_iff.mp h
  refine foldlM_keeps (P := fun counts : Dict Str ℤ => ∀ p ∈ counts.items, Shows p.2) (fun counts entry counts' hb he => ?_)
    _ (fun p hp => absurd hp List.not_mem_nil) hcounts
  obtain ⟨n, hn, rfl⟩ := Option.map_eq_some_iff.mp he
  intro p hp
  rcases Dict.mem_items_set hp with rfl | hp
  · exact shows_parseFailcount hn
  · exact hb p hp

theorem shows_intOrNone {value : Option Str} {n : ℤ} (h : NativeHaState.intOrNone value = some n) : Shows n := by
  obtain ⟨t, -, hn⟩ := Option.bind_eq_some_iff.mp h
  exact isSome_str_of_int hn

theorem shows_quorum {py : Runtime} {text : Str} {n : ℤ}
    (h : (NativeHaState.parseNativehaX py text).quorumCurrent = some n) : Shows n := by
  have hline : ∀ (lines : List Str) (hax : NativeHaState.Hax), (∀ n, hax.quorumCurrent = some n → Shows n) →
      ∀ n, (lines.foldl (NativeHaState.haxLine py) hax).quorumCurrent = some n → Shows n := by
    intro lines
    induction lines with
    | nil => exact fun hax hb => hb
    | cons line lines ih =>
      intro hax hb
      refine ih _ fun n hn => ?_
      unfold NativeHaState.haxLine at hn
      simp only at hn
      split at hn
      · have hn : NativeHaState.intOrNone (some _) = some n := hn
        exact shows_intOrNone hn
      · split at hn
        · exact hb n hn
        · exact hb n hn
  exact hline _ ⟨none, none, none, .empty⟩ (fun _ h => absurd h (by simp)) n h

theorem shows_backlog {py : Runtime} {text : Str} :
    ∀ p ∈ (NativeHaState.parseNativehaG py text).items, ∀ n, p.2.backlog = some n → Shows n := by
  have hline : ∀ (lines : List Str) (groups : Dict Str NativeHaState.Group),
      (∀ p ∈ groups.items, ∀ n, p.2.backlog = some n → Shows n) →
      ∀ p ∈ (lines.foldl (NativeHaState.groupLine py) groups).items, ∀ n, p.2.backlog = some n → Shows n := by
    intro lines
    induction lines with
    | nil => exact fun groups hb => hb
    | cons line lines ih =>
      intro groups hb
      refine ih _ fun p hp => ?_
      unfold NativeHaState.groupLine at hp
      simp only at hp
      split at hp
      · rcases Dict.mem_items_set hp with rfl | hp
        · exact fun n hn => shows_intOrNone hn
        · exact hb p hp
      · exact hb p hp
  exact hline _ .empty fun p hp => absurd hp List.not_mem_nil

theorem natAbs_lt {n : ℤ} {b : ℕ} (h : |(n : ℚ)| < b) : n.natAbs < b := by
  have hcast : ((n.natAbs : ℕ) : ℚ) < b := by
    rw [Nat.cast_natAbs]
    exact_mod_cast h
  exact_mod_cast hcast

theorem natAbs_lt_of_isDouble {n : ℤ} (h : IsDouble n) : n.natAbs < 2 ^ 1024 := by
  refine natAbs_lt (lt_of_lt_of_eq h.2 ?_)
  rw [doubleBound, Nat.cast_pow]
  rfl

theorem shows_clock (now : Clock) : Shows now.seconds :=
  isSome_str ((natAbs_lt_of_isDouble now.isDouble).trans (by decide +kernel))

/-! ### A textfile of what was read -/

theorem isSome_one : (Value.int 1).text.isSome := isSome_small (by decide)

theorem prints_drbd (node : Str) {drbd : Dict Str ClusterState.Drbd} (h : BytesShow drbd) :
    Prints (ClusterState.drbdSamples node drbd) := by
  refine Prints.flatMap fun r hr => ?_
  have hbytes : (Value.int r.2.outOfSyncBytes).text.isSome := h r hr
  have hpct : (Value.float r.2.resyncPct).text.isSome := rfl
  exact .cons isSome_one (.cons isSome_one (.cons isSome_one (.cons hpct (.cons hbytes prints_nil))))

theorem prints_stamps (node : Str) (now : Clock) (fresh : List Source) : Prints (stamps node now fresh) := by
  intro s hs
  obtain ⟨source, -, rfl⟩ := List.mem_map.mp hs
  exact shows_clock now

namespace ClusterState

theorem prints_health (node : Str) (crm : Crm) : Prints (healthSamples node crm) := by
  have hmember : ∀ m, Prints (memberSamples node m) := fun m =>
    .cons (isSome_flag _) (.cons (isSome_flag _) prints_nil)
  have hresource : ∀ r, Prints (resourceSamples node r) := by
    intro r
    refine .cons (isSome_flag _) ?_
    split
    · exact prints_nil
    · split
      · exact prints_nil
      · exact .cons isSome_one prints_nil
  exact .append (.cons (isSome_flag _) (.flatMap fun m _ => hmember m)) (.flatMap fun r _ => hresource r)

theorem prints_fences (node : Str) {fences : Dict Str ℕ} (h : ∀ p ∈ fences.items, p.2 < 2 ^ 63)
    (members : List Str) : Prints (members.map (fenceSample node fences)) := by
  intro s hs
  obtain ⟨m, -, rfl⟩ := List.mem_map.mp hs
  refine isSome_small (n := ((fences.get? m).getD 0 : ℕ)) ?_
  rw [Int.natAbs_natCast]
  cases hget : fences.get? m with
  | none => decide
  | some n => exact h _ (Dict.get?_eq_some.mp hget)

theorem prints_daemons (node : Str) (daemons : Dict Str Bool) : Prints (daemonSamples node daemons) := by
  intro s hs
  obtain ⟨d, -, rfl⟩ := List.mem_map.mp hs
  exact isSome_flag _

theorem prints_cluster {py : Runtime} {run : Run} {l : List Sample}
    (h : Obs.samples py (.cluster .cluster) run = some l) : Prints l := by
  have hrun : Obs.samples py (.cluster .cluster) run = _ := samples_cluster py run.node run.now run.probes
  rw [hrun] at h
  obtain ⟨crm, -, rfl⟩ := Option.map_eq_some_iff.mp h
  have hfences : ∀ p ∈ (((run.probes .stonith).map fun out => parseStonith out.text).getD .empty).items,
      p.2 < 2 ^ 63 := by
    cases run.probes .stonith with
    | none => exact fun p hp => absurd hp List.not_mem_nil
    | some out => exact shows_stonith out
  refine .append (.append (.append (.append (.elim fun crm _ => ?_) (.elim fun n hn => ?_)) ?_) ?_) ?_
  · exact (prints_health _ crm).append (prints_fences _ hfences _)
  · obtain ⟨out, -, rfl⟩ := Option.map_eq_some_iff.mp hn
    exact .cons (isSome_small (by rw [Int.natAbs_natCast]; exact iscsi_lt out)) prints_nil
  · exact prints_daemons _ _
  · exact prints_nil
  · exact prints_stamps _ _ _

theorem prints_storage {py : Runtime} {run : Run} {l : List Sample}
    (h : Obs.samples py (.cluster .storage) run = some l) : Prints l := by
  have hrun : Obs.samples py (.cluster .storage) run = _ := samples_storage py run.node run.now run.probes
  rw [hrun] at h
  obtain ⟨drbd, hdrbd, rfl⟩ := Option.map_eq_some_iff.mp h
  refine .append (.append (.append prints_nil (prints_daemons _ _)) (.elim fun d hd => ?_)) (prints_stamps _ _ _)
  obtain ⟨raw, -, hparse⟩ := isSome_of_whenRead (hdrbd.trans (congrArg some hd))
  exact prints_drbd _ (bytesShow_parseDrbd hparse)

end ClusterState

namespace RdqmState

theorem prints_status (node qm : Str) (st : Status) : Prints (statusSamples node qm st) := by
  have hcode : ∀ role, (Value.int (roleCode role)).text.isSome := by
    intro role
    unfold roleCode
    split
    · exact isSome_small (by decide)
    · split <;> exact isSome_small (by decide)
  have hdrCode : ∀ role, (Value.int (drRoleCode role)).text.isSome := by
    intro role
    unfold drRoleCode
    split
    · exact isSome_small (by decide)
    · split <;> exact isSome_small (by decide)
  have hmember : ∀ m, Prints (memberSamples node m) := fun m => .cons (isSome_flag _) (.cons isSome_one prints_nil)
  have hrole : Prints (roleSamples node st) :=
    .append (.elim fun _ _ => .cons isSome_one prints_nil) (.cons (hcode _) (.cons (isSome_flag _) prints_nil))
  have hip : Prints (floatingIpSamples node st) := by
    unfold floatingIpSamples
    split
    · exact .elim fun _ _ => .cons isSome_one prints_nil
    · exact prints_nil
  have hcurrent : Prints (currentSamples node qm st) := by
    refine .elim fun _ _ => .cons isSome_one ?_
    split
    · exact .cons isSome_one prints_nil
    · exact prints_nil
  have hpreferred : Prints (preferredSamples node st) := .elim fun _ _ => .cons isSome_one prints_nil
  have hdr : Prints (drRoleSamples node st) := .elim fun _ _ => .cons isSome_one (.cons (hdrCode _) prints_nil)
  have hdrStatus : Prints (drStatusSamples node st) := by
    refine .elim fun _ _ => ?_
    split
    · exact prints_nil
    · exact .cons isSome_one (.cons (isSome_flag _) prints_nil)
  have hfirst : Prints (statusSamples node qm st |>.take 3) :=
    .cons (isSome_flag _) (.cons (isSome_flag _) (.cons isSome_one prints_nil))
  exact ((((((hfirst.append hrole).append (.flatMap fun m _ => hmember m)).append hip).append hcurrent).append
    hpreferred).append hdr).append hdrStatus

theorem prints_pm (node base : Str) {crm : Crm} (h : ∀ p ∈ crm.failcount.items, Shows p.2) :
    Prints (crmSamples node base crm) := by
  refine .flatMap fun m _ => ?_
  have hcode : ∀ role, (Value.int (pmCode role)).text.isSome := by
    intro role
    unfold pmCode
    split
    · exact isSome_small (by decide)
    · split <;> exact isSome_small (by decide)
  have hcount : Shows ((crm.failcount.get? m.1).getD 0) := by
    cases hget : crm.failcount.get? m.1 with
    | none => exact shows_zero
    | some n => exact h _ (Dict.get?_eq_some.mp hget)
  refine .append (.cons (isSome_flag _) fun s hs => ?_)
    (.cons hcount (.cons (isSome_flag _) (.cons (isSome_flag _) prints_nil)))
  obtain ⟨res, -, rfl⟩ := List.mem_map.mp hs
  exact hcode _

theorem prints_rdqm {py : Runtime} {qm : Str} {run : Run} {l : List Sample}
    (h : Obs.samples py (.rdqm qm) run = some l) : Prints l := by
  obtain ⟨base, -, h⟩ := Option.bind_eq_some_iff.mp h
  obtain ⟨status, -, h⟩ := Option.bind_eq_some_iff.mp h
  obtain ⟨drbd, hdrbd, h⟩ := Option.bind_eq_some_iff.mp h
  obtain ⟨crm, hcrm, h⟩ := Option.bind_eq_some_iff.mp h
  obtain rfl := Option.some.inj h
  refine .append (.append (.append (.elim fun st _ => ?_) (.elim fun d hd => ?_)) (.elim fun crm' hc => ?_)) ?_
  · exact prints_status _ _ st
  · obtain ⟨raw, -, hparse⟩ := isSome_of_whenRead (hdrbd.trans (congrArg some hd))
    exact prints_drbd _ (bytesShow_parseDrbd hparse)
  · obtain ⟨raw, -, hparse⟩ := isSome_of_whenRead (hcrm.trans (congrArg some hc))
    exact prints_pm _ _ (shows_failcount hparse)
  · exact prints_stamps _ _ _

end RdqmState

namespace NativeHaState

theorem prints_hax (node qm : Str) {hax : Hax} (h : ∀ n, hax.quorumCurrent = some n → Shows n) :
    Prints (haxSamples node qm hax) := by
  have hcode : ∀ role, (Value.int (roleCode role)).text.isSome := by
    intro role
    unfold roleCode
    split
    · exact isSome_small (by decide)
    · split
      · exact isSome_small (by decide)
      · split <;> exact isSome_small (by decide)
  have hquorum : Prints (quorumSamples node hax) := by
    unfold quorumSamples
    split
    · rename_i current _ hcurrent _
      exact .cons (isSome_flag _) (.cons (h current hcurrent) prints_nil)
    · exact prints_nil
  refine hquorum.append (.flatMap fun m _ => .append ?_ ?_)
  · exact .cons (isSome_flag _) (.cons isSome_one (.cons (hcode _) (.cons (isSome_flag _)
      (.cons isSome_one (.cons (isSome_flag _) prints_nil)))))
  · split
    · exact .cons isSome_one prints_nil
    · exact prints_nil

theorem prints_groups (node : Str) {grp : Dict Str Group} (h : ∀ p ∈ grp.items, ∀ n, p.2.backlog = some n → Shows n) :
    Prints (grp.items.flatMap (groupSamples node)) := by
  refine .flatMap fun g hg => .append (.append (.append ?_ ?_) ?_) ?_
  · exact .cons isSome_one (.cons isSome_one prints_nil)
  · exact .elim fun _ _ => .cons (isSome_flag _) prints_nil
  · exact .elim fun _ _ => .cons (isSome_flag _) prints_nil
  · exact .elim fun n hn => .cons (h g hg n hn) prints_nil

theorem prints_nativeHa (py : Runtime) (node qm : Str) (now : Clock) (probes : Probes) :
    Prints (samples py node qm now probes) := by
  refine .append (.append (.elim fun hax hx => ?_) (.elim fun grp hg => ?_)) (prints_stamps _ _ _)
  · obtain ⟨out, -, rfl⟩ := Option.map_eq_some_iff.mp hx
    exact prints_hax _ _ fun n => shows_quorum
  · obtain ⟨out, -, rfl⟩ := Option.map_eq_some_iff.mp hg
    exact prints_groups _ shows_backlog

end NativeHaState

theorem prints_samples {py : Runtime} {c : Collector} {run : Run} {l : List Sample}
    (h : samples py c run = some l) : Prints l := by
  cases c with
  | cluster role =>
    cases role with
    | cluster => exact ClusterState.prints_cluster h
    | storage => exact ClusterState.prints_storage h
  | rdqm qm => exact RdqmState.prints_rdqm h
  | nativeHa qm =>
    obtain rfl := Option.some.inj h
    exact NativeHaState.prints_nativeHa py run.node qm run.now run.probes

/-- A run that reads returns a textfile. -/
theorem isSome_collect (py : Runtime) (c : Collector) (run : Run) :
    (collect py c run).isSome ↔ Readable py c run := by
  rw [← isSome_samples py c run, collect]
  cases h : samples py c run with
  | none => simp
  | some l => simpa using isSome_body.mpr (prints_samples h)

end Obs
end MqResiliency
