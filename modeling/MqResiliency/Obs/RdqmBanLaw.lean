/-
# Banned nodes

Pacemaker bans a node from running the queue manager when its fail-count
reaches INFINITY. A document shows its bans (`ShowsBans`) if every fail-count
converts, a member is startable exactly if no fail-count recorded for it
reaches INFINITY, and ready only if it is online and startable.

The collector reads digits after any number of dashes with `int`, and of the
entries of a node it keeps the last. `showsBans_iff` says exactly which
documents show their bans.

Key theorems: `reaches_iff`, `get?_failcountOf`, `showsBans_iff`.
-/
import MqResiliency.Lib.Digits
import MqResiliency.Obs.RaiseLaw

namespace MqResiliency
namespace Obs
namespace RdqmState

open Py Xml
open ClusterState (isTrue nodeElements)

/-! ### Fail-counts -/

/-- A number as the cluster writes it. -/
def IsNumber (t : Str) : Prop :=
  ∃ digits : Str, digits ≠ [] ∧ (∀ c ∈ digits, (decimal c).isSome) ∧ (t = digits ∨ t = '-' :: digits)

/-- The attribute reaches INFINITY. -/
def Reaches (fc : Option Str) : Prop :=
  ∃ t, fc = some t ∧
    (t = "INFINITY".toList ∨ (t ≠ [] ∧ (∀ c ∈ t, (decimal c).isSome) ∧ infinity ≤ digitsValue t))

/-- What is read is an integer: INFINITY by its number, and 0 for what is no number. -/
def Parses (fc : Option Str) : Prop :=
  ∃ n, parseFailcount fc = some n ∧ (fc = some "INFINITY".toList → n = infinity) ∧
    ((∀ t, fc = some t → t ≠ "INFINITY".toList ∧ ¬ IsNumber t) → n = 0)

/-- Digits after dashes: one dash at most, decimals, and no more of them than `int` reads. -/
def Converts (fc : Option Str) : Prop :=
  ∀ t, fc = some t → isdigit (t.dropWhile (· = '-')) →
    (t.takeWhile (· = '-')).length ≤ 1 ∧ (∀ c ∈ t.dropWhile (· = '-'), (decimal c).isSome) ∧
      (t.dropWhile (· = '-')).length ≤ maxStrDigits

theorem dashes_append (t : Str) :
    t = List.replicate (t.takeWhile (· = '-')).length '-' ++ t.dropWhile (· = '-') := by
  have hdash : t.takeWhile (· = '-') = List.replicate (t.takeWhile (· = '-')).length '-' :=
    List.eq_replicate_of_mem fun c hc => by simpa using List.mem_takeWhile_imp hc
  rw [← hdash, List.takeWhile_append_dropWhile]

theorem not_decimal_dash : decimal '-' = none := by decide +kernel

/-- Decimals have no dash before them. -/
theorem dropWhile_of_decimal {t : Str} (h : ∀ c ∈ t, (decimal c).isSome) : t.dropWhile (· = '-') = t := by
  cases t with
  | nil => rfl
  | cons c t =>
    refine List.dropWhile_cons_of_neg fun hc => ?_
    have hdash : c = '-' := by simpa using hc
    have hsome := h c List.mem_cons_self
    rw [hdash, not_decimal_dash] at hsome
    exact absurd hsome (by simp)

theorem isdigit_of_decimal {t : Str} (hne : t ≠ []) (h : ∀ c ∈ t, (decimal c).isSome) : isdigit t :=
  isdigit_iff.mpr ⟨hne, fun c hc => .inl (h c hc)⟩

/-- A number is digits after its dash. -/
theorem isdigit_of_isNumber {t : Str} (h : IsNumber t) : isdigit (t.dropWhile (· = '-')) := by
  obtain ⟨digits, hne, hall, rfl | rfl⟩ := h
  · rw [dropWhile_of_decimal hall]
    exact isdigit_of_decimal hne hall
  · rw [List.dropWhile_cons_of_pos (by simp), dropWhile_of_decimal hall]
    exact isdigit_of_decimal hne hall

theorem isSome_int_iff_converts {t : Str} (h : isdigit (t.dropWhile (· = '-'))) : (Py.int t).isSome ↔
    (t.takeWhile (· = '-')).length ≤ 1 ∧ (∀ c ∈ t.dropWhile (· = '-'), (decimal c).isSome) ∧
      (t.dropWhile (· = '-')).length ≤ maxStrDigits := by
  obtain ⟨hne, hdigits⟩ := isdigit_iff.mp h
  have hiff := isSome_int_iff (t.takeWhile (· = '-')).length hne hdigits
  rw [← dashes_append] at hiff
  exact hiff

theorem parseFailcount_some (t : Str) : parseFailcount (some t) =
    if t = "INFINITY".toList then some infinity else if isdigit (t.dropWhile (· = '-')) then Py.int t else some 0 := rfl

/-- **When a fail-count is read.** -/
theorem parses_iff (fc : Option Str) : Parses fc ↔ Converts fc := by
  cases fc with
  | none => exact iff_of_true ⟨0, rfl, by simp, fun _ => rfl⟩ fun t ht => by cases ht
  | some t =>
    unfold Parses Converts
    rw [parseFailcount_some]
    by_cases hinf : t = "INFINITY".toList
    · subst hinf
      have hdigits : isdigit (("INFINITY".toList).dropWhile (· = '-')) = false := by decide +kernel
      refine iff_of_true ⟨infinity, if_pos rfl, fun _ => rfl, fun h => absurd rfl (h _ rfl).1⟩ fun t ht h => ?_
      obtain rfl := Option.some.inj ht
      exact absurd (hdigits.symm.trans h) (by simp)
    · rw [if_neg hinf]
      by_cases hdigits : isdigit (t.dropWhile (· = '-'))
      · rw [if_pos hdigits]
        constructor
        · rintro ⟨n, hn, -⟩ t' ht -
          obtain rfl := Option.some.inj ht
          exact (isSome_int_iff_converts hdigits).mp (hn ▸ rfl)
        · intro h
          obtain ⟨hone, hall, hlen⟩ := h t rfl hdigits
          obtain ⟨n, hn⟩ := Option.isSome_iff_exists.mp ((isSome_int_iff_converts hdigits).mpr ⟨hone, hall, hlen⟩)
          refine ⟨n, hn, fun h => absurd (Option.some.inj h) hinf, fun h => ?_⟩
          -- one dash or none before decimals: a number
          refine absurd ⟨t.dropWhile (· = '-'), (isdigit_iff.mp hdigits).1, hall, ?_⟩ (h t rfl).2
          have happ := dashes_append t
          generalize (t.takeWhile (· = '-')).length = dashes at hone happ
          match dashes, hone with
          | 0, _ => exact .inl happ
          | 1, _ => exact .inr happ
      · rw [if_neg hdigits]
        refine iff_of_true ⟨0, rfl, fun h => absurd (Option.some.inj h) hinf, fun _ => rfl⟩ fun t' ht h => ?_
        obtain rfl := Option.some.inj ht
        exact absurd h hdigits

/-- Two dashes before digits are garbage that raises. -/
example : parseFailcount (some "--5".toList) = none := by decide

/-- **What is read reaches INFINITY where the attribute does.** -/
theorem reaches_iff {fc : Option Str} {n : ℤ} (h : parseFailcount fc = some n) : infinity ≤ n ↔ Reaches fc := by
  unfold Reaches
  cases fc with
  | none =>
    obtain rfl : 0 = n := Option.some.inj h
    exact iff_of_false (by decide) (by simp)
  | some t =>
    rw [parseFailcount_some] at h
    have hsome : (∃ t', some t = some t' ∧ (t' = "INFINITY".toList ∨ (t' ≠ [] ∧ (∀ c ∈ t', (decimal c).isSome) ∧
        infinity ≤ digitsValue t'))) ↔ t = "INFINITY".toList ∨ (t ≠ [] ∧ (∀ c ∈ t, (decimal c).isSome) ∧
        infinity ≤ digitsValue t) := by simp
    rw [hsome]
    by_cases hinf : t = "INFINITY".toList
    · rw [if_pos hinf] at h
      obtain rfl := Option.some.inj h
      exact iff_of_true le_rfl (.inl hinf)
    · rw [if_neg hinf] at h
      by_cases hdigits : isdigit (t.dropWhile (· = '-'))
      · rw [if_pos hdigits] at h
        obtain ⟨hone, hall, hlen⟩ := (isSome_int_iff_converts hdigits).mp (h ▸ rfl)
        obtain ⟨hne, -⟩ := isdigit_iff.mp hdigits
        have happ := dashes_append t
        generalize (t.takeWhile (· = '-')).length = dashes at hone happ
        match dashes, hone with
        | 0, _ =>
          have happ : t = t.dropWhile (· = '-') := happ
          rw [← happ] at hne hall hlen
          obtain rfl : (digitsValue t : ℤ) = n := Option.some.inj ((int_digits hne hall hlen).symm.trans h)
          exact ⟨fun hle => .inr ⟨hne, hall, hle⟩, fun hor => (hor.resolve_left hinf).2.2⟩
        | 1, _ =>
          -- a number with a dash is not positive
          have happ : t = '-' :: t.dropWhile (· = '-') := happ
          refine iff_of_false ?_ ?_
          · have hneg := int_dash_nonpos (happ ▸ h) (isdigit_iff.mp hdigits).2
            have hinfinity : infinity = 1000000 := rfl
            omega
          · rintro (h | ⟨-, hdec, -⟩)
            · exact hinf h
            · have hdash := hdec '-' (happ ▸ List.mem_cons_self)
              rw [not_decimal_dash] at hdash
              exact absurd hdash (by simp)
      · rw [if_neg hdigits] at h
        obtain rfl := Option.some.inj h
        refine iff_of_false (by decide) ?_
        rintro (h | ⟨hne, hdec, -⟩)
        · exact hinf h
        · rw [dropWhile_of_decimal hdec] at hdigits
          exact hdigits (isdigit_of_decimal hne hdec)

/-! ### The entries of a node -/

/-- The entry of a node that is kept: its last. -/
def lastEntry (texts : List (Str × Option Str)) (member : Str) : Option (Option Str) :=
  ((texts.filter fun entry => entry.1 = member).getLast?).map Prod.snd

theorem lastEntry_concat (texts : List (Str × Option Str)) (entry : Str × Option Str) (member : Str) :
    lastEntry (texts ++ [entry]) member = if member = entry.1 then some entry.2 else lastEntry texts member := by
  unfold lastEntry
  rw [List.filter_append]
  by_cases h : member = entry.1
  · simp [h]
  · simp [h, Ne.symm h]

theorem mem_of_lastEntry {texts : List (Str × Option Str)} {member : Str} {fc : Option Str}
    (h : lastEntry texts member = some fc) : (member, fc) ∈ texts := by
  obtain ⟨entry, hlast, rfl⟩ := Option.map_eq_some_iff.mp h
  obtain ⟨hmem, hname⟩ := List.mem_filter.mp (List.mem_of_getLast? hlast)
  have hname : entry.1 = member := by simpa using hname
  exact hname ▸ hmem

theorem lastEntry_eq_none {texts : List (Str × Option Str)} {member : Str} (h : lastEntry texts member = none)
    (fc : Option Str) : (member, fc) ∉ texts := by
  intro hmem
  have hnil : texts.filter (fun entry => entry.1 = member) = [] := by simpa [lastEntry] using h
  exact absurd (List.mem_filter.mpr ⟨hmem, by simp⟩) (hnil ▸ List.not_mem_nil)

/-- **A node's fail-count is that of its last entry.** -/
theorem get?_failcountOf {texts : List (Str × Option Str)} : ∀ {counts : Dict Str ℤ}, failcountOf texts = some counts →
    ∀ member, counts.get? member = (lastEntry texts member).bind parseFailcount := by
  induction texts using List.reverseRecOn with
  | nil =>
    intro counts h member
    obtain rfl : Dict.empty = counts := Option.some.inj h
    rfl
  | append_singleton texts entry ih =>
    intro counts h member
    unfold failcountOf at h
    rw [List.foldlM_append] at h
    obtain ⟨before, hbefore, h⟩ := Option.bind_eq_some_iff.mp h
    have hlast : (parseFailcount entry.2).map (fun n => before.set entry.1 n) = some counts := by simpa using h
    obtain ⟨n, hn, rfl⟩ := Option.map_eq_some_iff.mp hlast
    rw [Dict.get?_set, lastEntry_concat]
    by_cases hm : member = entry.1
    · rw [if_pos hm, if_pos hm, Option.bind_some, hn]
    · rw [if_neg hm, if_neg hm]
      exact ih hbefore member

/-! ### What is shown of a member -/

def pmOnlineName : Str := "cluster_rdqm_pm_online".toList

def pmStateName : Str := "cluster_rdqm_pm_state".toList

def failcountName : Str := "cluster_rdqm_failcount".toList

def startableName : Str := "cluster_rdqm_qm_startable".toList

def readyName : Str := "cluster_rdqm_node_ready".toList

def memberLabels (node member : Str) : List (Str × Str) := [nodeLabel node, ("member".toList, member)]

def startableSample (node member : Str) (b : Bool) : Sample := ⟨startableName, memberLabels node member, flag b⟩

def readySample (node member : Str) (b : Bool) : Sample := ⟨readyName, memberLabels node member, flag b⟩

theorem flag_eq_flag {b b' : Bool} : flag b = flag b' ↔ b = b' := by
  cases b <;> cases b' <;> simp [flag]

theorem memberLabels_inj {node member member' : Str} :
    memberLabels node member = memberLabels node member' ↔ member = member' := by
  simp [memberLabels]

/-- The fail-count that the collector has for a member, 0 if it has none. -/
def Crm.count (crm : Crm) (member : Str) : ℤ := (crm.failcount.get? member).getD 0

section
variable {node base member : Str} {crm : Crm} {b : Bool}

theorem pmSamples_eq (m : Str × Bool) : pmSamples node base crm m =
    ⟨pmOnlineName, memberLabels node m.1, flag m.2⟩ ::
      (rdqmPmResources base).map (fun res =>
        ⟨pmStateName, memberLabels node m.1 ++ [("resource".toList, res)],
          .int (pmCode ((crm.roles.get? res).bind (·.get? m.1)))⟩) ++
      [⟨failcountName, memberLabels node m.1, .int (crm.count m.1)⟩,
        startableSample node m.1 (decide (crm.count m.1 < infinity)),
        readySample node m.1 (m.2 && decide (crm.count m.1 < infinity))] := rfl

theorem mem_pmSamples_startable {m : Str × Bool} : startableSample node member b ∈ pmSamples node base crm m ↔
    m.1 = member ∧ b = decide (crm.count m.1 < infinity) := by
  have hnames : startableName ≠ pmOnlineName ∧ pmStateName ≠ startableName ∧ startableName ≠ failcountName ∧
      startableName ≠ readyName := by decide
  rw [pmSamples_eq]
  simp [startableSample, readySample, hnames, memberLabels_inj, flag_eq_flag, @eq_comm _ member]

theorem mem_pmSamples_ready {m : Str × Bool} : readySample node member b ∈ pmSamples node base crm m ↔
    m.1 = member ∧ b = (m.2 && decide (crm.count m.1 < infinity)) := by
  have hnames : readyName ≠ pmOnlineName ∧ pmStateName ≠ readyName ∧ readyName ≠ failcountName ∧
      readyName ≠ startableName := by decide
  rw [pmSamples_eq]
  simp [startableSample, readySample, hnames, memberLabels_inj, flag_eq_flag, @eq_comm _ member]

theorem startable_iff : startableSample node member b ∈ crmSamples node base crm ↔
    member ∈ crm.online.keys ∧ b = decide (crm.count member < infinity) := by
  unfold crmSamples
  simp only [List.mem_flatMap, mem_pmSamples_startable]
  constructor
  · rintro ⟨m, hm, rfl, hb⟩
    exact ⟨List.mem_map_of_mem hm, hb⟩
  · intro ⟨hm, hb⟩
    obtain ⟨m, hmem, rfl⟩ := List.mem_map.mp hm
    exact ⟨m, hmem, rfl, hb⟩

theorem ready_iff : readySample node member b ∈ crmSamples node base crm ↔
    ∃ online, crm.online.get? member = some online ∧ b = (online && decide (crm.count member < infinity)) := by
  unfold crmSamples
  simp only [List.mem_flatMap, mem_pmSamples_ready]
  constructor
  · rintro ⟨m, hm, rfl, hb⟩
    exact ⟨m.2, Dict.get?_eq_some.mpr hm, hb⟩
  · rintro ⟨online, hm, hb⟩
    exact ⟨(member, online), Dict.get?_eq_some.mp hm, rfl, hb⟩

end

/-! ### When bans are shown -/

/-- The name of a node element. -/
def memberName (n : Element) : Str := n.getD "name".toList []

/-- The fail-counts convert, and the flags of the members are true. -/
structure ShowsBans (node base : Str) (root : Element) : Prop where
  parses : ∀ entry ∈ failcountTexts root base, Parses entry.2
  returns : (crmOf root base).isSome
  startable : ∀ crm, crmOf root base = some crm → ∀ n ∈ nodeElements root,
    (startableSample node (memberName n) true ∈ crmSamples node base crm ↔
      ∀ fc, (memberName n, fc) ∈ failcountTexts root base → ¬ Reaches fc)
  ready : ∀ crm, crmOf root base = some crm → ∀ n ∈ nodeElements root,
    readySample node (memberName n) true ∈ crmSamples node base crm →
      (∃ n' ∈ nodeElements root, memberName n' = memberName n ∧ isTrue n' "online".toList) ∧
        startableSample node (memberName n) true ∈ crmSamples node base crm

section
variable {node base : Str} {root : Element}

theorem online_of_crmOf {crm : Crm} (h : crmOf root base = some crm) :
    crm.online = .ofList ((nodeElements root).map fun n => (memberName n, isTrue n "online".toList)) ∧
      failcountOf (failcountTexts root base) = some crm.failcount := by
  obtain ⟨counts, hcounts, rfl⟩ := Option.map_eq_some_iff.mp h
  exact ⟨rfl, hcounts⟩

theorem returns_iff : (crmOf root base).isSome ↔ ∀ entry ∈ failcountTexts root base, (parseFailcount entry.2).isSome := by
  unfold crmOf failcountOf
  rw [Option.isSome_map]
  exact isSome_foldlM (fun counts entry => by rw [Option.isSome_map]) _ _

/-- The count that is kept reaches INFINITY if the last entry does. -/
theorem count_lt_iff {crm : Crm} (h : crmOf root base = some crm) (member : Str) : crm.count member < infinity ↔
    ∀ fc, lastEntry (failcountTexts root base) member = some fc → ¬ Reaches fc := by
  have hget := get?_failcountOf (online_of_crmOf h).2 member
  unfold Crm.count
  cases hlast : lastEntry (failcountTexts root base) member with
  | none =>
    rw [hlast] at hget
    rw [hget]
    simp [infinity]
  | some fc =>
    rw [hlast, Option.bind_some] at hget
    obtain ⟨n, hn⟩ := Option.isSome_iff_exists.mp (returns_iff.mp (h ▸ rfl) _ (mem_of_lastEntry hlast))
    rw [hget, hn, Option.getD_some, ← not_le, reaches_iff hn]
    simp

theorem startable_iff_last {crm : Crm} (h : crmOf root base = some crm) {n : Element} (hn : n ∈ nodeElements root) :
    startableSample node (memberName n) true ∈ crmSamples node base crm ↔
      ∀ fc, lastEntry (failcountTexts root base) (memberName n) = some fc → ¬ Reaches fc := by
  rw [startable_iff, ← count_lt_iff h]
  have hkey : memberName n ∈ crm.online.keys := by
    rw [(online_of_crmOf h).1, Dict.mem_keys_ofList, List.map_map]
    exact List.mem_map_of_mem hn
  simp [hkey]

theorem ready_online {crm : Crm} (h : crmOf root base = some crm) {member : Str}
    (hready : readySample node member true ∈ crmSamples node base crm) :
    (∃ n ∈ nodeElements root, memberName n = member ∧ isTrue n "online".toList) ∧
      startableSample node member true ∈ crmSamples node base crm := by
  obtain ⟨online, honline, hflags⟩ := ready_iff.mp hready
  obtain ⟨rfl, hstartable⟩ : online = true ∧ crm.count member < infinity := by simpa using hflags.symm
  refine ⟨?_, startable_iff.mpr ⟨Dict.mem_keys_of_get? honline, by simpa using hstartable⟩⟩
  rw [(online_of_crmOf h).1] at honline
  obtain ⟨before, after, hsplit, -⟩ := (Dict.get?_ofList_eq_some _).mp honline
  have hmem : (member, true) ∈ (nodeElements root).map fun n => (memberName n, isTrue n "online".toList) :=
    hsplit ▸ List.mem_append_right before List.mem_cons_self
  obtain ⟨n, hn, heq⟩ := List.mem_map.mp hmem
  exact ⟨n, hn, (Prod.mk.inj heq).1, (Prod.mk.inj heq).2⟩

/-- **Which documents show their bans**: those whose fail-counts convert, and
in which a member's last entry reaches INFINITY if any of them does. -/
theorem showsBans_iff : ShowsBans node base root ↔
    (∀ entry ∈ failcountTexts root base, Converts entry.2) ∧
      ∀ n ∈ nodeElements root, ∀ fc, (memberName n, fc) ∈ failcountTexts root base → Reaches fc →
        ∃ last, lastEntry (failcountTexts root base) (memberName n) = some last ∧ Reaches last := by
  constructor
  · intro h
    refine ⟨fun entry hentry => (parses_iff _).mp (h.parses entry hentry), fun n hn fc hfc hreach => ?_⟩
    obtain ⟨crm, hcrm⟩ := Option.isSome_iff_exists.mp h.returns
    by_contra hlast
    have hshown : startableSample node (memberName n) true ∈ crmSamples node base crm :=
      (startable_iff_last hcrm hn).mpr fun last hl hr => hlast ⟨last, hl, hr⟩
    exact (h.startable crm hcrm n hn).mp hshown fc hfc hreach
  · intro ⟨hconverts, hlast⟩
    have hparses : ∀ entry ∈ failcountTexts root base, Parses entry.2 := fun entry hentry =>
      (parses_iff _).mpr (hconverts entry hentry)
    refine ⟨hparses, returns_iff.mpr fun entry hentry => ?_, fun crm hcrm n hn => ?_, fun crm hcrm n _ => ready_online hcrm⟩
    · obtain ⟨k, hk, -⟩ := hparses entry hentry
      exact hk ▸ rfl
    · rw [startable_iff_last hcrm hn]
      constructor
      · intro h fc hfc hreach
        obtain ⟨last, hl, hr⟩ := hlast n hn fc hfc hreach
        exact h last hl hr
      · exact fun h last hl => h last (mem_of_lastEntry hl)

end

/-! ### A document with two entries -/

def element (tag : String) (attrib : List (String × String)) (children : List Element) : Element :=
  .mk tag.toList (.ofList (attrib.map fun p => (p.1.toList, p.2.toList))) children

/-- A node whose fail-count reached INFINITY, and a later entry of it that says 0. -/
def bannedDocument : Element :=
  element "pacemaker-result" []
    [element "nodes" [] [element "node" [("name", "rdqm-a1"), ("online", "true")] []],
      element "node_history" []
        [element "node" [("name", "rdqm-a1")]
          [element "resource_history" [("id", "rdqmapp"), ("fail-count", "INFINITY")] [],
            element "resource_history" [("id", "rdqmapp"), ("fail-count", "0")] []]]]

theorem banned_shown_startable :
    failcountTexts bannedDocument "rdqmapp".toList =
        [("rdqm-a1".toList, some "INFINITY".toList), ("rdqm-a1".toList, some "0".toList)] ∧
      ¬ ShowsBans "rdqm-a1".toList "rdqmapp".toList bannedDocument := by
  have htexts : failcountTexts bannedDocument "rdqmapp".toList =
      [("rdqm-a1".toList, some "INFINITY".toList), ("rdqm-a1".toList, some "0".toList)] := by decide +kernel
  refine ⟨htexts, fun h => ?_⟩
  have hnames : (nodeElements bannedDocument).map memberName = ["rdqm-a1".toList] := by decide +kernel
  obtain ⟨n, hn, hname⟩ := List.mem_map.mp (hnames ▸ List.mem_singleton.mpr rfl :
    "rdqm-a1".toList ∈ (nodeElements bannedDocument).map memberName)
  have hfirst : (memberName n, some "INFINITY".toList) ∈ failcountTexts bannedDocument "rdqmapp".toList := by
    rw [hname, htexts]
    exact List.mem_cons_self
  obtain ⟨last, hlast, hreach⟩ := (showsBans_iff.mp h).2 n hn _ hfirst ⟨_, rfl, .inl rfl⟩
  -- the entry that is kept says 0
  have hzero : lastEntry (failcountTexts bannedDocument "rdqmapp".toList) (memberName n) = some (some "0".toList) := by
    rw [hname, htexts]
    decide +kernel
  obtain rfl : some "0".toList = last := Option.some.inj (hzero.symm.trans hlast)
  obtain ⟨t, ht, hinf | ⟨-, -, hvalue⟩⟩ := hreach
  · obtain rfl := Option.some.inj ht
    exact absurd hinf (by decide +kernel)
  · obtain rfl := Option.some.inj ht
    exact absurd hvalue (by decide +kernel)

end RdqmState
end Obs
end MqResiliency
