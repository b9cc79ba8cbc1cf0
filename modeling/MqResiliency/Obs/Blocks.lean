/-
# Blocks of samples

A block is a list of samples whose metric names are known, whose series are
distinct, and whose lines read back under a condition (`Block`). Blocks are
made of single samples and composed: one after another, one for each entry of
a dictionary, or left out.

Two samples are of different series if their names differ, or the values of
one label (`Apart`).
-/
import MqResiliency.Obs.Probe

namespace MqResiliency
namespace Obs

open Py Exposition

/-- The name of the metric and those of the labels are what the format wants,
and no label is there twice. -/
def formed (s : Sample) : Bool :=
  isName isMetricChar s.name && (s.labels.all fun l => isName isLabelChar l.1) && decide (s.labels.map Prod.fst).Nodup

/-- A number that a double can be nearest to. -/
def Value.Fits : Value → Prop
  | int n => fits n.natAbs
  | float _ => True

/-- Nothing in a sample has to be escaped, and its value fits. -/
def Reads (s : Sample) : Prop := (∀ l ∈ s.labels, Plain l.2) ∧ s.value.Fits

def Apart (s t : Sample) : Prop := s.name ≠ t.name ∨ ∃ key, s.labels.lookup key ≠ t.labels.lookup key

/-! ### Lines -/

theorem readLine_shown {s : Sample} {t : Exposition.Sample} (h : s.shown = some t) (hs : formed s) :
    readLine t.line = some t ↔ Reads s := by
  obtain ⟨text, htext, rfl⟩ := Option.map_eq_some_iff.mp h
  obtain ⟨⟨hname, hlabels⟩, -⟩ : (isName isMetricChar s.name ∧ ∀ l ∈ s.labels, isName isLabelChar l.1) ∧ _ := by
    simpa [formed] using hs
  have hvalue : isNumber text ↔ s.value.Fits := by
    cases hv : s.value with
    | int n =>
      rw [hv] at htext
      rw [isNumber_str htext]
      exact Iff.rfl
    | float x =>
      rw [hv] at htext
      obtain rfl : x.repr = text := Option.some.inj htext
      exact iff_of_true (isNumber_repr x) trivial
  rw [readLine_line_iff hname hlabels]
  exact and_congr_right' hvalue

theorem mem_of_lookup {l : List (Str × Str)} (hl : (l.map Prod.fst).Nodup) {key v : Str} :
    l.lookup key = some v ↔ (key, v) ∈ l := by
  induction l with
  | nil => simp
  | cons p l ih =>
    obtain ⟨k, w⟩ := p
    have hnodup : k ∉ l.map Prod.fst ∧ (l.map Prod.fst).Nodup := List.nodup_cons.mp hl
    by_cases hk : key = k
    · subst hk
      have hnot : (key, v) ∉ l := fun hmem => hnodup.1 (List.mem_map_of_mem hmem)
      rw [List.lookup_cons_self, Option.some_inj]
      simp [hnot, eq_comm]
    · rw [List.lookup_cons, beq_false_of_ne hk, ih hnodup.2]
      simp [hk]

/-- Samples that are apart are of different series. -/
theorem not_sameSeries {s t : Sample} {s' t' : Exposition.Sample} (hs : s.shown = some s') (ht : t.shown = some t')
    (hfs : formed s) (hft : formed t) (h : Apart s t) : ¬ s'.SameSeries t' := by
  obtain ⟨_, -, rfl⟩ := Option.map_eq_some_iff.mp hs
  obtain ⟨_, -, rfl⟩ := Option.map_eq_some_iff.mp ht
  have hkeys : ∀ s : Sample, formed s → (s.labels.map Prod.fst).Nodup := fun s hs => by
    simp only [formed, Bool.and_eq_true, decide_eq_true_eq] at hs
    exact hs.2
  rintro ⟨hname, hlabels⟩
  rcases h with hne | ⟨key, hne⟩
  · exact hne hname
  · refine hne (Option.ext fun v => ?_)
    rw [mem_of_lookup (hkeys s hfs), mem_of_lookup (hkeys t hft)]
    exact hlabels (key, v)

/-! ### Blocks -/

/-- The samples have these names, are formed and apart; and where `A` holds,
they read back if and only if `P` does. -/
structure Block (A : Prop) (names : List Str) (P : Prop) (l : List Sample) : Prop where
  named : ∀ s ∈ l, s.name ∈ names
  formed : ∀ s ∈ l, formed s
  apart : l.Pairwise Apart
  reads : A → ((∀ s ∈ l, Reads s) ↔ P)

namespace Block

variable {A : Prop} {names names' : List Str} {P Q : Prop} {l k : List Sample}

theorem congr (h : Block A names P l) (hPQ : A → (P ↔ Q)) : Block A names Q l :=
  ⟨h.named, h.formed, h.apart, fun hA => (h.reads hA).trans (hPQ hA)⟩

theorem rename (h : Block A names P l) (hl : ∀ s ∈ l, s.name ∈ names') : Block A names' P l :=
  ⟨hl, h.formed, h.apart, h.reads⟩

theorem nil : Block A names True [] where
  named := List.forall_mem_nil _
  formed := List.forall_mem_nil _
  apart := .nil
  reads _ := iff_of_true (List.forall_mem_nil _) trivial

/-- Two blocks whose samples are apart. -/
theorem append_of_apart (h : Block A names P l) (h' : Block A names' Q k) (hapart : ∀ s ∈ l, ∀ t ∈ k, Apart s t) :
    Block A (names ++ names') (P ∧ Q) (l ++ k) where
  named s hs := by
    rw [List.mem_append]
    exact (List.mem_append.mp hs).imp (h.named s) (h'.named s)
  formed s hs := (List.mem_append.mp hs).elim (h.formed s) (h'.formed s)
  apart := List.pairwise_append.mpr ⟨h.apart, h'.apart, hapart⟩
  reads hA := by rw [List.forall_mem_append, h.reads hA, h'.reads hA]

theorem append_of_names (h : Block A names P l) (h' : Block A names' Q k) (hnames : ∀ n ∈ names, n ∉ names') :
    Block A (names ++ names') (P ∧ Q) (l ++ k) := by
  refine h.append_of_apart h' fun s hs t ht => .inl fun hname => ?_
  exact hnames s.name (h.named s hs) (hname ▸ h'.named t ht)

theorem append (h : Block A names P l) (h' : Block A names' Q k)
    (hnames : (names.all fun n => !names'.contains n) = true) : Block A (names ++ names') (P ∧ Q) (l ++ k) :=
  h.append_of_names h' (by simpa using hnames)

/-- A sample before a block that lacks its name. -/
theorem cons {n : Str} {s : Sample} (h : Block A names P l)
    (hs : (Obs.formed s && s.name = n && !names.contains n) = true) : Block A (n :: names) (Reads s ∧ P) (s :: l) := by
  obtain ⟨⟨hformed, rfl⟩, hnew⟩ : (Obs.formed s ∧ s.name = n) ∧ n ∉ names := by simpa using hs
  have hone : Block A [s.name] (Reads s) [s] :=
    ⟨by simp, by simpa using hformed, List.pairwise_singleton _ _, fun _ => by simp⟩
  exact hone.append_of_names h (by simpa using hnew)

/-- A block that is there for a value. -/
theorem elim {α : Type} {f : α → List Sample} {P : α → Prop} {o : Option α} (h : ∀ a, o = some a → Block A names (P a) (f a)) :
    Block A names (∀ a, o = some a → P a) (o.elim [] f) := by
  cases o with
  | none => exact nil.congr fun _ => by simp
  | some a => exact (h a rfl).congr fun _ => by simp

theorem ite {c : Prop} [Decidable c] (h : c → Block A names P l) : Block A names (c → P) (if c then l else []) := by
  by_cases hc : c
  · rw [if_pos hc]
    exact (h hc).congr fun _ => by simp [hc]
  · rw [if_neg hc]
    exact nil.congr fun _ => by simp [hc]

/-- A block for each element. The value of a label, whose key goes by the
metric, tells them apart. -/
theorem flatMap {α : Type} {f : α → List Sample} {P : α → Prop} {as : List α} (key : Str → Str) (g : α → Str)
    (hnodup : (as.map g).Nodup) (h : ∀ a ∈ as, Block A names (P a) (f a))
    (hkey : ∀ a ∈ as, ∀ s ∈ f a, s.labels.lookup (key s.name) = some (g a)) :
    Block A names (∀ a ∈ as, P a) (as.flatMap f) where
  named s hs := by
    obtain ⟨a, ha, hs⟩ := List.mem_flatMap.mp hs
    exact (h a ha).named s hs
  formed s hs := by
    obtain ⟨a, ha, hs⟩ := List.mem_flatMap.mp hs
    exact (h a ha).formed s hs
  apart := by
    refine List.pairwise_flatMap.mpr ⟨fun a ha => (h a ha).apart, ?_⟩
    have hne : as.Pairwise fun a b => g a ≠ g b := List.pairwise_map.mp hnodup
    refine hne.imp_of_mem fun {a b} ha hb hab s hs t ht => ?_
    by_cases hname : s.name = t.name
    · refine .inr ⟨key s.name, ?_⟩
      rw [hkey a ha s hs, hname, hkey b hb t ht]
      exact fun heq => hab (Option.some.inj heq)
    · exact .inl hname
  reads hA := by
    rw [List.forall_mem_flatMap]
    exact forall₂_congr fun a ha => (h a ha).reads hA

/-- One sample for each element. -/
theorem map {α : Type} {f : α → Sample} {as : List α} {name : Str} (key : Str) (g : α → Str)
    (hnodup : (as.map g).Nodup) (h : ∀ a, (f a).name = name ∧ Obs.formed (f a) ∧ (f a).labels.lookup key = some (g a)) :
    Block A [name] (∀ a ∈ as, Reads (f a)) (as.map f) := by
  rw [List.map_eq_flatMap]
  refine flatMap (fun _ => key) g hnodup (fun a _ => ?_) fun a _ s hs => ?_
  · have hone : Block A [name] (Reads (f a) ∧ True) [f a] := Block.nil.cons (by simpa using And.intro (h a).2.1 (h a).1)
    exact hone.congr fun _ => and_iff_left trivial
  · rw [List.mem_singleton.mp hs]
    exact (h a).2.2

end Block

/-! ### Textfiles -/

/-- Every line reads back as its sample, and no series is there twice. -/
def Valid (shown : List Exposition.Sample) : Prop :=
  (∀ s ∈ shown, readLine s.line = some s) ∧ shown.Pairwise fun s t => ¬ s.SameSeries t

theorem forall₂_shown : ∀ {l : List Sample} {shown : List Exposition.Sample}, l.mapM Sample.shown = some shown →
    List.Forall₂ (fun s t => s.shown = some t) l shown
  | [], shown, h => by
    obtain rfl : [] = shown := by simpa using h
    exact .nil
  | s :: l, shown, h => by
    rw [List.mapM_cons] at h
    obtain ⟨t, ht, h⟩ := Option.bind_eq_some_iff.mp h
    obtain ⟨ts, hts, h⟩ := Option.bind_eq_some_iff.mp h
    obtain rfl := Option.some.inj h
    exact .cons ht (forall₂_shown hts)

/-- **A block is a valid textfile on its condition.** -/
theorem Block.valid_iff {names : List Str} {P : Prop} {l : List Sample} {shown : List Exposition.Sample}
    (h : Block True names P l) (hshown : l.mapM Sample.shown = some shown) : Valid shown ↔ P := by
  have hzip := forall₂_shown hshown
  have hreads : (∀ t ∈ shown, readLine t.line = some t) ↔ ∀ s ∈ l, Reads s := by
    have hformed := h.formed
    clear hshown h
    induction hzip with
    | nil => simp
    | cons hst _ ih =>
      rw [List.forall_mem_cons] at hformed
      rw [List.forall_mem_cons, List.forall_mem_cons]
      exact and_congr (readLine_shown hst hformed.1) (ih hformed.2)
  have hapart : shown.Pairwise fun s t => ¬ s.SameSeries t := by
    have hformed := h.formed
    have hapart := h.apart
    clear hshown h hreads
    induction hzip with
    | nil => exact .nil
    | @cons s t l shown hst htail ih =>
      rw [List.forall_mem_cons] at hformed
      obtain ⟨hhead, hapart⟩ := List.pairwise_cons.mp hapart
      refine List.pairwise_cons.mpr ⟨fun t' ht' => ?_, ih hformed.2 hapart⟩
      obtain ⟨s', hs', hst'⟩ : ∃ s' ∈ l, s'.shown = some t' := by
        obtain ⟨i, hi, rfl⟩ := List.getElem_of_mem ht'
        have hlen := htail.length_eq
        exact ⟨l[i], List.getElem_mem _, List.forall₂_iff_get.mp htail |>.2 i (by omega) hi⟩
      exact not_sameSeries hst hst' hformed.1 (hformed.2 s' hs') (hhead s' hs')
  rw [Valid, hreads, h.reads trivial]
  exact and_iff_left hapart

end Obs
end MqResiliency
