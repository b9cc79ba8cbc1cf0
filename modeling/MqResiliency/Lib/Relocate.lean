/-
# Moving trees entry by entry

What is below the source of a route (`Route`) goes to the same place below its
destination: what the destination lacks is moved, what it has already is
dropped from the source. After every single operation each entry is either
where it was or where it goes (`Underway`), so nothing is lost wherever it
stops, and what is left to do is still to be done (`Pending`). All operations
work (`along_ops`), and what is started again from where it stopped ends as it
would have (`settled_unique`).

Key theorems: `Underway.moved`, `Underway.removed`, `Clears.append`,
`Clears.dir`, `along_ops`, `settled_unique`.
-/
import MqResiliency.Lib.Paths

namespace MqResiliency
namespace Py

/-! ### Paths apart -/

/-- Neither path is below the other. -/
def Apart (p q : Path) : Prop := ¬ p <+: q ∧ ¬ q <+: p

theorem Apart.symm {p q : Path} (h : Apart p q) : Apart q p := ⟨h.2, h.1⟩

/-- Nor are the paths below them. -/
theorem Apart.append {p q : Path} (h : Apart p q) (x y : Path) : ¬ p ++ x <+: q ++ y := by
  intro hxy
  rcases List.prefix_or_prefix_of_prefix ((List.prefix_append p x).trans hxy) (List.prefix_append q y) with hpq | hqp
  · exact h.1 hpq
  · exact h.2 hqp

theorem Apart.not_append {p q : Path} (h : Apart p q) (y : Path) : ¬ p <+: q ++ y := by
  simpa using h.append [] y

theorem Apart.appended {p q : Path} (h : Apart p q) (x y : Path) : Apart (p ++ x) (q ++ y) :=
  ⟨h.append x y, h.symm.append y x⟩

theorem apart_child (p : Path) {n m : Str} (h : n ≠ m) : Apart (p ++ [n]) (p ++ [m]) := by
  have hne : ∀ {n m : Str}, n ≠ m → ¬ p ++ [n] <+: p ++ [m] := by
    intro n m h hp
    have heq := hp.eq_of_length (by simp)
    exact h (by simpa using heq)
  exact ⟨hne h, hne h.symm⟩

/-! ### Routes -/

/-- The entry at `src` goes to the directory `dir`, under its name there. -/
structure Route : Type where
  src : Path
  dir : Path
  name : Str
deriving DecidableEq

/-- Where the entry goes to. -/
def Route.dst (a : Route) : Path := a.dir ++ [a.name]

theorem Route.dir_prefix (a : Route) : a.dir <+: a.dst := List.prefix_append _ _

/-- Sources and destinations have nothing to do with one another. -/
structure Separate (rs : List Route) : Prop where
  src : ∀ a ∈ rs, ∀ b ∈ rs, a ≠ b → Apart a.src b.src
  dst : ∀ a ∈ rs, ∀ b ∈ rs, a ≠ b → Apart a.dst b.dst
  across : ∀ a ∈ rs, ∀ b ∈ rs, Apart a.src b.dst

variable {rs : List Route} {t₀ t : Tree} {a b : Route}

theorem Separate.src_dir (h : Separate rs) (ha : a ∈ rs) (hb : b ∈ rs) : ¬ a.src <+: b.dir := fun hp =>
  (h.across a ha b hb).1 (hp.trans b.dir_prefix)

theorem Separate.dst_dir (h : Separate rs) (ha : a ∈ rs) (hb : b ∈ rs) : ¬ a.dst <+: b.dir := by
  intro hp
  by_cases hab : a = b
  · have hlen := hp.length_le
    rw [hab, Route.dst, List.length_append, List.length_singleton] at hlen
    omega
  · exact (h.dst a ha b hb hab).1 (hp.trans b.dir_prefix)

/-- Entries are where they were or where they go. -/
structure Underway (rs : List Route) (t₀ t : Tree) : Prop where
  entry : ∀ a ∈ rs, ∀ r,
    (t.node (a.src ++ r) = t₀.node (a.src ++ r) ∧ t.node (a.dst ++ r) = t₀.node (a.dst ++ r)) ∨
      (t.node (a.src ++ r) = none ∧ t.node (a.dst ++ r) = (t₀.node (a.dst ++ r)).or (t₀.node (a.src ++ r)))
  other : ∀ q, (∀ a ∈ rs, ¬ a.src <+: q ∧ ¬ a.dst <+: q) → t.node q = t₀.node q ∨
    (t₀.node q = none ∧ t.node q = some .dir ∧ ∃ a ∈ rs, q = a.dir)

theorem Underway.refl (rs : List Route) (t : Tree) : Underway rs t t where
  entry _ _ _ := .inl ⟨rfl, rfl⟩
  other _ _ := .inl rfl

/-- What there was outside the sources stays as it was. -/
theorem Underway.same (h : Underway rs t₀ t) {q : Path} (hq : t₀.node q ≠ none) (hsrc : ∀ a ∈ rs, ¬ a.src <+: q) :
    t.node q = t₀.node q := by
  by_cases hdst : ∃ a ∈ rs, a.dst <+: q
  · obtain ⟨a, ha, r, rfl⟩ := hdst
    rcases h.entry a ha r with ⟨-, hd⟩ | ⟨-, hd⟩
    · exact hd
    · obtain ⟨x, hx⟩ := Option.ne_none_iff_exists'.mp hq
      rw [hd, hx, Option.some_or]
  · rcases h.other q fun a ha => ⟨hsrc a ha, fun hp => hdst ⟨a, ha, hp⟩⟩ with hsame | ⟨hnone, -⟩
    · exact hsame
    · exact absurd hnone hq

/-- What is in a source was there. -/
theorem Underway.src (h : Underway rs t₀ t) (ha : a ∈ rs) {r : Path} (hr : t.node (a.src ++ r) ≠ none) :
    t.node (a.src ++ r) = t₀.node (a.src ++ r) ∧ t.node (a.dst ++ r) = t₀.node (a.dst ++ r) := by
  rcases h.entry a ha r with hsame | ⟨hnone, -⟩
  · exact hsame
  · exact absurd hnone hr

/-! ### Items -/

/-- What of a route: the entry below its source. -/
abbrev Spot : Type := Route × Path

def Spot.src (x : Spot) : Path := x.1.src ++ x.2

def Spot.dst (x : Spot) : Path := x.1.dst ++ x.2

theorem Spot.src_prefix (x : Spot) : x.1.src <+: x.src := List.prefix_append _ _

theorem Spot.dst_prefix (x : Spot) : x.1.dst <+: x.dst := List.prefix_append _ _

theorem Separate.item (hsep : Separate rs) {x : Spot} (hx : x.1 ∈ rs) : Apart x.src x.dst :=
  ⟨(hsep.across x.1 hx x.1 hx).append _ _, (hsep.across x.1 hx x.1 hx).symm.append _ _⟩

/-- An item's source is moved to its destination. -/
theorem Underway.moved (hsep : Separate rs) (h : Underway rs t₀ t) {x : Spot} (hx : x.1 ∈ rs)
    (hdst : t.node x.dst = none) {t' : Tree} (ht : Tree.Moves t t' x.src x.dst) : Underway rs t₀ t' where
  entry a ha r := by
    have hcross := hsep.across
    by_cases hax : a = x.1
    · subst hax
      have hs : ¬ x.dst <+: x.1.src ++ r := (hcross x.1 hx x.1 hx).symm.append _ _
      have hd : ¬ x.src <+: x.1.dst ++ r := (hcross x.1 hx x.1 hx).append _ _
      by_cases hr : x.2 <+: r
      · -- below the item: nothing was at the destination
        obtain ⟨y, rfl⟩ := hr
        have hnone : t.node (x.1.dst ++ (x.2 ++ y)) = none := by
          rw [← List.append_assoc]
          exact Tree.node_append_eq_none hdst y
        have hto : t'.node (x.1.dst ++ (x.2 ++ y)) = t.node (x.1.src ++ (x.2 ++ y)) := by
          rw [← List.append_assoc, ← List.append_assoc]
          exact ht.dst y
        have hfrom : t'.node (x.1.src ++ (x.2 ++ y)) = none := by
          rw [← List.append_assoc]
          exact ht.src y fun hp => hs (by rw [← List.append_assoc]; exact hp)
        refine .inr ⟨hfrom, ?_⟩
        rw [hto]
        rcases h.entry x.1 hx (x.2 ++ y) with ⟨hsrc, hdst'⟩ | ⟨hsrc, hdst'⟩
        · rw [hsrc, ← hdst', hnone, Option.none_or]
        · rw [hsrc, ← hdst', hnone]
      · have hs' : ¬ x.src <+: x.1.src ++ r := fun hp => hr ((List.prefix_append_right_inj _).mp hp)
        have hd' : ¬ x.dst <+: x.1.dst ++ r := fun hp => hr ((List.prefix_append_right_inj _).mp hp)
        rw [ht.other _ hs' hs, ht.other _ hd hd']
        exact h.entry x.1 hx r
    · have hxa : x.1 ≠ a := Ne.symm hax
      rw [ht.other _ ((hsep.src x.1 hx a ha hxa).append _ _) ((hcross a ha x.1 hx).symm.append _ _),
        ht.other _ ((hcross x.1 hx a ha).append _ _) ((hsep.dst x.1 hx a ha hxa).append _ _)]
      exact h.entry a ha r
  other u hu := by
    have hs : ¬ x.src <+: u := fun hp => (hu x.1 hx).1 (x.src_prefix.trans hp)
    have hd : ¬ x.dst <+: u := fun hp => (hu x.1 hx).2 (x.dst_prefix.trans hp)
    rw [ht.other u hs hd]
    exact h.other u hu

/-- An item's source goes; its destination has it. -/
theorem Underway.removed (hsep : Separate rs) (h : Underway rs t₀ t) {x : Spot} (hx : x.1 ∈ rs)
    (hdst : t.node x.dst ≠ none) {t' : Tree} (ht : Tree.Puts t t' x.src none) : Underway rs t₀ t' where
  entry a ha r := by
    have hd : a.dst ++ r ≠ x.src := fun he =>
      (hsep.across x.1 hx a ha).append x.2 r (by rw [he]; exact List.prefix_rfl)
    rw [ht.other _ hd]
    by_cases hs : a.src ++ r = x.src
    · obtain ⟨rfl, rfl⟩ : a = x.1 ∧ r = x.2 := by
        by_cases hax : a = x.1
        · exact ⟨hax, List.append_cancel_left (hax ▸ hs)⟩
        · exact absurd (hs ▸ List.prefix_rfl) ((hsep.src x.1 hx a ha (Ne.symm hax)).append x.2 r)
      refine .inr ⟨hs ▸ ht.there, ?_⟩
      rcases h.entry x.1 hx x.2 with ⟨-, hd'⟩ | ⟨-, hd'⟩
      · obtain ⟨y, hy⟩ := Option.ne_none_iff_exists'.mp hdst
        have hy' : t₀.node (x.1.dst ++ x.2) = some y := hd'.symm.trans hy
        rw [hd', hy', Option.some_or]
      · exact hd'
    · rw [ht.other _ hs]
      exact h.entry a ha r
  other u hu := by
    have hne : u ≠ x.src := fun he => (hu x.1 hx).1 (he ▸ List.prefix_append _ _)
    rw [ht.other u hne]
    exact h.other u hu

/-- A route's directory is made. -/
theorem Underway.made (hsep : Separate rs) (h : Underway rs t₀ t) (ha : a ∈ rs) (hnone : t.node a.dir = none)
    {t' : Tree} (ht : Tree.Puts t t' a.dir (some .dir)) : Underway rs t₀ t' where
  entry b hb r := by
    have hs : b.src ++ r ≠ a.dir := fun he => hsep.src_dir hb ha (he ▸ List.prefix_append _ _)
    have hd : b.dst ++ r ≠ a.dir := fun he => hsep.dst_dir hb ha (he ▸ List.prefix_append _ _)
    rw [ht.other _ hs, ht.other _ hd]
    exact h.entry b hb r
  other u hu := by
    by_cases hne : u = a.dir
    · subst hne
      rcases h.other _ hu with hsame | ⟨hold, -⟩
      · exact .inr ⟨hsame.symm.trans hnone, ht.there, a, ha, rfl⟩
      · exact .inr ⟨hold, ht.there, a, ha, rfl⟩
    · rw [ht.other u hne]
      exact h.other u hu

/-! ### What is left to do -/

/-- What is left: moves, drops of what the destination has, and directories to
prune, each once all below is gone. -/
structure Pending (rs : List Route) (t : Tree) (ms us ps : List Spot) : Prop where
  move_mem : ∀ x ∈ ms, x.1 ∈ rs
  move : ∀ x ∈ ms, t.node x.src ≠ none ∧ t.node x.dst = none ∧ (x.2 ≠ [] → t.node x.dst.dropLast = some .dir)
  apart : ms.Pairwise fun x y => Apart x.src y.src
  drop_mem : ∀ x ∈ us, x.1 ∈ rs
  drop : ∀ x ∈ us, t.node x.src ≠ none ∧ t.node x.src ≠ some .dir ∧ t.node x.dst ≠ none
  distinct : us.Pairwise fun x y => x.src ≠ y.src
  prune_mem : ∀ x ∈ ps, x.1 ∈ rs
  prune : ∀ x ∈ ps, t.node x.src = some .dir ∧ t.node x.dst ≠ none
  order : ps.Pairwise fun x y => ¬ x.src <+: y.src
  cover : ∀ a ∈ rs, ∀ r, t.node (a.src ++ r) ≠ none →
    (∃ x ∈ ms, x.src <+: a.src ++ r) ∨ (∃ x ∈ us, x.src = a.src ++ r) ∨ ∃ x ∈ ps, x.src = a.src ++ r

variable {t' : Tree} {x y : Spot} {ms us ps : List Spot}

/-- Sources are below one another as destinations are. -/
theorem Separate.prefix_iff (hsep : Separate rs) (hx : x.1 ∈ rs) (hy : y.1 ∈ rs) :
    x.src <+: y.src ↔ x.dst <+: y.dst := by
  by_cases hxy : x.1 = y.1
  · unfold Spot.src Spot.dst
    rw [hxy, List.prefix_append_right_inj, List.prefix_append_right_inj]
  · exact iff_of_false ((hsep.src _ hx _ hy hxy).append _ _) ((hsep.dst _ hx _ hy hxy).append _ _)

theorem Separate.src_dst (hsep : Separate rs) (hx : x.1 ∈ rs) (hy : y.1 ∈ rs) : ¬ x.src <+: y.dst :=
  (hsep.across _ hx _ hy).append _ _

theorem Separate.dst_src (hsep : Separate rs) (hx : x.1 ∈ rs) (hy : y.1 ∈ rs) : ¬ x.dst <+: y.src :=
  (hsep.across _ hy _ hx).symm.append _ _

/-- The next move is done. -/
theorem Pending.moved (hsep : Separate rs) (h : Pending rs t (x :: ms) us ps) (ht : Tree.Moves t t' x.src x.dst) :
    Pending rs t' ms us ps := by
  have hx : x.1 ∈ rs := h.move_mem x List.mem_cons_self
  have hnone : t.node x.dst = none := (h.move x List.mem_cons_self).2.1
  obtain ⟨hapart, hrest⟩ := List.pairwise_cons.mp h.apart
  have hsrc : ∀ y : Spot, y.1 ∈ rs → ¬ x.src <+: y.src → t'.node y.src = t.node y.src := fun y hy hne =>
    ht.other _ hne (hsep.dst_src hx hy)
  have hdst : ∀ y : Spot, y.1 ∈ rs → ¬ x.src <+: y.src → t'.node y.dst = t.node y.dst := fun y hy hne =>
    ht.other _ (hsep.src_dst hx hy) fun hp => hne ((hsep.prefix_iff hx hy).mpr hp)
  -- what has its like at the destination is not below `x`
  have hheld : ∀ y : Spot, y.1 ∈ rs → t.node y.dst ≠ none → ¬ x.src <+: y.src := by
    intro y hy hne hp
    obtain ⟨z, hz⟩ := (hsep.prefix_iff hx hy).mp hp
    exact hne (hz ▸ Tree.node_append_eq_none hnone z)
  exact {
    move_mem := fun y hy => h.move_mem y (List.mem_cons_of_mem _ hy)
    move := fun y hy => by
      have hy' : y.1 ∈ rs := h.move_mem y (List.mem_cons_of_mem _ hy)
      have hne : ¬ x.src <+: y.src := (hapart y hy).1
      obtain ⟨hs, hd, hparent⟩ := h.move y (List.mem_cons_of_mem _ hy)
      rw [hsrc y hy' hne, hdst y hy' hne]
      refine ⟨hs, hd, fun hnil => ?_⟩
      rw [ht.other _ (fun hp => hsep.src_dst hx hy' (hp.trans (List.dropLast_prefix _)))
        (fun hp => hne ((hsep.prefix_iff hx hy').mpr (hp.trans (List.dropLast_prefix _))))]
      exact hparent hnil
    apart := hrest
    drop_mem := h.drop_mem
    drop := fun y hy => by
      have hne := hheld y (h.drop_mem y hy) (h.drop y hy).2.2
      rw [hsrc y (h.drop_mem y hy) hne, hdst y (h.drop_mem y hy) hne]
      exact h.drop y hy
    distinct := h.distinct
    prune_mem := h.prune_mem
    prune := fun y hy => by
      have hne := hheld y (h.prune_mem y hy) (h.prune y hy).2
      rw [hsrc y (h.prune_mem y hy) hne, hdst y (h.prune_mem y hy) hne]
      exact h.prune y hy
    order := h.order
    cover := fun a ha r hr => by
      have hne : ¬ x.src <+: a.src ++ r := by
        rintro ⟨z, hz⟩
        have hout : ¬ x.dst <+: x.src ++ z := by
          rw [hz]
          exact hsep.dst_src (y := (a, r)) hx ha
        exact hr (hz ▸ ht.src z hout)
      have hsame : t'.node (a.src ++ r) = t.node (a.src ++ r) := hsrc (a, r) ha hne
      rw [hsame] at hr
      rcases h.cover a ha r hr with ⟨y, hy, hp⟩ | hcov
      · rcases List.mem_cons.mp hy with rfl | hy
        · exact absurd hp hne
        · exact .inl ⟨y, hy, hp⟩
      · exact .inr hcov }

/-- The next drop is done, after all moves. -/
theorem Pending.dropped (hsep : Separate rs) (h : Pending rs t [] (x :: us) ps) (ht : Tree.Puts t t' x.src none) :
    Pending rs t' [] us ps := by
  have hx : x.1 ∈ rs := h.drop_mem x List.mem_cons_self
  obtain ⟨hdistinct, hrest⟩ := List.pairwise_cons.mp h.distinct
  have hdst : ∀ y : Spot, y.1 ∈ rs → t'.node y.dst = t.node y.dst := fun y hy =>
    ht.other _ fun he => hsep.src_dst hx hy (he ▸ List.prefix_rfl)
  exact {
    move_mem := fun y hy => absurd hy (by simp)
    move := fun y hy => absurd hy (by simp)
    apart := List.Pairwise.nil
    drop_mem := fun y hy => h.drop_mem y (List.mem_cons_of_mem _ hy)
    drop := fun y hy => by
      rw [ht.other _ (Ne.symm (hdistinct y hy)), hdst y (h.drop_mem y (List.mem_cons_of_mem _ hy))]
      exact h.drop y (List.mem_cons_of_mem _ hy)
    distinct := hrest
    prune_mem := h.prune_mem
    prune := fun y hy => by
      have hne : y.src ≠ x.src := fun he => (h.drop x List.mem_cons_self).2.1 (he ▸ (h.prune y hy).1)
      rw [ht.other _ hne, hdst y (h.prune_mem y hy)]
      exact h.prune y hy
    order := h.order
    cover := fun a ha r hr => by
      have hne : a.src ++ r ≠ x.src := fun he => hr (he ▸ ht.there)
      rw [ht.other _ hne] at hr
      rcases h.cover a ha r hr with ⟨y, hy, -⟩ | ⟨y, hy, hs⟩ | hcov
      · exact absurd hy (by simp)
      · rcases List.mem_cons.mp hy with rfl | hy
        · exact absurd hs.symm hne
        · exact .inr (.inl ⟨y, hy, hs⟩)
      · exact .inr (.inr hcov) }

/-- Nothing is left below the next directory to prune. -/
theorem Pending.empty (h : Pending rs t [] [] (x :: ps)) (n : Str) : t.node (x.src ++ [n]) = none := by
  by_contra hne
  rw [Spot.src, List.append_assoc] at hne
  rcases h.cover x.1 (h.prune_mem x List.mem_cons_self) _ hne with ⟨y, hy, -⟩ | ⟨y, hy, -⟩ | ⟨y, hy, hs⟩
  · exact absurd hy (by simp)
  · exact absurd hy (by simp)
  · have hbelow : x.src <+: y.src := by
      rw [hs, ← List.append_assoc]
      exact List.prefix_append _ _
    rcases List.mem_cons.mp hy with rfl | hy
    · have hlen := congrArg List.length hs
      simp [Spot.src] at hlen
    · exact (List.pairwise_cons.mp h.order).1 y hy hbelow

/-- The next directory is pruned, after all drops. -/
theorem Pending.pruned (hsep : Separate rs) (h : Pending rs t [] [] (x :: ps)) (ht : Tree.Puts t t' x.src none) :
    Pending rs t' [] [] ps := by
  have hx : x.1 ∈ rs := h.prune_mem x List.mem_cons_self
  obtain ⟨horder, hrest⟩ := List.pairwise_cons.mp h.order
  exact {
    move_mem := fun y hy => absurd hy (by simp)
    move := fun y hy => absurd hy (by simp)
    apart := List.Pairwise.nil
    drop_mem := fun y hy => absurd hy (by simp)
    drop := fun y hy => absurd hy (by simp)
    distinct := List.Pairwise.nil
    prune_mem := fun y hy => h.prune_mem y (List.mem_cons_of_mem _ hy)
    prune := fun y hy => by
      have hy' : y.1 ∈ rs := h.prune_mem y (List.mem_cons_of_mem _ hy)
      have hne : y.src ≠ x.src := fun he => horder y hy (he ▸ List.prefix_rfl)
      rw [ht.other _ hne, ht.other _ fun he => hsep.src_dst hx hy' (he ▸ List.prefix_rfl)]
      exact h.prune y (List.mem_cons_of_mem _ hy)
    order := hrest
    cover := fun a ha r hr => by
      have hne : a.src ++ r ≠ x.src := fun he => hr (he ▸ ht.there)
      rw [ht.other _ hne] at hr
      rcases h.cover a ha r hr with ⟨y, hy, -⟩ | ⟨y, hy, -⟩ | ⟨y, hy, hs⟩
      · exact absurd hy (by simp)
      · exact absurd hy (by simp)
      · rcases List.mem_cons.mp hy with rfl | hy
        · exact absurd hs.symm hne
        · exact .inr (.inr ⟨y, hy, hs⟩) }

/-- A route's directory is made. -/
theorem Pending.made (hsep : Separate rs) (h : Pending rs t ms us ps) (ha : a ∈ rs)
    (ht : Tree.Puts t t' a.dir (some .dir)) : Pending rs t' ms us ps := by
  have hsrc : ∀ y : Spot, y.1 ∈ rs → t'.node y.src = t.node y.src := fun y hy =>
    ht.other _ fun he => hsep.src_dir hy ha (he ▸ y.src_prefix)
  have hdst : ∀ y : Spot, y.1 ∈ rs → t'.node y.dst = t.node y.dst := fun y hy =>
    ht.other _ fun he => hsep.dst_dir hy ha (he ▸ y.dst_prefix)
  exact {
    move_mem := h.move_mem
    move := fun y hy => by
      obtain ⟨hs, hd, hparent⟩ := h.move y hy
      rw [hsrc y (h.move_mem y hy), hdst y (h.move_mem y hy)]
      refine ⟨hs, hd, fun hnil => ?_⟩
      by_cases he : y.dst.dropLast = a.dir
      · rw [he, ht.there]
      · rw [ht.other _ he]
        exact hparent hnil
    apart := h.apart
    drop_mem := h.drop_mem
    drop := fun y hy => by
      rw [hsrc y (h.drop_mem y hy), hdst y (h.drop_mem y hy)]
      exact h.drop y hy
    distinct := h.distinct
    prune_mem := h.prune_mem
    prune := fun y hy => by
      rw [hsrc y (h.prune_mem y hy), hdst y (h.prune_mem y hy)]
      exact h.prune y hy
    order := h.order
    cover := fun b hb r hr => h.cover b hb r (hsrc (b, r) hb ▸ hr) }

/-! ### What a plan clears -/

/-- A plan for some items, each with all that is below it. -/
structure Clears (t : Tree) (xs ms us ps : List Spot) : Prop where
  within : ∀ y, y ∈ ms ∨ y ∈ us ∨ y ∈ ps → ∃ x ∈ xs, y.1 = x.1 ∧ x.2 <+: y.2
  move : ∀ y ∈ ms, t.node y.src ≠ none ∧ t.node y.dst = none ∧ (y.2 ≠ [] → t.node y.dst.dropLast = some .dir)
  apart : ms.Pairwise fun y z => Apart y.src z.src
  drop : ∀ y ∈ us, t.node y.src ≠ none ∧ t.node y.src ≠ some .dir ∧ t.node y.dst ≠ none
  distinct : us.Pairwise fun y z => y.src ≠ z.src
  prune : ∀ y ∈ ps, t.node y.src = some .dir ∧ t.node y.dst ≠ none
  order : ps.Pairwise fun y z => ¬ y.src <+: z.src
  cover : ∀ x ∈ xs, ∀ r, t.node (x.src ++ r) ≠ none →
    (∃ y ∈ ms, y.src <+: x.src ++ r) ∨ (∃ y ∈ us, y.src = x.src ++ r) ∨ ∃ y ∈ ps, y.src = x.src ++ r

variable {xs xs' ms' us' ps' : List Spot}

theorem Clears.nil : Clears t [] [] [] [] where
  within y h := by simp at h
  move y h := by simp at h
  apart := .nil
  drop y h := by simp at h
  distinct := .nil
  prune y h := by simp at h
  order := .nil
  cover x h := by simp at h

/-- A single move. -/
theorem Clears.move_one (hsrc : t.node x.src ≠ none) (hdst : t.node x.dst = none)
    (hdir : x.2 ≠ [] → t.node x.dst.dropLast = some .dir) : Clears t [x] [x] [] [] where
  within y h := ⟨x, by simp, by simp_all⟩
  move y h := by
    obtain rfl := List.mem_singleton.mp h
    exact ⟨hsrc, hdst, hdir⟩
  apart := List.pairwise_singleton _ _
  drop y h := by simp at h
  distinct := .nil
  prune y h := by simp at h
  order := .nil
  cover y h r _ := by
    obtain rfl := List.mem_singleton.mp h
    exact .inl ⟨y, h, List.prefix_append _ _⟩

/-- A single drop. -/
theorem Clears.drop_one (hsrc : t.node x.src ≠ none) (hfile : t.node x.src ≠ some .dir) (hdst : t.node x.dst ≠ none) :
    Clears t [x] [] [x] [] where
  within y h := ⟨x, by simp, by simp_all⟩
  move y h := by simp at h
  apart := .nil
  drop y h := by
    obtain rfl := List.mem_singleton.mp h
    exact ⟨hsrc, hfile, hdst⟩
  distinct := List.pairwise_singleton _ _
  prune y h := by simp at h
  order := .nil
  cover y h r hr := by
    obtain rfl := List.mem_singleton.mp h
    have hnil : r = [] := by
      by_contra hne
      exact hfile (Tree.node_of_append hr hne)
    exact .inr (.inl ⟨y, h, by rw [hnil, List.append_nil]⟩)

/-- What is within an item has its source below it. -/
theorem Spot.src_of_within {x y : Spot} (h : y.1 = x.1 ∧ x.2 <+: y.2) : ∃ r, y.src = x.src ++ r := by
  obtain ⟨hroute, r, hr⟩ := h
  exact ⟨r, by rw [Spot.src, Spot.src, hroute, ← hr, List.append_assoc]⟩

theorem Clears.cross (h : Clears t xs ms us ps) (h' : Clears t xs' ms' us' ps')
    (hapart : ∀ x ∈ xs, ∀ y ∈ xs', Apart x.src y.src) (hy : y ∈ ms ∨ y ∈ us ∨ y ∈ ps) {z : Spot}
    (hz : z ∈ ms' ∨ z ∈ us' ∨ z ∈ ps') : Apart y.src z.src := by
  obtain ⟨x, hx, hwithin⟩ := h.within y hy
  obtain ⟨x', hx', hwithin'⟩ := h'.within z hz
  obtain ⟨r, hr⟩ := Spot.src_of_within hwithin
  obtain ⟨r', hr'⟩ := Spot.src_of_within hwithin'
  rw [hr, hr']
  exact (hapart x hx x' hx').appended r r'

/-- Plans for items apart are one plan. -/
theorem Clears.append (h : Clears t xs ms us ps) (h' : Clears t xs' ms' us' ps')
    (hapart : ∀ x ∈ xs, ∀ y ∈ xs', Apart x.src y.src) :
    Clears t (xs ++ xs') (ms ++ ms') (us ++ us') (ps ++ ps') where
  within y hy := by
    simp only [List.mem_append] at hy ⊢
    have hsplit : (y ∈ ms ∨ y ∈ us ∨ y ∈ ps) ∨ y ∈ ms' ∨ y ∈ us' ∨ y ∈ ps' := by tauto
    rcases hsplit with hy | hy
    · obtain ⟨x, hx, hwithin⟩ := h.within y hy
      exact ⟨x, .inl hx, hwithin⟩
    · obtain ⟨x, hx, hwithin⟩ := h'.within y hy
      exact ⟨x, .inr hx, hwithin⟩
  move y hy := (List.mem_append.mp hy).elim (h.move y) (h'.move y)
  apart := List.pairwise_append.mpr ⟨h.apart, h'.apart, fun y hy z hz => h.cross h' hapart (.inl hy) (.inl hz)⟩
  drop y hy := (List.mem_append.mp hy).elim (h.drop y) (h'.drop y)
  distinct := List.pairwise_append.mpr ⟨h.distinct, h'.distinct, fun y hy z hz heq =>
    (h.cross h' hapart (.inr (.inl hy)) (.inr (.inl hz))).1 (heq ▸ List.prefix_rfl)⟩
  prune y hy := (List.mem_append.mp hy).elim (h.prune y) (h'.prune y)
  order := List.pairwise_append.mpr ⟨h.order, h'.order, fun y hy z hz =>
    (h.cross h' hapart (.inr (.inr hy)) (.inr (.inr hz))).1⟩
  cover x hx r hr := by
    rcases List.mem_append.mp hx with hx | hx
    · rcases h.cover x hx r hr with ⟨y, hy, hp⟩ | ⟨y, hy, hs⟩ | ⟨y, hy, hs⟩
      · exact .inl ⟨y, List.mem_append_left _ hy, hp⟩
      · exact .inr (.inl ⟨y, List.mem_append_left _ hy, hs⟩)
      · exact .inr (.inr ⟨y, List.mem_append_left _ hy, hs⟩)
    · rcases h'.cover x hx r hr with ⟨y, hy, hp⟩ | ⟨y, hy, hs⟩ | ⟨y, hy, hs⟩
      · exact .inl ⟨y, List.mem_append_right _ hy, hp⟩
      · exact .inr (.inl ⟨y, List.mem_append_right _ hy, hs⟩)
      · exact .inr (.inr ⟨y, List.mem_append_right _ hy, hs⟩)

/-- The entry of a directory. -/
def Spot.child (x : Spot) (n : Str) : Spot := (x.1, x.2 ++ [n])

theorem Spot.src_child (x : Spot) (n : Str) : (x.child n).src = x.src ++ [n] := by
  simp [Spot.child, Spot.src]

theorem Spot.dst_child (x : Spot) (n : Str) : (x.child n).dst = x.dst ++ [n] := by
  simp [Spot.child, Spot.dst]

/-- A directory is pruned after what is below it. -/
theorem Clears.dir {ns : List Str} (h : Clears t (ns.map x.child) ms us ps)
    (hnames : ∀ n, t.node (x.src ++ [n]) ≠ none → n ∈ ns) (hsrc : t.node x.src = some .dir)
    (hdst : t.node x.dst ≠ none) : Clears t [x] ms us (ps ++ [x]) := by
  have hbelow : ∀ y, y ∈ ms ∨ y ∈ us ∨ y ∈ ps → ∃ n r, y.1 = x.1 ∧ y.2 = x.2 ++ n :: r := by
    intro y hy
    obtain ⟨c, hc, hroute, r, hr⟩ := h.within y hy
    obtain ⟨n, -, rfl⟩ := List.mem_map.mp hc
    exact ⟨n, r, hroute, by rw [← hr, Spot.child, List.append_assoc]; rfl⟩
  exact {
    within := fun y hy => by
      refine ⟨x, List.mem_singleton_self x, ?_⟩
      have hsplit : (y ∈ ms ∨ y ∈ us ∨ y ∈ ps) ∨ y = x := by
        simp only [List.mem_append, List.mem_singleton] at hy
        tauto
      rcases hsplit with hy | rfl
      · obtain ⟨n, r, hroute, hr⟩ := hbelow y hy
        exact ⟨hroute, hr ▸ List.prefix_append _ _⟩
      · exact ⟨rfl, List.prefix_rfl⟩
    move := h.move
    apart := h.apart
    drop := h.drop
    distinct := h.distinct
    prune := fun y hy => by
      rcases List.mem_append.mp hy with hy | hy
      · exact h.prune y hy
      · obtain rfl := List.mem_singleton.mp hy
        exact ⟨hsrc, hdst⟩
    order := List.pairwise_append.mpr ⟨h.order, List.pairwise_singleton _ _, fun y hy z hz hp => by
      obtain rfl := List.mem_singleton.mp hz
      obtain ⟨n, r, hroute, hr⟩ := hbelow y (.inr (.inr hy))
      have hlen := hp.length_le
      simp only [Spot.src, hroute, hr, List.length_append, List.length_cons] at hlen
      omega⟩
    cover := fun y hy r hr => by
      obtain rfl := List.mem_singleton.mp hy
      cases r with
      | nil => exact .inr (.inr ⟨y, by simp, by simp⟩)
      | cons n r =>
        have hassoc : y.src ++ n :: r = (y.child n).src ++ r := by rw [Spot.src_child]; simp
        have hn : t.node (y.src ++ [n]) ≠ none := fun hnone => hr (by
          rw [hassoc, Spot.src_child]
          exact Tree.node_append_eq_none hnone r)
        rw [hassoc] at hr ⊢
        rcases h.cover _ (List.mem_map_of_mem (hnames n hn)) r hr with hcov | hcov | ⟨z, hz, hs⟩
        · exact .inl hcov
        · exact .inr (.inl hcov)
        · exact .inr (.inr ⟨z, List.mem_append_left _ hz, hs⟩) }

/-- What is to be cleared of all routes is what is left to do. -/
theorem Clears.pending (h : Clears t (rs.map fun a => (a, [])) ms us ps) : Pending rs t ms us ps := by
  have hmem : ∀ y, y ∈ ms ∨ y ∈ us ∨ y ∈ ps → y.1 ∈ rs := by
    intro y hy
    obtain ⟨x, hx, hroute, -⟩ := h.within y hy
    obtain ⟨a, ha, rfl⟩ := List.mem_map.mp hx
    exact hroute ▸ ha
  exact {
    move_mem := fun y hy => hmem y (.inl hy)
    move := h.move
    apart := h.apart
    drop_mem := fun y hy => hmem y (.inr (.inl hy))
    drop := h.drop
    distinct := h.distinct
    prune_mem := fun y hy => hmem y (.inr (.inr hy))
    prune := h.prune
    order := h.order
    cover := fun a ha r hr => by
      have hcov := h.cover (a, []) (List.mem_map_of_mem ha) r (by simpa [Spot.src] using hr)
      simpa [Spot.src] using hcov }

/-! ### The run -/

/-- The directory of a route is there, or the one above it. -/
def Ready (rs : List Route) (t : Tree) : Prop := ∀ a ∈ rs, t.node a.dir = some .dir ∨
  (a.dir ≠ [] ∧ t.node a.dir = none ∧ t.node a.dir.dropLast = some .dir)

/-- The operations of a plan. -/
def opsOf (ms us ps : List Spot) : List Op :=
  ms.flatMap (fun x => [.mkdir x.dst.dropLast, .rename x.src x.dst]) ++ us.map (fun x => .unlink x.src) ++
    ps.map fun x => .rmdir x.src

/-- All operations work, and `P` holds before, between and after them. -/
def Along (P : Tree → Prop) : List Op → Tree → Prop
  | [], t => P t
  | op :: ops, t => P t ∧ ∃ t', op.run t = some t' ∧ Along P ops t'

theorem Along.take {P : Tree → Prop} : ∀ {ops : List Op} {t : Tree}, Along P ops t → ∀ k,
    ∃ t', runOps (ops.take k) t = (true, t') ∧ P t'
  | [], t, h, k => ⟨t, by rw [List.take_nil]; rfl, h⟩
  | op :: ops, t, h, 0 => ⟨t, rfl, h.1⟩
  | op :: ops, t, h, k + 1 => by
    obtain ⟨-, t₁, hop, hrest⟩ := h
    obtain ⟨t', hrun, hp⟩ := hrest.take k
    exact ⟨t', by rw [List.take_succ_cons, runOps, hop]; exact hrun, hp⟩

theorem exists_place {p : Path} (hne : p ≠ []) (hdir : t.node p.dropLast = some .dir) :
    ∃ a, t.place p = some a ∧ a.path = p := by
  have hsplit : p.dropLast ++ [p.getLast hne] = p := List.dropLast_append_getLast hne
  have hplace := Tree.place_append (Tree.find_dir hdir) hdir (p.getLast hne)
  rw [hsplit] at hplace
  exact ⟨_, hplace, hsplit⟩

theorem dropLast_dir {p : Path} (h : t.node p ≠ none) (hne : p ≠ []) : t.node p.dropLast = some .dir := by
  rw [← List.dropLast_append_getLast hne] at h
  exact t.parent _ _ h

theorem Separate.src_ne_nil (hsep : Separate rs) (hx : x.1 ∈ rs) : x.src ≠ [] := fun h =>
  hsep.src_dst hx hx (h ▸ List.nil_prefix)

theorem Separate.dst_ne_nil (hsep : Separate rs) (hx : x.1 ∈ rs) : x.dst ≠ [] := fun h =>
  hsep.dst_src hx hx (h ▸ List.nil_prefix)

theorem Ready.moved (hsep : Separate rs) (h : Ready rs t) (hx : x.1 ∈ rs) (ht : Tree.Moves t t' x.src x.dst) :
    Ready rs t' := by
  intro a ha
  have hkept : ∀ p, p <+: a.dir → t'.node p = t.node p := fun p hp =>
    ht.other p (fun hs => hsep.src_dir hx ha (x.src_prefix.trans (hs.trans hp)))
      (fun hd => hsep.dst_dir hx ha (x.dst_prefix.trans (hd.trans hp)))
  rw [hkept _ List.prefix_rfl, hkept _ (List.dropLast_prefix _)]
  exact h a ha

theorem Ready.removed (hsep : Separate rs) (h : Ready rs t) (hx : x.1 ∈ rs) (ht : Tree.Puts t t' x.src none) :
    Ready rs t' := by
  intro a ha
  have hkept : ∀ p, p <+: a.dir → t'.node p = t.node p := fun p hp =>
    ht.other p fun heq => hsep.src_dir hx ha (x.src_prefix.trans (heq ▸ hp))
  rw [hkept _ List.prefix_rfl, hkept _ (List.dropLast_prefix _)]
  exact h a ha

theorem Ready.made (h : Ready rs t) (hnone : t.node a.dir = none) (ht : Tree.Puts t t' a.dir (some .dir)) :
    Ready rs t' := by
  intro b hb
  by_cases hdir : b.dir = a.dir
  · exact .inl (hdir ▸ ht.there)
  · rcases h b hb with hthere | ⟨hne, hb', hparent⟩
    · exact .inl ((ht.other _ hdir).trans hthere)
    · refine .inr ⟨hne, (ht.other _ hdir).trans hb', (ht.other _ fun heq => ?_).trans hparent⟩
      rw [heq, hnone] at hparent
      cases hparent

/-- What holds along the run. -/
structure At (rs : List Route) (t₀ t : Tree) (ms us ps : List Spot) : Prop where
  underway : Underway rs t₀ t
  ready : Ready rs t
  pending : Pending rs t ms us ps

/-- The directory of the next move is there, or is made. -/
theorem At.mkdir (hsep : Separate rs) (h : At rs t₀ t (x :: ms) us ps) :
    ∃ t', t.mkdir x.dst.dropLast = some t' ∧ At rs t₀ t' (x :: ms) us ps ∧ t'.node x.dst.dropLast = some .dir := by
  have hx : x.1 ∈ rs := h.pending.move_mem x List.mem_cons_self
  have hstay : t.node x.dst.dropLast = some .dir → ∃ t', t.mkdir x.dst.dropLast = some t' ∧
      At rs t₀ t' (x :: ms) us ps ∧ t'.node x.dst.dropLast = some .dir := fun hdir =>
    ⟨t, Tree.mkdir_of_isDir (by simp [Tree.isDir, Tree.find_dir hdir, hdir]), h, hdir⟩
  by_cases hnil : x.2 = []
  · have hdir : x.dst.dropLast = x.1.dir := by simp [Spot.dst, hnil, Route.dst]
    rw [hdir] at hstay ⊢
    rcases h.ready x.1 hx with hthere | ⟨hne, hnone, hparent⟩
    · exact hstay hthere
    · obtain ⟨b, hb, hpath⟩ := exists_place hne hparent
      have hlost : t.find x.1.dir = none := by
        have hlast := List.dropLast_append_getLast hne
        have hfind := Tree.find_child (n := x.1.dir.getLast hne) hparent (by simp [hlast, hnone])
        rwa [hlast, if_pos hnone] at hfind
      obtain ⟨t', ht', hputs⟩ := Tree.mkdir_eq (by simp [Tree.isDir, hlost]) hb (hpath ▸ hnone)
      rw [hpath] at hputs
      exact ⟨t', ht', ⟨h.underway.made hsep hx hnone hputs, h.ready.made hnone hputs, h.pending.made hsep hx hputs⟩,
        hputs.there⟩
  · exact hstay ((h.pending.move x List.mem_cons_self).2.2 hnil)

/-- The next move. -/
theorem At.rename (hsep : Separate rs) (h : At rs t₀ t (x :: ms) us ps) (hdir : t.node x.dst.dropLast = some .dir) :
    ∃ t', t.rename x.src x.dst = some t' ∧ At rs t₀ t' ms us ps := by
  have hx : x.1 ∈ rs := h.pending.move_mem x List.mem_cons_self
  obtain ⟨hsrc, hdst, -⟩ := h.pending.move x List.mem_cons_self
  have hne := hsep.src_ne_nil hx
  obtain ⟨a, ha, hpa⟩ := exists_place hne (dropLast_dir hsrc hne)
  obtain ⟨b, hb, hpb⟩ := exists_place (hsep.dst_ne_nil hx) hdir
  have hout : ¬ a.path <+: b.path := by
    rw [hpa, hpb]
    exact hsep.src_dst hx hx
  obtain ⟨t', ht', hmoves⟩ := Tree.rename_eq ha hb hout (hpa ▸ hsrc) (hpb ▸ hdst)
  rw [hpa, hpb] at hmoves
  exact ⟨t', ht', h.underway.moved hsep hx hdst hmoves, h.ready.moved hsep hx hmoves, h.pending.moved hsep hmoves⟩

/-- The next drop. -/
theorem At.unlink (hsep : Separate rs) (h : At rs t₀ t [] (x :: us) ps) :
    ∃ t', t.unlink x.src = some t' ∧ At rs t₀ t' [] us ps := by
  have hx : x.1 ∈ rs := h.pending.drop_mem x List.mem_cons_self
  obtain ⟨hsrc, hfile, hdst⟩ := h.pending.drop x List.mem_cons_self
  have hne := hsep.src_ne_nil hx
  obtain ⟨a, ha, hpa⟩ := exists_place hne (dropLast_dir hsrc hne)
  obtain ⟨t', ht', hputs⟩ := Tree.unlink_eq ha (hpa ▸ hsrc) (hpa ▸ hfile)
  rw [hpa] at hputs
  exact ⟨t', ht', h.underway.removed hsep hx hdst hputs, h.ready.removed hsep hx hputs, h.pending.dropped hsep hputs⟩

/-- The next directory. -/
theorem At.rmdir (hsep : Separate rs) (h : At rs t₀ t [] [] (x :: ps)) :
    ∃ t', t.rmdir x.src = some t' ∧ At rs t₀ t' [] [] ps := by
  have hx : x.1 ∈ rs := h.pending.prune_mem x List.mem_cons_self
  obtain ⟨hsrc, hdst⟩ := h.pending.prune x List.mem_cons_self
  have hne := hsep.src_ne_nil hx
  have hthere : t.node x.src ≠ none := by simp [hsrc]
  obtain ⟨a, ha, hpa⟩ := exists_place hne (dropLast_dir hthere hne)
  obtain ⟨t', ht', hputs⟩ := Tree.rmdir_eq ha (hpa ▸ hsrc) fun n => hpa ▸ h.pending.empty n
  rw [hpa] at hputs
  exact ⟨t', ht', h.underway.removed hsep hx hdst hputs, h.ready.removed hsep hx hputs, h.pending.pruned hsep hputs⟩

theorem along_prunes (hsep : Separate rs) : ∀ {ps : List Spot} {t : Tree}, At rs t₀ t [] [] ps →
    Along (Underway rs t₀) (opsOf [] [] ps) t ∧ ∃ t', runOps (opsOf [] [] ps) t = (true, t') ∧ At rs t₀ t' [] [] []
  | [], t, h => ⟨h.underway, t, rfl, h⟩
  | x :: ps, t, h => by
    obtain ⟨t', hop, h'⟩ := h.rmdir hsep
    obtain ⟨halong, t₂, hrun, hend⟩ := along_prunes hsep h'
    refine ⟨⟨h.underway, t', hop, halong⟩, t₂, ?_, hend⟩
    show runOps (.rmdir x.src :: opsOf [] [] ps) t = _
    rw [runOps, Op.run, hop]
    exact hrun

theorem along_drops (hsep : Separate rs) : ∀ {us : List Spot} {t : Tree}, At rs t₀ t [] us ps →
    Along (Underway rs t₀) (opsOf [] us ps) t ∧ ∃ t', runOps (opsOf [] us ps) t = (true, t') ∧ At rs t₀ t' [] [] []
  | [], t, h => along_prunes hsep h
  | x :: us, t, h => by
    obtain ⟨t', hop, h'⟩ := h.unlink hsep
    obtain ⟨halong, t₂, hrun, hend⟩ := along_drops hsep h'
    refine ⟨⟨h.underway, t', hop, halong⟩, t₂, ?_, hend⟩
    show runOps (.unlink x.src :: opsOf [] us ps) t = _
    rw [runOps, Op.run, hop]
    exact hrun

/-- **All operations work**, and wherever they stop each entry is where it was or
where it goes. -/
theorem along_ops (hsep : Separate rs) : ∀ {ms : List Spot} {t : Tree}, At rs t₀ t ms us ps →
    Along (Underway rs t₀) (opsOf ms us ps) t ∧ ∃ t', runOps (opsOf ms us ps) t = (true, t') ∧ At rs t₀ t' [] [] []
  | [], t, h => along_drops hsep h
  | x :: ms, t, h => by
    obtain ⟨t₁, hmk, h₁, hdir⟩ := h.mkdir hsep
    obtain ⟨t₂, hmv, h₂⟩ := h₁.rename hsep hdir
    obtain ⟨halong, t₃, hrun, hend⟩ := along_ops hsep h₂
    refine ⟨⟨h.underway, t₁, hmk, h₁.underway, t₂, hmv, halong⟩, t₃, ?_, hend⟩
    show runOps (.mkdir x.dst.dropLast :: .rename x.src x.dst :: opsOf ms us ps) t = _
    rw [runOps, Op.run, hmk]
    show runOps (.rename x.src x.dst :: opsOf ms us ps) t₁ = _
    rw [runOps, Op.run, hmv]
    exact hrun

/-- Nothing is left at the sources. -/
theorem Pending.done (h : Pending rs t [] [] []) (ha : a ∈ rs) (r : Path) : t.node (a.src ++ r) = none := by
  by_contra hne
  rcases h.cover a ha r hne with ⟨y, hy, -⟩ | ⟨y, hy, -⟩ | ⟨y, hy, -⟩ <;> simp at hy

/-! ### Starting again -/

/-- At the end each entry is where it goes. -/
structure Settled (rs : List Route) (t₀ t : Tree) : Prop where
  underway : Underway rs t₀ t
  gone : ∀ a ∈ rs, t.node a.src = none

theorem Settled.src (h : Settled rs t₀ t) (ha : a ∈ rs) (r : Path) : t.node (a.src ++ r) = none :=
  Tree.node_append_eq_none (h.gone a ha) r

theorem Settled.dst (h : Settled rs t₀ t) (ha : a ∈ rs) (r : Path) :
    t.node (a.dst ++ r) = (t₀.node (a.dst ++ r)).or (t₀.node (a.src ++ r)) := by
  rcases h.underway.entry a ha r with ⟨hsrc, hdst⟩ | ⟨-, hdst⟩
  · rw [hdst, ← hsrc, h.src ha r, Option.or_none]
  · exact hdst

/-- The directories of the routes are there at the end. -/
theorem Settled.dir (h : Settled rs t₀ t) (ha : a ∈ rs) (hsrc : t₀.node a.src ≠ none) : t.node a.dir = some .dir := by
  have hdst := h.dst ha []
  rw [List.append_nil, List.append_nil] at hdst
  refine t.parent a.dir a.name fun hnone => hsrc ?_
  have hor : (t₀.node a.dst).or (t₀.node a.src) = none := hdst.symm.trans hnone
  exact (Option.or_eq_none_iff.mp hor).2

/-- **What is started again ends as it would have**: `t₁` is the end of a run from
`t₀`, and `t₂` of a run from a tree on the way, with what is left of the routes. -/
theorem settled_unique {rs' : List Route} {t₁ t₂ : Tree} (hsrc : ∀ a ∈ rs, t₀.node a.src ≠ none)
    (h₁ : Settled rs t₀ t₁) (h : Underway rs t₀ t) (hsub : ∀ a ∈ rs', a ∈ rs)
    (hleft : ∀ a ∈ rs, a ∉ rs' → t.node a.src = none) (h₂ : Settled rs' t t₂) (hsep : Separate rs) (p : Path) :
    t₂.node p = t₁.node p := by
  have hgone : ∀ a ∈ rs, ∀ r, t₂.node (a.src ++ r) = none := by
    intro a ha r
    by_cases ha' : a ∈ rs'
    · exact h₂.src ha' r
    · have hnone : t.node (a.src ++ r) = none := Tree.node_append_eq_none (hleft a ha ha') r
      have hout : ∀ b ∈ rs', ¬ b.src <+: a.src ++ r ∧ ¬ b.dst <+: a.src ++ r := by
        intro b hb
        have hne : b ≠ a := fun heq => ha' (heq ▸ hb)
        exact ⟨(hsep.src b (hsub b hb) a ha hne).not_append r, (hsep.across a ha b (hsub b hb)).symm.not_append r⟩
      rcases h₂.underway.other (a.src ++ r) hout with hsame | ⟨-, -, b, hb, hdir⟩
      · rw [hsame, hnone]
      · exact absurd (hdir ▸ List.prefix_append a.src r) (hsep.src_dir ha (hsub b hb))
  have hcame : ∀ a ∈ rs, ∀ r, t₂.node (a.dst ++ r) = (t₀.node (a.dst ++ r)).or (t₀.node (a.src ++ r)) := by
    intro a ha r
    have hway : (t.node (a.dst ++ r)).or (t.node (a.src ++ r)) = (t₀.node (a.dst ++ r)).or (t₀.node (a.src ++ r)) := by
      rcases h.entry a ha r with ⟨hs, hd⟩ | ⟨hs, hd⟩
      · rw [hs, hd]
      · rw [hs, hd, Option.or_none]
    rw [← hway]
    by_cases ha' : a ∈ rs'
    · exact h₂.dst ha' r
    · have hnone : t.node (a.src ++ r) = none := Tree.node_append_eq_none (hleft a ha ha') r
      rw [hnone, Option.or_none]
      have hout : ∀ b ∈ rs', ¬ b.src <+: a.dst ++ r ∧ ¬ b.dst <+: a.dst ++ r := by
        intro b hb
        have hne : b ≠ a := fun heq => ha' (heq ▸ hb)
        exact ⟨(hsep.across b (hsub b hb) a ha).not_append r, (hsep.dst b (hsub b hb) a ha hne).not_append r⟩
      rcases h₂.underway.other (a.dst ++ r) hout with hsame | ⟨-, -, b, hb, hdir⟩
      · exact hsame
      · exact absurd (hdir ▸ List.prefix_append a.dst r) (hsep.dst_dir ha (hsub b hb))
  have hdirs : ∀ a ∈ rs, t₂.node a.dir = some .dir := by
    intro a ha
    have hdst := hcame a ha []
    rw [List.append_nil, List.append_nil] at hdst
    refine t₂.parent a.dir a.name fun hnone => hsrc a ha ?_
    have hor : (t₀.node a.dst).or (t₀.node a.src) = none := hdst.symm.trans hnone
    exact (Option.or_eq_none_iff.mp hor).2
  by_cases hs : ∃ a ∈ rs, a.src <+: p
  · obtain ⟨a, ha, r, rfl⟩ := hs
    rw [hgone a ha r, h₁.src ha r]
  by_cases hd : ∃ a ∈ rs, a.dst <+: p
  · obtain ⟨a, ha, r, rfl⟩ := hd
    rw [hcame a ha r, h₁.dst ha r]
  by_cases hdir : ∃ a ∈ rs, p = a.dir
  · obtain ⟨a, ha, rfl⟩ := hdir
    rw [hdirs a ha, h₁.dir ha (hsrc a ha)]
  · -- elsewhere nothing changes
    have hout : ∀ a ∈ rs, ¬ a.src <+: p ∧ ¬ a.dst <+: p := fun a ha =>
      ⟨fun hp => hs ⟨a, ha, hp⟩, fun hp => hd ⟨a, ha, hp⟩⟩
    have hsame : ∀ {rs' : List Route} {t t' : Tree}, Underway rs' t t' → (∀ a ∈ rs', a ∈ rs) →
        t'.node p = t.node p := by
      intro rs' t t' hund hsub
      rcases hund.other p fun a ha => hout a (hsub a ha) with hsame | ⟨-, -, a, ha, heq⟩
      · exact hsame
      · exact absurd ⟨a, hsub a ha, heq⟩ hdir
    rw [hsame h₂.underway hsub, hsame h fun a ha => ha, hsame h₁.underway fun a ha => ha]

end Py
end MqResiliency
