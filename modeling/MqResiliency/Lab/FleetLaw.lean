/-
# The enumerations agree

`Catalog.allBoxes` has one box for each pair of a role and an OS that it is
asked for (`allBoxes_law`): names tell the pairs apart (`boxName_inj`), so its
de-duplication by name loses none. The boxes of a build file are some of these
(`boxesForBuild_law`), and the fleet has all of them (`buildFleet_law`), so
what a build file needs, the fleet can build.
-/
import MqResiliency.Lab.CatalogLaw

namespace MqResiliency
namespace Lab

open Py Conv

/-! ### Names -/

/-- The sign of an integer's text. -/
def sign (n : ℤ) : Str := if n < 0 then ['-'] else []

theorem textOf_eq (n : ℤ) : textOf n = sign n ++ Nat.toDigits 10 n.natAbs := by
  unfold textOf sign
  split <;> rfl

/-- A name from behind: the digits, then what is before them. -/
theorem reverse_boxName (role : Str) (ref : OsRef) :
    (boxName role ref).reverse = (Nat.toDigits 10 ref.major.natAbs).reverse ++
      (sign ref.major ++ (ref.family.reverse ++ '-' :: role.reverse)) := by
  have hsign : (sign ref.major).reverse = sign ref.major := by
    unfold sign
    split <;> rfl
  simp [boxName, textOf_eq, hsign]

theorem isFamily_chars {f : Str} (h : isFamily f = true) :
    f = ['u', 'b', 'u', 'n', 't', 'u'] ∨ f = ['r', 'h', 'e', 'l'] := by
  rcases isFamily_cases h with rfl | rfl
  · exact .inl rfl
  · exact .inr rfl

theorem sign_family_inj {f f' : Str} (hf : isFamily f = true) (hf' : isFamily f' = true) {m m' : ℤ} {r r' : Str}
    (h : sign m ++ (f.reverse ++ '-' :: r) = sign m' ++ (f'.reverse ++ '-' :: r')) :
    (m < 0 ↔ m' < 0) ∧ f = f' ∧ r = r' := by
  unfold sign at h
  rcases isFamily_chars hf with rfl | rfl <;> rcases isFamily_chars hf' with rfl | rfl <;>
    split at h <;> split at h <;> simp_all <;> omega

theorem takeWhile_sign {f : Str} (hf : isFamily f = true) (m : ℤ) (r : Str) :
    (sign m ++ (f.reverse ++ '-' :: r)).takeWhile Char.isDigit = [] := by
  unfold sign
  rcases isFamily_chars hf with rfl | rfl <;> split <;> simp

theorem boxName_inj {role role' : Str} {ref ref' : OsRef} (hf : isFamily ref.family = true)
    (hf' : isFamily ref'.family = true) (h : boxName role ref = boxName role' ref') :
    role = role' ∧ ref = ref' := by
  have hrev := congrArg List.reverse h
  rw [reverse_boxName, reverse_boxName] at hrev
  have hdigit : ∀ n : ℕ, ∀ c ∈ (Nat.toDigits 10 n).reverse, c.isDigit := fun n c hc =>
    isDigit_toDigits n c (List.mem_reverse.mp hc)
  have hdigits : Nat.toDigits 10 ref.major.natAbs = Nat.toDigits 10 ref'.major.natAbs := by
    have htake := congrArg (List.takeWhile Char.isDigit) hrev
    rw [List.takeWhile_append_of_pos (hdigit _), List.takeWhile_append_of_pos (hdigit _),
      takeWhile_sign hf, takeWhile_sign hf', List.append_nil, List.append_nil] at htake
    exact List.reverse_injective htake
  have habs : ref.major.natAbs = ref'.major.natAbs := by
    have hread := congrArg (fun ds => Nat.ofDigitChars 10 ds 0) hdigits
    simpa using hread
  rw [hdigits] at hrev
  obtain ⟨hsign, hfam, hrole⟩ := sign_family_inj hf hf' (List.append_cancel_left hrev)
  refine ⟨List.reverse_injective hrole, ?_⟩
  have hmajor : ref.major = ref'.major := by omega
  cases ref
  cases ref'
  simp_all

/-! ### The pairs of an enumeration -/

/-- The boxes so far are those of the pairs of roles and OSes in `S`, by their names. -/
structure Holds (cat : Catalog) (S : Set (Str × OsRef)) (out : Dict Str BoxEntry) : Prop where
  sound : ∀ name b, out.get? name = some b → ∃ p ∈ S, name = boxName p.1 p.2 ∧ BoxOf cat p.1 p.2 b
  complete : ∀ p ∈ S, ∃ b, out.get? (boxName p.1 p.2) = some b ∧ BoxOf cat p.1 p.2 b

/-- The pairs of some roles with one OS. -/
def pairs (roles : List Str) (ref : OsRef) : Set (Str × OsRef) := {p | p.1 ∈ roles ∧ p.2 = ref}

/-- The OS runs on this host, if there is one. -/
def RunsOn (cat : Catalog) (facts : Option HostFacts) (ref : OsRef) : Prop :=
  ∀ f, facts = some f → ∃ e, cat.oses.get? ref = some e ∧ hostCanRun e f = true

/-- The pairs of some stacks. -/
def stackPairs (cat : Catalog) (facts : Option HostFacts) (stackRoles : List (Str × List Str)) :
    Set (Str × OsRef) :=
  {p | ∃ stack roles spec, (stack, roles) ∈ stackRoles ∧ cat.stackSpecs.get? stack = some spec ∧
    p.1 ∈ roles ∧ p.2 ∈ spec.supported ∧ RunsOn cat facts p.2}

/-- The pairs of shared roles. -/
def sharedPairs (cat : Catalog) : Set (Str × OsRef) := {p | p.1 ∈ sharedRoles ∧ p.2 = cat.sharedRef p.1}

section
variable {cat : Catalog} (hentry : OsesSound cat.oses) {printable : Char → Bool} {L : Prop}
  {S : Set (Str × OsRef)} {out : Dict Str BoxEntry}

theorem holds_empty : Holds cat ∅ .empty where
  sound := fun name b h => absurd h (by simp)
  complete := fun p hp => hp.elim

include hentry in
theorem boxOf_inj {role role' : Str} {ref ref' : OsRef} {b b' : BoxEntry} (hb : BoxOf cat role ref b)
    (hb' : BoxOf cat role' ref' b') (h : b.name = b'.name) : role = role' ∧ ref = ref' := by
  rw [hb.name, hb'.name] at h
  exact boxName_inj (hentry ref b.os hb.os).known (hentry ref' b'.os hb'.os).known h

include hentry in
theorem holds_addBox (hout : Holds cat S out) {role : Str} {ref : OsRef} {b : BoxEntry}
    (hb : BoxOf cat role ref b) : Holds cat (S ∪ {(role, ref)}) (Catalog.addBox out b) := by
  unfold Catalog.addBox
  split
  · rename_i hname
    constructor
    · intro name b' hget
      obtain ⟨p, hp, hrest⟩ := hout.sound name b' hget
      exact ⟨p, .inl hp, hrest⟩
    · rintro p (hp | rfl)
      · exact hout.complete p hp
      · -- The name is taken, by the box of the same pair.
        obtain ⟨b', hb'⟩ := Option.isSome_iff_exists.mp hname
        obtain ⟨p, -, heq, hbox⟩ := hout.sound b.name b' hb'
        obtain ⟨hrole, href⟩ := boxOf_inj hentry hb hbox (heq.trans hbox.name.symm)
        rw [← hrole, ← href] at hbox
        exact ⟨b', hb.name ▸ hb', hbox⟩
  · constructor
    · intro name b' hget
      rw [Dict.get?_set] at hget
      split at hget
      · rename_i heq
        obtain rfl : b = b' := by simpa using hget
        exact ⟨(role, ref), .inr rfl, heq.trans hb.name, hb⟩
      · obtain ⟨p, hp, hrest⟩ := hout.sound name b' hget
        exact ⟨p, .inl hp, hrest⟩
    · intro p hp
      rw [Dict.get?_set]
      rcases hp with hp | rfl
      · obtain ⟨b', hget, hbox⟩ := hout.complete p hp
        split
        · rename_i heq
          obtain ⟨hrole, href⟩ := boxOf_inj hentry hb hbox (heq.symm.trans hbox.name.symm)
          exact ⟨b, rfl, hrole ▸ href ▸ hb⟩
        · exact ⟨b', hget, hbox⟩
      · rw [if_pos hb.name.symm]
        exact ⟨b, rfl, hb⟩

theorem holds_congr {S' : Set (Str × OsRef)} (hout : Holds cat S out) (h : S = S') : Holds cat S' out := h ▸ hout

include hentry in
theorem wp_addRoles {ref : OsRef} (hdecl : (cat.oses.get? ref).isSome) : ∀ {roles : List Str}
    {S : Set (Str × OsRef)} {out : Dict Str BoxEntry}, Holds cat S out →
    (cat.addRoles printable ref out roles).wp L (Holds cat (S ∪ pairs roles ref)) Err.IsVersion
  | [], S, out, hout => holds_congr hout (by simp [pairs])
  | role :: roles, S, out, hout => by
    refine wp_seq (wp_box hentry fun _ hlong => ?_) fun b hb => ?_
    · have hle := short_of_mem hentry hdecl
      omega
    · refine wp_mono id (fun out' hout' => holds_congr hout' ?_) (fun _ h => h)
        (wp_addRoles hdecl (holds_addBox hentry hout hb))
      ext p
      simp only [pairs, Set.mem_union, Set.mem_singleton_iff, Set.mem_ofPred_eq, List.mem_cons, Prod.ext_iff]
      tauto

theorem wp_runsOn {ref : OsRef} (hdecl : (cat.oses.get? ref).isSome) (facts : Option HostFacts)
    {E : Err → Prop} :
    (Catalog.addRefs.runsOn cat facts ref).wp L (fun run => run = true ↔ RunsOn cat facts ref) E := by
  unfold Catalog.addRefs.runsOn RunsOn
  cases facts with
  | none => simp
  | some f =>
    refine wp_seq (wp_osEntry hdecl) fun e he => ?_
    simp [he]

include hentry in
theorem wp_addRefs (facts : Option HostFacts) (roles : List Str) : ∀ {refs : List OsRef}
    {S : Set (Str × OsRef)} {out : Dict Str BoxEntry}, (∀ r ∈ refs, (cat.oses.get? r).isSome) →
    Holds cat S out → (cat.addRefs printable facts roles out refs).wp L
      (Holds cat (S ∪ {p | p.1 ∈ roles ∧ p.2 ∈ refs ∧ RunsOn cat facts p.2})) Err.IsVersion
  | [], S, out, _, hout => holds_congr hout (by simp)
  | ref :: refs, S, out, hdecl, hout => by
    have hrest : ∀ r ∈ refs, (cat.oses.get? r).isSome := fun r hr => hdecl r (List.mem_cons_of_mem ref hr)
    refine wp_seq (wp_runsOn (hdecl ref List.mem_cons_self) facts) fun run hrun => ?_
    split
    · rename_i htrue
      have hruns := hrun.mp htrue
      refine wp_seq (wp_addRoles hentry (hdecl ref List.mem_cons_self) hout) fun out' hout' => ?_
      refine wp_mono id (fun out'' hout'' => holds_congr hout'' ?_) (fun _ h => h)
        (wp_addRefs facts roles hrest hout')
      ext p
      have hmem : ∀ role, role ∈ sortedStrs roles ↔ role ∈ roles := fun role => by simp [sortedStrs]
      simp only [pairs, Set.mem_union, Set.mem_ofPred_eq, List.mem_cons, hmem]
      constructor
      · rintro ((h | ⟨hr, rfl⟩) | ⟨hr, href, hp⟩)
        · exact .inl h
        · exact .inr ⟨hr, .inl rfl, hruns⟩
        · exact .inr ⟨hr, .inr href, hp⟩
      · rintro (h | ⟨hr, rfl | href, hp⟩)
        · exact .inl (.inl h)
        · exact .inl (.inr ⟨hr, rfl⟩)
        · exact .inr ⟨hr, href, hp⟩
    · rename_i hfalse
      refine wp_mono id (fun out' hout' => holds_congr hout' ?_) (fun _ h => h)
        (wp_addRefs facts roles hrest hout)
      ext p
      simp only [Set.mem_union, Set.mem_ofPred_eq, List.mem_cons]
      constructor
      · rintro (h | ⟨hr, href, hp⟩)
        · exact .inl h
        · exact .inr ⟨hr, .inr href, hp⟩
      · rintro (h | ⟨hr, rfl | href, hp⟩)
        · exact .inl h
        · exact absurd (hrun.mpr hp) hfalse
        · exact .inr ⟨hr, href, hp⟩

theorem wp_addStacks (hs : Sound cat) (facts : Option HostFacts) : ∀ {stackRoles : List (Str × List Str)}
    {S : Set (Str × OsRef)} {out : Dict Str BoxEntry}, Holds cat S out →
    (cat.addStacks printable facts out stackRoles).wp L (Holds cat (S ∪ stackPairs cat facts stackRoles))
      Err.IsVersion
  | [], S, out, hout => holds_congr hout (by simp [stackPairs])
  | (stack, roles) :: stackRoles, S, out, hout => by
    refine wp_seq (wp_stackSpec stack) fun spec hspec => ?_
    have hstack := hs.stack stack spec hspec
    refine wp_seq (wp_addRefs hs.entry facts roles hstack.declared hout) fun out' hout' => ?_
    refine wp_mono id (fun out'' hout'' => holds_congr hout'' ?_) (fun _ h => h) (wp_addStacks hs facts hout')
    ext p
    simp only [stackPairs, Set.mem_union, Set.mem_ofPred_eq, List.mem_cons, Prod.ext_iff]
    constructor
    · rintro ((h | ⟨hr, href, hp⟩) | ⟨stack', roles', spec', hmem, hrest⟩)
      · exact .inl h
      · exact .inr ⟨stack, roles, spec, .inl ⟨rfl, rfl⟩, hspec, hr, href, hp⟩
      · exact .inr ⟨stack', roles', spec', .inr hmem, hrest⟩
    · rintro (h | ⟨stack', roles', spec', ⟨rfl, rfl⟩ | hmem, hspec', hrest⟩)
      · exact .inl (.inl h)
      · obtain rfl : spec = spec' := Option.some.inj (hspec.symm.trans hspec')
        exact .inl (.inr hrest)
      · exact .inr ⟨stack', roles', spec', hmem, hspec', hrest⟩

theorem wp_addShared (hs : Sound cat) : ∀ {roles : List Str} {S : Set (Str × OsRef)} {out : Dict Str BoxEntry},
    (∀ r ∈ roles, r ∈ sharedRoles) → Holds cat S out → (cat.addShared printable out roles).wp L
      (Holds cat (S ∪ {p | p.1 ∈ roles ∧ p.2 = cat.sharedRef p.1})) Err.IsVersion
  | [], S, out, _, hout => holds_congr hout (by simp)
  | role :: roles, S, out, hroles, hout => by
    refine wp_seq (wp_sharedOs (hroles role List.mem_cons_self)) fun ref href => ?_
    subst href
    refine wp_seq (wp_box hs.entry fun _ hlong => ?_) fun b hb => ?_
    · have hle := short_of_mem hs.entry (hs.sharedRef_declared role)
      omega
    · refine wp_mono id (fun out' hout' => holds_congr hout' ?_) (fun _ h => h)
        (wp_addShared hs (fun r hr => hroles r (List.mem_cons_of_mem role hr)) (holds_addBox hs.entry hout hb))
      ext p
      simp only [Set.mem_union, Set.mem_singleton_iff, Set.mem_ofPred_eq, List.mem_cons, Prod.ext_iff]
      constructor
      · rintro ((h | ⟨rfl, h⟩) | ⟨hr, h⟩)
        · exact .inl h
        · exact .inr ⟨.inl rfl, h⟩
        · exact .inr ⟨.inr hr, h⟩
      · rintro (h | ⟨rfl | hr, h⟩)
        · exact .inl (.inl h)
        · exact .inl (.inr ⟨rfl, h⟩)
        · exact .inr ⟨hr, h⟩

/-- **All boxes.** The enumeration has one box for each pair, and fails for a reason. -/
theorem wp_allBoxes (hs : Sound cat) (facts : Option HostFacts) (stackRoles : Dict Str (List Str)) :
    (cat.allBoxes printable facts stackRoles).wp L
      (fun bs => ∃ out, bs = out.values ∧
        Holds cat (sharedPairs cat ∪ stackPairs cat facts stackRoles.items) out) Err.IsVersion := by
  refine wp_seq (wp_addShared hs (fun _ h => h) holds_empty) fun out hout => ?_
  refine wp_seq (wp_addStacks hs facts hout) fun out' hout' => ?_
  refine ⟨out', rfl, holds_congr hout' ?_⟩
  rw [Set.empty_union]
  rfl

end

/-! ### The fleet of this host -/

section
variable {cat : Catalog} (hs : Sound cat) {printable : Char → Bool} {L : Prop}

/-- What a fold of assignments leaves under the name of a box: the spec of a box of this name. -/
theorem get?_foldl_fatSpec (facts : HostFacts) (pin : Str) : ∀ (bs : List BoxEntry) (fleet : Dict Str BoxSpec)
    {b : BoxEntry}, b ∈ bs → ∃ b' ∈ bs, b'.name = b.name ∧
      (bs.foldl (fun fleet b => fleet.set b.name (fatSpec b facts pin)) fleet).get? b.name =
        some (fatSpec b' facts pin) := by
  intro bs
  induction bs using List.reverseRecOn with
  | nil => exact fun fleet b h => absurd h (by simp)
  | append_singleton bs b₀ ih =>
    intro fleet b hb
    rw [List.foldl_concat, Dict.get?_set]
    split
    · rename_i heq
      exact ⟨b₀, by simp, heq.symm, rfl⟩
    · rename_i hne
      have hmem : b ∈ bs := by
        rcases List.mem_append.mp hb with h | h
        · exact h
        · exact absurd (congrArg BoxEntry.name (List.mem_singleton.mp h)) hne
      obtain ⟨b', hb', hrest⟩ := ih fleet hmem
      exact ⟨b', List.mem_append_left _ hb', hrest⟩

include hs

/-- The fleet has each box under its name. -/
theorem wp_buildFleet (facts : HostFacts) (roles : Dict Str (List Str)) :
    (buildFleet printable cat facts roles).wp L
      (fun fleet => ∀ p ∈ sharedPairs cat ∪ stackPairs cat (some facts) roles.items,
        ∃ b, BoxOf cat p.1 p.2 b ∧ fleet.get? (boxName p.1 p.2) = some (fatSpec b facts cat.runtime.token))
      Err.IsVersion := by
  refine wp_seq (wp_allBoxes hs (some facts) roles) fun bs hbs => ?_
  obtain ⟨out, rfl, hout⟩ := hbs
  intro p hp
  obtain ⟨b, hb, hbox⟩ := hout.complete p hp
  have hmem : b ∈ out.values := List.mem_map.mpr ⟨_, Dict.get?_eq_some.mp hb, rfl⟩
  obtain ⟨b', hb', hname, hget⟩ := get?_foldl_fatSpec facts cat.runtime.token out.values (baseFleet cat facts) hmem
  obtain ⟨⟨key, b''⟩, hitem, rfl⟩ := List.mem_map.mp hb'
  obtain ⟨q, -, -, hbox'⟩ := hout.sound key b'' (Dict.get?_eq_some.mpr hitem)
  obtain ⟨hrole, href⟩ := boxOf_inj hs.entry hbox' hbox hname
  refine ⟨b'', hrole ▸ href ▸ hbox', ?_⟩
  rw [← hbox.name]
  exact hget

/-! ### The boxes of a build file -/

/-- The build file covers a stack with this default. -/
def CoversDefault (cat : Catalog) (build : BuildFile) (facts : HostFacts) (default : OsRef) : Prop :=
  match build.os with
  | none => ∃ e, cat.oses.get? default = some e ∧ hostCanRun e facts = true
  | some ref => ref.family = default.family

/-- The pairs of the stacks that the build file covers. -/
def coveredPairs (cat : Catalog) (build : BuildFile) (facts : HostFacts) (stackRoles : List (Str × List Str)) :
    Set (Str × OsRef) :=
  {p | ∃ stack roles spec, (stack, roles) ∈ stackRoles ∧ cat.stackSpecs.get? stack = some spec ∧
    CoversDefault cat build facts spec.default ∧ p.1 ∈ roles ∧ SelectsOs cat stack (some build) facts p.2}

/-- The names are those of the pairs of `S`, which are boxes. -/
def Names (cat : Catalog) (S : Set (Str × OsRef)) (names : List Str) : Prop :=
  (∀ name, name ∈ names ↔ ∃ p ∈ S, name = boxName p.1 p.2) ∧ ∀ p ∈ S, Bakes cat p.1 p.2

omit hs in
theorem names_append {S T : Set (Str × OsRef)} {names others : List Str} (hn : Names cat S names)
    (ho : Names cat T others) : Names cat (S ∪ T) (names ++ others) := by
  refine ⟨fun name => ?_, fun p hp => hp.elim (hn.2 p) (ho.2 p)⟩
  rw [List.mem_append, hn.1, ho.1]
  constructor
  · rintro (⟨p, hp, h⟩ | ⟨p, hp, h⟩)
    · exact ⟨p, .inl hp, h⟩
    · exact ⟨p, .inr hp, h⟩
  · rintro ⟨p, hp | hp, h⟩
    · exact .inl ⟨p, hp, h⟩
    · exact .inr ⟨p, hp, h⟩

omit hs in
theorem names_cons {S : Set (Str × OsRef)} {names : List Str} {role : Str} {ref : OsRef} {b : BoxEntry}
    (hb : BoxOf cat role ref b) (hn : Names cat S names) : Names cat ({(role, ref)} ∪ S) (b.name :: names) := by
  have hone : Names cat {(role, ref)} [b.name] := by
    refine ⟨fun name => ?_, fun p hp => ?_⟩
    · rw [List.mem_singleton, hb.name]
      exact ⟨fun h => ⟨(role, ref), rfl, h⟩, fun ⟨p, hp, h⟩ => h.trans (by rw [hp])⟩
    · obtain rfl : p = (role, ref) := hp
      exact hb.bakes
  exact names_append hone hn

omit hs in
theorem names_congr {S T : Set (Str × OsRef)} {names : List Str} (hn : Names cat S names) (h : S = T) :
    Names cat T names := h ▸ hn

omit hs in
theorem names_nil : Names cat ∅ [] := ⟨fun name => by simp, fun p hp => hp.elim⟩

theorem wp_sharedNames {E : Err → Prop} : ∀ {roles : List Str}, (∀ r ∈ roles, r ∈ sharedRoles) →
    (sharedNames printable cat roles).wp L (Names cat {p | p.1 ∈ roles ∧ p.2 = cat.sharedRef p.1}) E
  | [], _ => names_congr names_nil (by simp)
  | role :: roles, hroles => by
    refine wp_seq (wp_sharedOs (hroles role List.mem_cons_self)) fun ref href => ?_
    subst href
    have hbakes := hs.shared role (hroles role List.mem_cons_self)
    refine wp_seq (wp_box_of_bakes hs.entry hbakes (hs.sharedRef_declared role)) fun b hb => ?_
    refine wp_seq (wp_sharedNames fun r hr => hroles r (List.mem_cons_of_mem role hr)) fun names hn => ?_
    refine names_congr (names_cons hb hn) ?_
    ext p
    simp only [Set.mem_union, Set.mem_singleton_iff, Set.mem_ofPred_eq, List.mem_cons, Prod.ext_iff]
    constructor
    · rintro (⟨rfl, h⟩ | ⟨hr, h⟩)
      · exact ⟨.inl rfl, h⟩
      · exact ⟨.inr hr, h⟩
    · rintro ⟨rfl | hr, h⟩
      · exact .inl ⟨rfl, h⟩
      · exact .inr ⟨hr, h⟩

theorem wp_roleNames {ref : OsRef} (hdecl : (cat.oses.get? ref).isSome) : ∀ {roles : List Str},
    (roleNames printable cat ref roles).wp L (Names cat (pairs roles ref)) Err.IsVersion
  | [] => names_congr names_nil (by simp [pairs])
  | role :: roles => by
    refine wp_seq (wp_box hs.entry fun _ hlong => ?_) fun b hb => ?_
    · have hle := short_of_mem hs.entry hdecl
      omega
    · refine wp_seq (wp_roleNames hdecl) fun names hn => ?_
      refine names_congr (names_cons hb hn) ?_
      ext p
      simp only [pairs, Set.mem_union, Set.mem_singleton_iff, Set.mem_ofPred_eq, List.mem_cons, Prod.ext_iff]
      tauto

omit hs in
theorem wp_covers {build : BuildFile} {facts : HostFacts} {default : OsRef}
    (hdecl : (cat.oses.get? default).isSome) {E : Err → Prop} :
    (covers cat build facts default).wp L (fun c => c = true ↔ CoversDefault cat build facts default) E := by
  unfold covers CoversDefault
  cases build.os with
  | none =>
    refine wp_seq (wp_osEntry hdecl) fun e he => ?_
    simp [he]
  | some ref => simp

/-- The stacks that are looked at: those before the first that the catalog does not have. -/
def reached (cat : Catalog) (stackRoles : List (Str × List Str)) : List Str :=
  (stackRoles.map Prod.fst).takeWhile fun stack => (cat.stackSpecs.get? stack).isSome

omit hs in
theorem reached_cons {stack : Str} {roles : List Str} {more : List (Str × List Str)} {spec : StackSpec}
    (hspec : cat.stackSpecs.get? stack = some spec) :
    reached cat ((stack, roles) :: more) = stack :: reached cat more := by
  simp [reached, hspec]

omit hs in
/-- A stack gets one OS at most. -/
theorem SelectsOs.unique {stack : Str} {build : Option BuildFile} {facts : HostFacts} {ref ref' : OsRef}
    (h : SelectsOs cat stack build facts ref) (h' : SelectsOs cat stack build facts ref') : ref = ref' := by
  obtain ⟨spec, hspec, rfl, -⟩ := h
  obtain ⟨spec', hspec', rfl, -⟩ := h'
  obtain rfl : spec = spec' := Option.some.inj (hspec.symm.trans hspec')
  rfl

theorem wp_coveredNames {build : BuildFile} {facts : HostFacts} : ∀ {stackRoles : List (Str × List Str)},
    (∀ stack ∈ reached cat stackRoles, ∀ spec, cat.stackSpecs.get? stack = some spec →
      CoversDefault cat build facts spec.default →
      maxStrDigits < digitsOf (Catalog.requested spec (some build)).major → L) →
    (coveredNames printable cat build facts stackRoles).wp L
      (Names cat (coveredPairs cat build facts stackRoles)) Err.IsVersion
  | [], _ => names_congr names_nil (by simp [coveredPairs])
  | (stack, roles) :: more, hL => by
    refine wp_seq (wp_stackSpec stack) fun spec hspec => ?_
    have hstack := hs.stack stack spec hspec
    rw [reached_cons hspec] at hL
    have hmore := fun stack' h => hL stack' (List.mem_cons_of_mem stack h)
    refine wp_seq (wp_covers (hstack.declared _ hstack.lists)) fun covered hcovered => ?_
    split
    · rename_i htrue
      have hcov := hcovered.mp htrue
      have hstackOs : (cat.stackOs printable stack (some build) facts).wp L
          (SelectsOs cat stack (some build) facts) Err.IsVersion := by
        refine wp_mono id (fun _ h => h) (fun x hx => hx.1) (hs.wp_stackOs facts fun spec' hspec' => ?_)
        exact hL stack List.mem_cons_self spec' hspec' (Option.some.inj (hspec.symm.trans hspec') ▸ hcov)
      refine wp_seq hstackOs fun ref href => ?_
      have hmem : ref ∈ spec.supported := by
        obtain ⟨spec', hspec', -, hsupp, -⟩ := href
        obtain rfl : spec = spec' := Option.some.inj (hspec.symm.trans hspec')
        exact hsupp
      refine wp_seq (wp_roleNames hs (hstack.declared ref hmem)) fun names hn => ?_
      refine wp_seq (wp_coveredNames hmore) fun others ho => ?_
      refine names_congr (names_append hn ho) ?_
      ext p
      have hsorted : ∀ role, role ∈ sortedStrs roles ↔ role ∈ roles := fun role => by simp [sortedStrs]
      simp only [pairs, coveredPairs, Set.mem_union, Set.mem_ofPred_eq, List.mem_cons, Prod.ext_iff, hsorted]
      constructor
      · rintro (⟨hr, h⟩ | ⟨stack', roles', spec', hin, hrest⟩)
        · exact ⟨stack, roles, spec, .inl ⟨rfl, rfl⟩, hspec, hcov, hr, h ▸ href⟩
        · exact ⟨stack', roles', spec', .inr hin, hrest⟩
      · rintro ⟨stack', roles', spec', ⟨rfl, rfl⟩ | hin, hspec', hcov', hr, hsel⟩
        · exact .inl ⟨hr, hsel.unique href⟩
        · exact .inr ⟨stack', roles', spec', hin, hspec', hcov', hr, hsel⟩
    · rename_i hfalse
      refine wp_mono id (fun others ho => names_congr ho ?_) (fun _ h => h) (wp_coveredNames hmore)
      ext p
      simp only [coveredPairs, Set.mem_ofPred_eq, List.mem_cons, Prod.ext_iff]
      constructor
      · rintro ⟨stack', roles', spec', hin, hrest⟩
        exact ⟨stack', roles', spec', .inr hin, hrest⟩
      · rintro ⟨stack', roles', spec', ⟨rfl, rfl⟩ | hin, hspec', hcov', hrest⟩
        · obtain rfl : spec = spec' := Option.some.inj (hspec.symm.trans hspec')
          exact absurd (hcovered.mpr hcov') hfalse
        · exact ⟨stack', roles', spec', hin, hspec', hcov', hrest⟩

/-- **The boxes of a build file** are the shared boxes and those of the stacks that it covers. -/
theorem wp_boxesForBuild {build : BuildFile} {facts : HostFacts} {roles : Dict Str (List Str)}
    (hL : ∀ stack ∈ reached cat roles.items, ∀ spec, cat.stackSpecs.get? stack = some spec →
      CoversDefault cat build facts spec.default →
      maxStrDigits < digitsOf (Catalog.requested spec (some build)).major → L) :
    (boxesForBuild printable cat build facts roles).wp L
      (fun names => names.Nodup ∧ Names cat (sharedPairs cat ∪ coveredPairs cat build facts roles.items) names)
      Err.IsVersion := by
  refine wp_seq (wp_sharedNames hs fun _ h => h) fun names hn => ?_
  refine wp_seq (wp_coveredNames hs hL) fun others ho => ?_
  have hboth : Names cat (sharedPairs cat ∪ coveredPairs cat build facts roles.items) (names ++ others) :=
    names_append hn ho
  refine ⟨nodup_addHosts _ List.nodup_nil, fun name => ?_, hboth.2⟩
  rw [mem_addHosts, ← hboth.1]
  simp

/-- A stack that is reached and asked for an OS beyond the limit ends the run. -/
theorem exec_coveredNames_long {build : BuildFile} {facts : HostFacts} : ∀ {stackRoles : List (Str × List Str)}
    {stack : Str} {spec : StackSpec}, stack ∈ reached cat stackRoles → cat.stackSpecs.get? stack = some spec →
    CoversDefault cat build facts spec.default →
    (∀ spec : StackSpec, maxStrDigits < digitsOf (Catalog.requested spec (some build)).major) →
    (coveredNames printable cat build facts stackRoles).exec = .error .valueError
  | [], stack, spec, hstack, _, _, _ => absurd hstack (by simp [reached])
  | (first, roles) :: more, stack, spec, hstack, hspec, hcov, hlong => by
    have hfirst : ∃ spec₁, cat.stackSpecs.get? first = some spec₁ := by
      rw [← Option.isSome_iff_exists]
      by_contra hnone
      simp [reached, hnone] at hstack
    obtain ⟨spec₁, hspec₁⟩ := hfirst
    have hsound := hs.stack first spec₁ hspec₁
    have hcovers : (covers cat build facts spec₁.default).wp False
        (fun c => c = true ↔ CoversDefault cat build facts spec₁.default) (fun _ => False) :=
      wp_covers (hsound.declared _ hsound.lists)
    obtain ⟨covered, hexec, hcovered⟩ := exec_ok_of_wp hcovers
    have hspecExec : (cat.stackSpec printable first).exec = .ok spec₁ := by
      rw [Catalog.stackSpec, hspec₁]
      rfl
    rw [coveredNames, exec_bind, hspecExec]
    show (_ : V (List Str)).exec = _
    rw [exec_bind, hexec]
    show (_ : V (List Str)).exec = _
    split
    · rw [exec_bind, hs.exec_stackOs_long facts hspec₁ (hlong spec₁)]
      rfl
    · rename_i hfalse
      rw [reached_cons hspec₁] at hstack
      rcases List.mem_cons.mp hstack with rfl | hmem
      · obtain rfl : spec₁ = spec := Option.some.inj (hspec₁.symm.trans hspec)
        exact absurd (hcovered.mpr hcov) hfalse
      · exact exec_coveredNames_long hmem hspec hcov hlong

/-- **A build file's boxes fail for a reason**, unless its OS is beyond the limit
and a stack of this family comes before any unknown one. -/
theorem boxesForBuild_onlyVersion (build : BuildFile) (facts : HostFacts) (roles : Dict Str (List Str)) :
    OnlyVersion (boxesForBuild printable cat build facts roles) ↔
      ∀ ref, build.os = some ref → digitsOf ref.major ≤ maxStrDigits ∨
        ∀ stack ∈ reached cat roles.items, ∀ spec, cat.stackSpecs.get? stack = some spec →
          spec.default.family ≠ ref.family := by
  constructor
  · intro honly ref href
    by_contra hcon
    obtain ⟨hlong, hfam⟩ := not_or.mp hcon
    push Not at hfam
    obtain ⟨stack, hstack, spec, hspec, heq⟩ := hfam
    have hcov : CoversDefault cat build facts spec.default := by
      rw [CoversDefault, href]
      exact heq.symm
    have hcovered : (coveredNames printable cat build facts roles.items).exec = .error .valueError :=
      exec_coveredNames_long hs hstack hspec hcov fun spec => by
        simp only [Catalog.requested, Option.bind_some, href, Option.getD_some]
        omega
    refine not_onlyVersion ?_ honly
    have hshared : (sharedNames printable cat sharedRoles).wp False _ fun _ => False :=
      wp_sharedNames hs fun _ h => h
    obtain ⟨names, hnames, -⟩ := exec_ok_of_wp hshared
    rw [boxesForBuild, exec_bind, hnames]
    show (_ : V (List Str)).exec = _
    rw [exec_bind, hcovered]
    rfl
  · intro hcond
    refine onlyVersion_of_wp (wp_boxesForBuild hs fun stack hstack spec hspec hcov hlong => ?_)
    rw [CoversDefault] at hcov
    cases href : build.os with
    | none =>
      have hsound := hs.stack stack spec hspec
      have hle := short_of_mem hs.entry (hsound.declared _ hsound.lists)
      simp only [Catalog.requested, Option.bind_some, href, Option.getD_none] at hlong
      omega
    | some ref =>
      simp only [Catalog.requested, Option.bind_some, href, Option.getD_some] at hlong
      rw [href] at hcov
      rcases hcond ref href with hshort | hfam
      · omega
      · exact hfam stack hstack spec hspec hcov.symm

theorem allBoxes_onlyVersion (facts : Option HostFacts) (roles : Dict Str (List Str)) :
    OnlyVersion (cat.allBoxes printable facts roles) := onlyVersion_of_wp (wp_allBoxes hs facts roles)

end
end Lab
end MqResiliency
