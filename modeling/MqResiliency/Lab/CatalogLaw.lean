/-
# What a sound catalog promises

A catalog is `Sound` if every reference in it is declared, its stacks are of
one family each, and its defaults are allowed. On a sound catalog its methods
fail only with a `VersionError`, for all arguments but those that name an OS
major beyond Python's limit on the digits of an integer (`box_onlyVersion`,
`stackOs_onlyVersion`, `allBoxes_onlyVersion`, `boxesForBuild_onlyVersion`):
to refuse such a reference, they print it.
-/
import MqResiliency.Lab.Fleet

namespace MqResiliency
namespace Lab

open Py Conv

/-! ### Failures -/

/-- The failures that are meant. -/
def Err.IsVersion : Err → Prop
  | .version _ => True
  | .lookup => False

/-- A run raises nothing but `VersionError`s. -/
def OnlyVersion {α : Type} (c : V α) : Prop := ∀ x, c.exec = .error x → ∃ msg, x = .own (.version msg)

section
variable {α : Type} {L : Prop} {Q : α → Prop}

@[simp] theorem wp_refuse (parts : List Str) : (refuse parts : V α).wp L Q Err.IsVersion := trivial

theorem onlyVersion_of_wp {c : V α} (h : c.wp False Q Err.IsVersion) : OnlyVersion c := by
  obtain ⟨-, herr, hval⟩ := wp_exec h
  intro x hx
  match x with
  | .own (.version msg) => exact ⟨msg, rfl⟩
  | .own .lookup => exact (herr .lookup hx).elim
  | .valueError => exact (hval hx).elim

/-- Where only conversions can go wrong, the limit decides. -/
theorem onlyVersion_iff_short {c : V α} (h : c.wp True Q Err.IsVersion) : OnlyVersion c ↔ c.Short := by
  constructor
  · intro honly
    by_contra hshort
    obtain ⟨msg, hmsg⟩ := honly .valueError (exec_eq_valueError.mpr hshort)
    exact absurd hmsg (by simp)
  · intro hshort x hx
    have hne : c.exec ≠ .error .valueError := fun he => exec_eq_valueError.mp he hshort
    have herr := (wp_exec h).2.1
    match x with
    | .own (.version msg) => exact ⟨msg, rfl⟩
    | .own .lookup => exact (herr .lookup hx).elim
    | .valueError => exact absurd hx hne

theorem not_onlyVersion {c : V α} (h : c.exec = .error .valueError) : ¬ OnlyVersion c := fun honly => by
  obtain ⟨msg, hmsg⟩ := honly .valueError h
  exact absurd hmsg (by simp)

end

/-! ### Sound catalogs -/

/-- A stack may default to this version: IBM supports it, or the lab decided so. -/
def OsEntry.Allowed (e : OsEntry) : Prop := e.ibmUnsupportedSource = none ∨ e.labDefaultDecision.isSome

structure EntrySound (ref : OsRef) (e : OsEntry) : Prop where
  own : e.ref = ref
  known : isFamily ref.family = true
  short : digitsOf ref.major ≤ maxStrDigits
  gated : ∀ r ∈ e.requirements, r = x86_64_v3
  decision : e.ibmUnsupportedSource = none → e.labDefaultDecision = none

/-- All entries are sound. -/
def OsesSound (oses : Dict OsRef OsEntry) : Prop := ∀ ref e, oses.get? ref = some e → EntrySound ref e

structure StackSound (oses : Dict OsRef OsEntry) (spec : StackSpec) : Prop where
  nonempty : spec.supported ≠ []
  oneFamily : ∀ r ∈ spec.supported, r.family = spec.default.family
  declared : ∀ r ∈ spec.supported, (oses.get? r).isSome
  lists : spec.default ∈ spec.supported
  allowed : ∃ e, oses.get? spec.default = some e ∧ e.Allowed

/-- The role bakes on the OS. -/
def Bakes (cat : Catalog) (role : Str) (ref : OsRef) : Prop :=
  ∃ spec stem, cat.roles.get? role = some spec ∧ spec.bake.get? ref.family = some stem

/-- The OS of a shared role. -/
def Catalog.sharedRef (cat : Catalog) (role : Str) : OsRef :=
  if role ∈ infraMqRoles then cat.infraMq else cat.infra

/-- What the loader makes sure of. -/
structure Sound (cat : Catalog) : Prop where
  entry : OsesSound cat.oses
  stack : ∀ name spec, cat.stackSpecs.get? name = some spec → StackSound cat.oses spec
  infra : (cat.oses.get? cat.infra).isSome
  infraMq : ∃ e, cat.oses.get? cat.infraMq = some e ∧ e.Allowed
  shared : ∀ role ∈ sharedRoles, Bakes cat role (cat.sharedRef role)

theorem Sound.sharedRef_declared {cat : Catalog} (hs : Sound cat) (role : Str) :
    (cat.oses.get? (cat.sharedRef role)).isSome := by
  unfold Catalog.sharedRef
  split
  · obtain ⟨e, he, -⟩ := hs.infraMq
    rw [he]
    rfl
  · exact hs.infra

/-- What a requirement of an entry is for: a host without it cannot run the entry. -/
theorem EntrySound.hostCanRun_of_mem {ref : OsRef} {e : OsEntry} (h : EntrySound ref e) {r : Str}
    (hr : r ∈ e.requirements) (facts : HostFacts) (hrun : hostCanRun e facts = true) :
    r = x86_64_v3 ∧ facts.x86V3 = true := by
  have heq := h.gated r hr
  subst heq
  unfold hostCanRun at hrun
  simp only [Bool.and_eq_true, Bool.or_eq_true, decide_eq_true_eq] at hrun
  exact ⟨rfl, hrun.2.resolve_left fun hn => hn hr⟩

/-! ### References -/

section
variable {L : Prop} {ref : OsRef} {E : Err → Prop}

theorem OsRef.wp_text {Q : Str → Prop} (hQ : ∀ t, Q t) (hL : maxStrDigits < digitsOf ref.major → L) :
    ref.text.wp L Q E := ⟨fun _ => hQ _, hL⟩

theorem OsRef.wp_token {Q : Str → Prop} (hQ : Q (ref.family ++ textOf ref.major))
    (hL : maxStrDigits < digitsOf ref.major → L) : ref.token.wp L Q E := ⟨fun _ => hQ, hL⟩

theorem OsRef.exec_text_long (h : maxStrDigits < digitsOf ref.major) : ref.text.exec = .error .valueError :=
  if_neg (by omega)

theorem OsRef.wp_texts {refs : List OsRef} {Q : List Str → Prop} (hQ : ∀ ts, Q ts)
    (hL : ∀ r ∈ refs, maxStrDigits < digitsOf r.major → L) : (OsRef.texts refs).wp L Q E := by
  induction refs generalizing Q with
  | nil => exact hQ []
  | cons r refs ih =>
    rw [OsRef.texts, wp_bind]
    refine OsRef.wp_text (fun t => ?_) (hL r List.mem_cons_self)
    rw [wp_bind]
    exact ih (fun ts => hQ _) fun r' hr' => hL r' (List.mem_cons_of_mem r hr')

end

/-! ### The methods -/

/-- The name of a box. -/
def boxName (role : Str) (ref : OsRef) : Str := role ++ '-' :: (ref.family ++ textOf ref.major)

/-- `b` is the box of the role on the OS. -/
structure BoxOf (cat : Catalog) (role : Str) (ref : OsRef) (b : BoxEntry) : Prop where
  bakes : Bakes cat role ref
  name : b.name = boxName role ref
  role : b.role = role
  os : cat.oses.get? ref = some b.os

/-- The stack gets this OS: the requested one, if it is supported and the host can run it. -/
def SelectsOs (cat : Catalog) (stack : Str) (build : Option BuildFile) (facts : HostFacts) (ref : OsRef) :
    Prop :=
  ∃ spec, cat.stackSpecs.get? stack = some spec ∧ ref = Catalog.requested spec build ∧
    ref ∈ spec.supported ∧ ∃ e, cat.oses.get? ref = some e ∧ hostCanRun e facts = true

theorem wp_osEntry {cat : Catalog} {L : Prop} {ref : OsRef} (h : (cat.oses.get? ref).isSome)
    {E : Err → Prop} : (cat.osEntry ref).wp L (fun e => cat.oses.get? ref = some e) E := by
  obtain ⟨e, he⟩ := Option.isSome_iff_exists.mp h
  rw [Catalog.osEntry, he]
  exact rfl

theorem wp_sharedOs {cat : Catalog} {printable : Char → Bool} {L : Prop} {role : Str} (h : role ∈ sharedRoles) {E : Err → Prop} :
    (cat.sharedOs printable role).wp L (fun r => r = cat.sharedRef role) E := by
  unfold Catalog.sharedOs Catalog.sharedRef
  split
  · rfl
  · rename_i hmq
    rcases List.mem_append.mp h with hinfra | hmq'
    · rw [if_pos hinfra]
      rfl
    · exact absurd hmq' hmq

/-- A known family has a name. -/
theorem isFamily_cases {family : Str} (h : isFamily family = true) :
    family = "ubuntu".toList ∨ family = "rhel".toList := by
  simpa [isFamily, families] using h

theorem wp_article {L : Prop} {family : Str} (h : isFamily family = true) {Q : Str → Prop} (hQ : ∀ t, Q t)
    {E : Err → Prop} : (Catalog.article family).wp L Q E := by
  rcases isFamily_cases h with rfl | rfl
  · exact hQ _
  · exact hQ _

theorem wp_displayName {L : Prop} {family : Str} (h : isFamily family = true) {Q : Str → Prop}
    (hQ : ∀ t, Q t) {E : Err → Prop} : (displayName family).wp L Q E := by
  rcases isFamily_cases h with rfl | rfl
  · exact hQ _
  · exact hQ _

theorem wp_stackSpec {cat : Catalog} {printable : Char → Bool} {L : Prop} (stack : Str) :
    (cat.stackSpec printable stack).wp L (fun spec => cat.stackSpecs.get? stack = some spec)
      Err.IsVersion := by
  unfold Catalog.stackSpec
  split
  · rename_i spec hspec
    exact hspec
  · exact wp_refuse _

theorem wp_runnable {cat : Catalog} {L : Prop} (ref : OsRef) (facts : HostFacts) {E : Err → Prop} :
    ∀ {refs : List OsRef} {Q : List OsRef → Prop}, (∀ r ∈ refs, (cat.oses.get? r).isSome) →
      (∀ rs, (∀ r ∈ rs, r ∈ refs) → Q rs) → (cat.runnable ref facts refs).wp L Q E
  | [], _, _, hQ => hQ [] fun _ h => h
  | r :: refs, Q, hdecl, hQ => by
    have hrest : ∀ r' ∈ refs, (cat.oses.get? r').isSome := fun r' h => hdecl r' (List.mem_cons_of_mem r h)
    unfold Catalog.runnable
    split
    · exact wp_runnable ref facts hrest fun rs hrs => hQ rs fun r' h => List.mem_cons_of_mem r (hrs r' h)
    · refine wp_seq (wp_osEntry (hdecl r List.mem_cons_self)) fun e _ => ?_
      rw [wp_bind]
      refine wp_runnable ref facts hrest fun rs hrs => ?_
      show Q (if hostCanRun e facts = true then r :: rs else rs)
      refine hQ _ fun r' hr' => ?_
      split at hr'
      · rcases List.mem_cons.mp hr' with rfl | hmem
        · exact List.mem_cons_self
        · exact List.mem_cons_of_mem r (hrs r' hmem)
      · exact List.mem_cons_of_mem r (hrs r' hr')

section
variable {cat : Catalog} (hentry : OsesSound cat.oses) {printable : Char → Bool} {L : Prop}
include hentry

theorem short_of_mem {ref : OsRef} (h : (cat.oses.get? ref).isSome) : digitsOf ref.major ≤ maxStrDigits := by
  obtain ⟨e, he⟩ := Option.isSome_iff_exists.mp h
  exact (hentry ref e he).short

/-- The known versions can be printed. -/
theorem wp_known_texts {E : Err → Prop} {Q : List Str → Prop} (hQ : ∀ ts, Q ts) :
    (OsRef.texts (sortedRefs cat.oses.keys)).wp L Q E := by
  refine OsRef.wp_texts hQ fun r hr hlong => ?_
  have hmem : r ∈ cat.oses.keys := by simpa [sortedRefs] using hr
  have hle := short_of_mem hentry (Dict.get?_isSome.mpr hmem)
  omega

theorem wp_entry {ref : OsRef} (hL : maxStrDigits < digitsOf ref.major → L) :
    (cat.entry ref).wp L (fun e => cat.oses.get? ref = some e) Err.IsVersion := by
  unfold Catalog.entry
  split
  · rename_i e he
    exact he
  · rw [wp_bind]
    refine wp_known_texts hentry fun ts => ?_
    rw [wp_bind]
    exact OsRef.wp_text (fun t => wp_refuse _) hL

theorem wp_box {role : Str} {ref : OsRef}
    (hL : (cat.roles.get? role).isSome → maxStrDigits < digitsOf ref.major → L) :
    (cat.box printable role ref).wp L (BoxOf cat role ref) Err.IsVersion := by
  unfold Catalog.box
  split
  · exact wp_refuse _
  · rename_i spec hspec
    have hL' : maxStrDigits < digitsOf ref.major → L := hL (by rw [hspec]; rfl)
    refine wp_seq (wp_entry hentry hL') fun e he => ?_
    split
    · exact wp_refuse _
    · rename_i stem hstem
      rw [wp_bind]
      refine OsRef.wp_token ?_ hL'
      exact ⟨⟨spec, stem, hspec, hstem⟩, rfl, rfl, he⟩

/-- A role that bakes on a declared OS has its box. -/
theorem wp_box_of_bakes {role : Str} {ref : OsRef} (hbakes : Bakes cat role ref)
    (hdecl : (cat.oses.get? ref).isSome) {E : Err → Prop} :
    (cat.box printable role ref).wp L (BoxOf cat role ref) E := by
  have hshort := short_of_mem hentry hdecl
  obtain ⟨e, he⟩ := Option.isSome_iff_exists.mp hdecl
  obtain ⟨spec, stem, hspec, hstem⟩ := hbakes
  have hentryExec : cat.entry ref = pure e := by rw [Catalog.entry, he]
  unfold Catalog.box
  rw [hspec]
  dsimp only
  rw [hentryExec, wp_bind, wp_pure, hstem, wp_bind]
  exact OsRef.wp_token ⟨⟨spec, stem, hspec, hstem⟩, rfl, rfl, he⟩ fun hlong => absurd hlong (by omega)

end

namespace Sound

variable {cat : Catalog} (hs : Sound cat) {printable : Char → Bool} {L : Prop}
include hs

/-- **A box fails for a reason**, unless its OS is beyond the limit. -/
theorem box_onlyVersion (role : Str) (ref : OsRef) :
    OnlyVersion (cat.box printable role ref) ↔
      (cat.roles.get? role = none ∨ digitsOf ref.major ≤ maxStrDigits) := by
  constructor
  · intro honly
    by_contra hcon
    obtain ⟨hrole, hlong⟩ := not_or.mp hcon
    obtain ⟨spec, hspec⟩ := Option.ne_none_iff_exists'.mp hrole
    refine not_onlyVersion ?_ honly
    have hnone : cat.oses.get? ref = none := by
      refine Dict.get?_eq_none.mpr fun hmem => hlong (short_of_mem hs.entry (Dict.get?_isSome.mpr hmem))
    have hentry : (cat.entry ref).exec = .error .valueError := by
      unfold Catalog.entry
      rw [hnone, exec_bind]
      obtain ⟨ts, hts, -⟩ := exec_ok_of_wp (wp_known_texts hs.entry fun _ => trivial)
      rw [hts]
      show ((ref.text >>= fun t => _) : V OsEntry).exec = _
      rw [exec_bind, OsRef.exec_text_long (by omega)]
      rfl
    unfold Catalog.box
    rw [hspec, exec_bind, hentry]
    rfl
  · intro hcond
    refine onlyVersion_of_wp (wp_box hs.entry fun hrole hlong => ?_)
    rcases hcond with hnone | hshort
    · rw [hnone] at hrole
      exact absurd hrole (by simp)
    · omega

/-- The host gates pass exactly the versions that the host can run. -/
theorem wp_gateHost {stack : Str} {supported : List OsRef} (hdecl : ∀ r ∈ supported, (cat.oses.get? r).isSome)
    {ref : OsRef} (hmem : ref ∈ supported) (facts : HostFacts) :
    (cat.gateHost stack supported ref facts).wp L
      (fun r => r = ref ∧ ∃ e, cat.oses.get? ref = some e ∧ hostCanRun e facts = true)
      (fun x => x.IsVersion ∧ ¬ ∃ e, cat.oses.get? ref = some e ∧ hostCanRun e facts = true) := by
  obtain ⟨e, he⟩ := Option.isSome_iff_exists.mp (hdecl ref hmem)
  have hsound := hs.entry ref e he
  have hentry : cat.entry ref = pure e := by rw [Catalog.entry, he]
  have hcan : (∃ e', cat.oses.get? ref = some e' ∧ hostCanRun e' facts = true) ↔ hostCanRun e facts = true := by
    rw [he]
    simp
  rw [Catalog.gateHost, hentry, hcan, wp_bind, wp_pure]
  split
  · rename_i harch
    refine wp_seq (wp_displayName hsound.known (Q := fun _ => True) fun _ => trivial) fun name _ => ?_
    refine ⟨trivial, ?_⟩
    simp [hostCanRun, harch]
  · rename_i harch
    split
    · rename_i hcpu
      rw [wp_bind]
      refine wp_runnable ref facts hdecl fun rs hrs => ?_
      have hno : ¬ hostCanRun e facts = true := by
        simp [hostCanRun, hcpu.1, hcpu.2]
      have hfix : ∀ L, (Catalog.gateHost.fixFor stack rs).wp L (fun _ => True) (fun x => x.IsVersion ∧
          ¬ hostCanRun e facts = true) := by
        intro L
        unfold Catalog.gateHost.fixFor
        split
        · rename_i r rs'
          rw [wp_bind]
          refine OsRef.wp_text (fun t => trivial) fun hlong => ?_
          have hle := short_of_mem hs.entry (hdecl r (hrs r List.mem_cons_self))
          omega
        · trivial
      refine wp_seq (hfix L) fun fix _ => ?_
      rw [wp_bind]
      have hshort := hsound.short
      exact OsRef.wp_text (fun t => ⟨trivial, hno⟩) fun hlong => absurd hlong (by omega)
    · rename_i hcpu
      refine ⟨rfl, ?_⟩
      have harch' : archOk e facts = true := by simpa using harch
      simp only [hostCanRun, harch', Bool.true_and, Bool.or_eq_true, decide_eq_true_eq]
      by_cases hreq : x86_64_v3 ∈ e.requirements
      · right
        have hne : facts.x86V3 ≠ false := fun h => hcpu ⟨hreq, h⟩
        simpa using hne
      · exact .inl hreq

theorem wp_stackOs {stack : Str} {build : Option BuildFile} (facts : HostFacts)
    (hL : ∀ spec, cat.stackSpecs.get? stack = some spec →
      maxStrDigits < digitsOf (Catalog.requested spec build).major → L) :
    (cat.stackOs printable stack build facts).wp L (SelectsOs cat stack build facts)
      (fun x => x.IsVersion ∧ ∀ r, ¬ SelectsOs cat stack build facts r) := by
  rw [Catalog.stackOs, Catalog.stackSpec]
  cases hspec : cat.stackSpecs.get? stack with
  | none =>
    refine ⟨trivial, fun r hr => ?_⟩
    obtain ⟨spec, hspec', -⟩ := hr
    rw [hspec] at hspec'
    exact absurd hspec' (by simp)
  | some spec =>
    have hstack := hs.stack stack spec hspec
    have hL' := hL spec hspec
    have hselects : ∀ r, SelectsOs cat stack build facts r ↔ r = Catalog.requested spec build ∧
        r ∈ spec.supported ∧ ∃ e, cat.oses.get? r = some e ∧ hostCanRun e facts = true := by
      intro r
      rw [SelectsOs, hspec]
      simp
    have hdefault : isFamily spec.default.family = true := by
      obtain ⟨e, he, -⟩ := hstack.allowed
      exact (hs.entry _ e he).known
    rw [wp_bind, wp_pure, wp_bind]
    refine OsRef.wp_texts (fun listed => ?_) fun r hr hlong => ?_
    · split
      · rename_i hfam
        refine wp_seq (wp_article hdefault (Q := fun _ => True) fun _ => trivial) fun a _ => ?_
        rw [wp_bind]
        refine OsRef.wp_text (fun t => ⟨trivial, fun r hr => ?_⟩) hL'
        obtain ⟨rfl, hmem, -⟩ := (hselects r).mp hr
        exact hfam (hstack.oneFamily _ hmem)
      · split
        · rename_i hnot
          rw [wp_bind]
          refine OsRef.wp_text (fun t => ⟨trivial, fun r hr => ?_⟩) hL'
          obtain ⟨rfl, hmem, -⟩ := (hselects r).mp hr
          exact hnot hmem
        · rename_i hnot
          have hmem : Catalog.requested spec build ∈ spec.supported := by
            by_contra h
            exact hnot h
          refine wp_mono id (fun r hr => ?_) (fun x hx => ?_) (hs.wp_gateHost hstack.declared hmem facts)
          · obtain ⟨rfl, he⟩ := hr
            exact (hselects _).mpr ⟨rfl, hmem, he⟩
          · refine ⟨hx.1, fun r hr => hx.2 ?_⟩
            obtain ⟨rfl, -, he⟩ := (hselects r).mp hr
            exact he
    · have := short_of_mem hs.entry (hstack.declared r hr)
      omega

theorem exec_stackOs_long {stack : Str} {spec : StackSpec} {build : Option BuildFile} (facts : HostFacts)
    (hspec : cat.stackSpecs.get? stack = some spec)
    (hlong : maxStrDigits < digitsOf (Catalog.requested spec build).major) :
    (cat.stackOs printable stack build facts).exec = .error .valueError := by
  have hstack := hs.stack stack spec hspec
  have hshort : ∀ r ∈ spec.supported, digitsOf r.major ≤ maxStrDigits := fun r hr =>
    short_of_mem hs.entry (hstack.declared r hr)
  have hdefault : isFamily spec.default.family = true := by
    obtain ⟨e, he, -⟩ := hstack.allowed
    exact (hs.entry _ e he).known
  have htexts : (OsRef.texts spec.supported).wp False (fun _ => True) (fun _ => False) :=
    OsRef.wp_texts (fun _ => trivial) fun r hr h => by
      have hle := hshort r hr
      omega
  obtain ⟨listed, hlisted, -⟩ := exec_ok_of_wp htexts
  have harticle : (Catalog.article spec.default.family).wp False (fun _ => True) (fun _ => False) :=
    wp_article hdefault fun _ => trivial
  obtain ⟨a, ha, -⟩ := exec_ok_of_wp harticle
  have hnot : Catalog.requested spec build ∉ spec.supported := fun hmem => by
    have := hshort _ hmem
    omega
  rw [Catalog.stackOs, Catalog.stackSpec, hspec, exec_bind]
  show (_ : V OsRef).exec = _
  rw [exec_bind, hlisted]
  show (_ : V OsRef).exec = _
  split
  · rw [exec_bind, ha]
    show (_ : V OsRef).exec = _
    rw [exec_bind, OsRef.exec_text_long hlong]
    rfl
  · rw [exec_bind, OsRef.exec_text_long hlong]
    rfl

/-- **A stack gets no OS for a reason**, unless the one requested is beyond the limit. -/
theorem stackOs_onlyVersion (stack : Str) (build : Option BuildFile) (facts : HostFacts) :
    OnlyVersion (cat.stackOs printable stack build facts) ↔
      ∀ spec, cat.stackSpecs.get? stack = some spec →
        digitsOf (Catalog.requested spec build).major ≤ maxStrDigits := by
  constructor
  · intro honly spec hspec
    by_contra hlong
    exact not_onlyVersion (hs.exec_stackOs_long facts hspec (by omega)) honly
  · intro hcond
    refine onlyVersion_of_wp (wp_mono id (fun _ h => h) (fun x hx => hx.1) (hs.wp_stackOs facts ?_))
    intro spec hspec hlong
    have hle := hcond spec hspec
    omega

end Sound
end Lab
end MqResiliency
