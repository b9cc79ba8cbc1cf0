/-
# Loading is total, and sound

What `load_catalog` accepts is `Sound` (`sound_of_load`), and what it refuses
it refuses with a `VersionError`, but for one thing: Python's limit on the
digits of an integer, which the loader meets in the majors of `os`, in the
references, and in what it prints. A value whose integers are all within the
limit is refused or accepted as it should be (`short_of_within`).
-/
import Mathlib.Data.List.Dedup
import MqResiliency.Lab.LoadCatalog
import MqResiliency.Lab.FleetLaw

namespace MqResiliency
namespace Lab
namespace Load

open Py Conv Yaml

/-- The value itself is within the limit, as an integer and as a reference,
unless `L`. -/
def Within (L : Prop) : Yaml → Prop
  | .str s => ∀ p, OsRef.parts s = some p → maxStrDigits < p.2.length → L
  | v => v.Prints L

variable {fs : Files} {L : Prop}

theorem prints_of_within {v : Yaml} (h : v.All (Within L)) : v.All (Prints L) := by
  refine all_mono (fun w hw => ?_) h
  cases w <;> first | exact hw | trivial

theorem within_null : Within L null := trivial

/-! ### Shapes -/

theorem wp_mapping {value : Yaml} (h : value.All (Within L)) (loc : Str) :
    (mapping value loc).wp L (AllItems (Within L)) Err.IsVersion := by
  unfold mapping
  split
  · exact h.2
  · exact wp_refuse _

theorem wp_unknownKeys (allowed : List Str) {E : Err → Prop} : ∀ {items : Items}, AllItems (Within L) items →
    (unknownKeys fs allowed items).wp L (fun _ => True) E
  | [], _ => trivial
  | (k, v) :: items, h => by
    unfold unknownKeys
    split
    · exact wp_unknownKeys allowed h.2.2
    · refine wp_seq (wp_text (Q := fun _ => True) (prints_of_within h.1) fun _ => trivial) fun t _ => ?_
      exact wp_seq (wp_unknownKeys allowed h.2.2) fun ts _ => trivial

theorem wp_checkKeys {raw : Items} (h : AllItems (Within L) raw) (allowed : List Str) (loc fix : Str) :
    (checkKeys fs raw allowed loc fix).wp L (fun _ => True) Err.IsVersion := by
  refine wp_seq (wp_unknownKeys allowed h) fun unknown _ => ?_
  split
  · trivial
  · exact wp_refuse _

/-- A refusal that prints a value. -/
theorem wp_refuse_repr {α : Type} {v : Yaml} {Q : α → Prop} (h : v.All (Within L)) (parts : Str → List Str) :
    (v.repr fs.printable >>= fun t => (refuse (parts t) : V α)).wp L Q Err.IsVersion :=
  wp_seq (wp_repr (Q := fun _ => True) (prints_of_within h) fun _ => trivial) fun _ _ => wp_refuse _

theorem wp_optString {raw : Items} (h : AllItems (Within L) raw) (key loc : Str) :
    (optString fs raw key loc).wp L (fun _ => True) Err.IsVersion := by
  unfold optString
  split
  · trivial
  · trivial
  · exact wp_refuse_repr (all_get h within_null) _

theorem wp_required {raw : Items} (h : AllItems (Within L) raw) (key loc : Str) :
    (required fs raw key loc).wp L (fun _ => True) Err.IsVersion := by
  refine wp_seq (wp_optString h key loc) fun value _ => ?_
  split
  · trivial
  · exact wp_refuse _

/-- The digits of a reference. -/
theorem parts_digits {text family digits : Str} (h : OsRef.parts text = some (family, digits)) :
    digits ≠ [] ∧ ∀ c ∈ digits, c.isDigit := by
  unfold OsRef.parts at h
  split at h
  · split at h
    · rename_i hparts
      obtain ⟨rfl, rfl⟩ : _ = family ∧ _ = digits := by simpa using h
      obtain ⟨-, -, hne, hdigits⟩ := hparts
      exact ⟨hne, List.all_eq_true.mp hdigits⟩
    · exact absurd h (by simp)
  · exact absurd h (by simp)

/-- What a reference is read as can be printed. -/
theorem wp_parse {s : Str} (h : Within L (.str s)) :
    (OsRef.parse fs.printable s).wp L (fun r => digitsOf r.major ≤ maxStrDigits) Err.IsVersion := by
  unfold OsRef.parse
  split
  · rename_i family digits hparts
    split
    · obtain ⟨hne, hdigits⟩ := parts_digits hparts
      refine ⟨fun hshort => ?_, h _ hparts⟩
      have hle := digitsOf_ofDigitChars hne hdigits
      exact le_trans hle hshort
    · exact wp_refuse _
  · exact wp_refuse _

theorem wp_ref {value : Yaml} (h : value.All (Within L)) (loc : Str) :
    (ref fs value loc).wp L (fun r => digitsOf r.major ≤ maxStrDigits) Err.IsVersion := by
  unfold ref
  split
  · rename_i s
    rw [wp_tryCatch]
    refine wp_mono id (fun _ h => h) (fun e he => ?_) (wp_parse h)
    match e with
    | .version msg => exact wp_refuse _
    | .lookup => exact he.elim
  · exact wp_refuse_repr h _

/-! ### `os` -/

theorem wp_ibmUnsupportedSource {raw : Yaml} (h : raw.All (Within L)) (loc : Str) :
    (ibmUnsupportedSource fs raw loc).wp L (fun _ => True) Err.IsVersion := by
  unfold ibmUnsupportedSource
  split
  · trivial
  · refine wp_seq (wp_mapping h _) fun support hsupport => ?_
    refine wp_seq (wp_checkKeys hsupport _ _ _) fun _ _ => ?_
    dsimp only
    split
    · exact wp_seq (wp_optString hsupport _ _) fun _ _ => trivial
    · split
      · exact wp_seq (wp_required hsupport _ _) fun _ _ => trivial
      · exact wp_refuse_repr (all_get hsupport within_null) _

/-- Only an unsupported entry has a decision. -/
theorem wp_labDefaultDecision {raw : Yaml} (h : raw.All (Within L)) (loc : Str) (source : Option Str) :
    (labDefaultDecision fs raw loc source).wp L (fun d => source = none → d = none) Err.IsVersion := by
  unfold labDefaultDecision
  split
  · exact fun _ => rfl
  · refine wp_seq (wp_mapping h _) fun spec hspec => ?_
    refine wp_seq (wp_checkKeys hspec _ _ _) fun _ _ => ?_
    split
    · exact wp_refuse _
    · rename_i hsource
      refine wp_seq (wp_required hspec _ _) fun decided _ => ?_
      split
      · exact wp_refuse _
      · refine wp_seq (wp_required hspec _ _) fun r _ => ?_
        split
        · exact wp_refuse _
        · exact fun hnone => absurd (by rw [hnone]; rfl) hsource

theorem wp_archPin {spec : Items} (h : AllItems (Within L) spec) (loc : Str) :
    (archPin fs spec loc).wp L (fun _ => True) Err.IsVersion := by
  refine wp_seq (wp_optString h _ _) fun arch _ => ?_
  split
  · trivial
  · split
    · trivial
    · exact wp_refuse _

/-- The requirements of an entry are known. -/
theorem wp_requirements (spec : Items) (loc : Str) :
    (requirements spec loc).wp L (fun rs => ∀ r ∈ rs, r = x86_64_v3) Err.IsVersion := by
  unfold requirements
  split
  · split
    · rename_i rs hrs
      split
      · rename_i hnone
        intro r hr
        have hmem : r ∈ sortedStrs rs.dedup := by simpa [sortedStrs, List.mem_dedup] using hr
        have hknown := List.filter_eq_nil_iff.mp hnone r hmem
        simpa [knownRequirements] using hknown
      · exact wp_refuse _
    · exact wp_refuse _
  · exact wp_refuse _

theorem wp_forRhel {spec : Items} (h : AllItems (Within L) spec) (rhel : Bool) (key loc : Str) :
    (forRhel fs rhel spec key loc).wp L (fun _ => True) Err.IsVersion := by
  unfold forRhel
  split
  · exact wp_seq (wp_required h _ _) fun _ _ => trivial
  · exact wp_optString h _ _

theorem wp_osEntry {r : OsRef} (hr : isFamily r.family = true) {raw : Yaml} (h : raw.All (Within L))
    (hL : maxStrDigits < digitsOf r.major → L) :
    (osEntry fs r raw).wp L (EntrySound r) Err.IsVersion := by
  unfold osEntry
  rw [wp_bind]
  refine wp_ofInt.mpr ⟨fun hshort => ?_, hL⟩
  refine wp_seq (wp_mapping h _) fun spec hspec => ?_
  refine wp_seq (wp_checkKeys hspec _ _ _) fun _ _ => ?_
  refine wp_seq (wp_archPin hspec _) fun arch _ => ?_
  refine wp_seq (wp_requirements spec _) fun reqs hreqs => ?_
  refine wp_seq (wp_ibmUnsupportedSource (all_get hspec within_null) _) fun source _ => ?_
  refine wp_seq (wp_required hspec _ _) fun baseBox _ => ?_
  refine wp_seq (wp_optString hspec _ _) fun version _ => ?_
  refine wp_seq (wp_forRhel hspec _ _ _) fun point _ => ?_
  refine wp_seq (wp_forRhel hspec _ _ _) fun iso _ => ?_
  refine wp_seq (wp_labDefaultDecision (all_get hspec within_null) _ source) fun decision hdecision => ?_
  exact ⟨rfl, hr, hshort, hreqs, hdecision⟩

theorem set_sound {out : Dict OsRef OsEntry} (hout : OsesSound out) {r : OsRef} {e : OsEntry}
    (he : EntrySound r e) : OsesSound (out.set r e) := by
  intro ref e' hget
  rw [Dict.get?_set] at hget
  split at hget
  · rename_i heq
    obtain rfl : e = e' := by simpa using hget
    rwa [heq]
  · exact hout ref e' hget

theorem wp_majors {family : Str} (hfam : isFamily family = true) : ∀ {items : Items} {out : Dict OsRef OsEntry},
    AllItems (Within L) items → OsesSound out → (majors fs family out items).wp L OsesSound Err.IsVersion
  | [], _, _, hout => hout
  | (major, spec) :: items, out, h, hout => by
    unfold majors
    split
    · rename_i heq
      exact absurd heq (by simp)
    · rename_i major' spec' items' heq
      obtain ⟨⟨rfl, rfl⟩, rfl⟩ : (major = .int major' ∧ spec = spec') ∧ items = items' := by simpa using heq
      refine wp_seq (wp_osEntry hfam h.2.1 h.1) fun e he => ?_
      exact wp_majors hfam h.2.2 (set_sound hout he)
    · rename_i major' spec' items' _ heq
      obtain ⟨⟨rfl, rfl⟩, rfl⟩ : (major = major' ∧ spec = spec') ∧ items = items' := by simpa using heq
      exact wp_refuse_repr h.1 _

theorem wp_unknownFamily {family : Yaml} (h : family.All (Within L)) {Q : Dict OsRef OsEntry → Prop} :
    (osFamilies.unknownFamily fs family).wp L Q Err.IsVersion := wp_refuse_repr h _

theorem wp_osFamilies : ∀ {items : Items} {out : Dict OsRef OsEntry}, AllItems (Within L) items →
    OsesSound out → (osFamilies fs out items).wp L OsesSound Err.IsVersion
  | [], _, _, hout => hout
  | (family, specs) :: items, out, h, hout => by
    unfold osFamilies
    split
    · rename_i heq
      exact absurd heq (by simp)
    · rename_i family' specs' items' heq
      obtain ⟨⟨rfl, rfl⟩, rfl⟩ : (family = .str family' ∧ specs = specs') ∧ items = items' := by simpa using heq
      split
      · rename_i hfam
        refine wp_seq (wp_mapping h.2.1 _) fun ms hms => ?_
        refine wp_seq (wp_majors hfam hms hout) fun out' hout' => ?_
        exact wp_osFamilies h.2.2 hout'
      · exact wp_unknownFamily h.1
    · rename_i family' specs' items' _ heq
      obtain ⟨⟨rfl, rfl⟩, rfl⟩ : (family = family' ∧ specs = specs') ∧ items = items' := by simpa using heq
      exact wp_unknownFamily h.1

theorem wp_oses {raw : Yaml} (h : raw.All (Within L)) : (oses fs raw).wp L OsesSound Err.IsVersion := by
  refine wp_seq (wp_mapping h _) fun items hitems => ?_
  refine wp_seq (wp_osFamilies hitems fun ref e he => ?_) fun out hout => ?_
  · exact absurd he (by simp)
  · split
    · exact wp_refuse _
    · exact hout

/-! ### `roles` -/

theorem wp_bakeStems (loc : Str) : ∀ {items : Items} {out : Dict Str Str}, AllItems (Within L) items →
    (bakeStems fs loc out items).wp L (fun _ => True) Err.IsVersion
  | [], _, _ => trivial
  | (family, stem) :: items, out, h => by
    have hbad : (bakeStems.badStem fs loc family stem).wp L (fun _ => True) Err.IsVersion := by
      refine wp_seq (wp_repr (Q := fun _ => True) (prints_of_within h.1) fun _ => trivial) fun tf _ => ?_
      exact wp_refuse_repr h.2.1 _
    unfold bakeStems
    split
    · trivial
    · rename_i family' stem' items' heq
      obtain ⟨⟨rfl, rfl⟩, rfl⟩ : (family = .str family' ∧ stem = .str stem') ∧ items = items' := by
        simpa using heq
      split
      · exact wp_bakeStems loc h.2.2
      · exact hbad
    · rename_i family' stem' items' _ heq
      obtain ⟨⟨rfl, rfl⟩, rfl⟩ : (family = family' ∧ stem = stem') ∧ items = items' := by simpa using heq
      exact hbad

theorem wp_components (raw : Yaml) (loc : Str) :
    (components fs raw loc).wp L (fun _ => True) Err.IsVersion := by
  unfold components
  split
  · split
    · split
      · exact wp_refuse _
      · split
        · trivial
        · exact wp_refuse _
    · exact wp_refuse _
  · exact wp_refuse _

theorem wp_mqBearing (spec : Items) (loc : Str) :
    (mqBearing spec loc).wp L (fun _ => True) Err.IsVersion := by
  unfold mqBearing
  split
  · trivial
  · exact wp_refuse _

theorem wp_role {raw : Yaml} (h : raw.All (Within L)) (loc : Str) :
    (role fs raw loc).wp L (fun _ => True) Err.IsVersion := by
  refine wp_seq (wp_mapping h _) fun spec hspec => ?_
  refine wp_seq (wp_checkKeys hspec _ _ _) fun _ _ => ?_
  split
  · rename_i item items hbake
    have hitems : (Yaml.map (item :: items)).All (Within L) := hbake ▸ all_get hspec within_null
    refine wp_seq (wp_bakeStems _ hitems.2) fun bake _ => ?_
    refine wp_seq (wp_mqBearing _ _) fun bearing _ => ?_
    exact wp_seq (wp_components _ _) fun names _ => trivial
  · exact wp_refuse _

theorem wp_rolesFrom : ∀ {items : Items} {out : Dict Str RoleSpec}, AllItems (Within L) items →
    (rolesFrom fs out items).wp L (fun _ => True) Err.IsVersion
  | [], _, _ => trivial
  | (name, raw) :: items, out, h => by
    refine wp_seq (wp_text (Q := fun _ => True) (prints_of_within h.1) fun _ => trivial) fun t _ => ?_
    refine wp_seq (wp_role h.2.1 _) fun spec _ => ?_
    exact wp_rolesFrom h.2.2

theorem wp_roles {raw : Yaml} (h : raw.All (Within L)) :
    (roles fs raw).wp L (fun _ => True) Err.IsVersion :=
  wp_seq (wp_mapping h _) fun _ hitems => wp_rolesFrom hitems

/-! ### `runtime` -/

theorem wp_digests (loc : Str) : ∀ {items : Items} {out : Dict Str Str}, AllItems (Within L) items →
    (digests fs loc out items).wp L (fun _ => True) Err.IsVersion
  | [], _, _ => trivial
  | (arch, digest) :: items, out, h => by
    refine wp_seq (wp_text (Q := fun _ => True) (prints_of_within h.1) fun _ => trivial) fun t _ => ?_
    split
    · split
      · exact wp_digests loc h.2.2
      · exact wp_refuse _
    · exact wp_refuse _

theorem wp_keyTexts {E : Err → Prop} : ∀ {items : Items}, AllItems (Within L) items →
    (keyTexts fs items).wp L (fun _ => True) E
  | [], _ => trivial
  | (k, v) :: items, h => by
    refine wp_seq (wp_text (Q := fun _ => True) (prints_of_within h.1) fun _ => trivial) fun t _ => ?_
    exact wp_seq (wp_keyTexts h.2.2) fun ts _ => trivial

theorem wp_python {raw : Yaml} (h : raw.All (Within L)) :
    (python fs raw).wp L (fun _ => True) Err.IsVersion := by
  refine wp_seq (wp_mapping h _) fun spec hspec => ?_
  refine wp_seq (wp_checkKeys hspec _ _ _) fun _ _ => ?_
  refine wp_seq (wp_required hspec _ _) fun version _ => ?_
  split
  · exact wp_refuse _
  · refine wp_seq (wp_required hspec _ _) fun release _ => ?_
    split
    · exact wp_refuse _
    · refine wp_seq (wp_mapping (all_get hspec within_null) _) fun sha hsha => ?_
      split
      · exact wp_seq (wp_keyTexts hsha) fun ts _ => wp_refuse _
      · exact wp_seq (wp_digests _ hsha) fun out _ => trivial

theorem wp_runtime {raw : Yaml} (h : raw.All (Within L)) :
    (runtime fs raw).wp L (fun _ => True) Err.IsVersion := by
  refine wp_seq (wp_mapping h _) fun spec hspec => ?_
  refine wp_seq (wp_checkKeys hspec _ _ _) fun _ _ => ?_
  split
  · rename_i value hvalue
    exact wp_python (all_lookup hspec hvalue)
  · exact wp_refuse _

/-! ### `stacks` -/

section
variable {declared : Dict OsRef OsEntry} (hdeclared : OsesSound declared)

theorem wp_known {r : OsRef} (h : digitsOf r.major ≤ maxStrDigits) (loc : Str) :
    (known r declared loc).wp L (fun r' => (declared.get? r').isSome) Err.IsVersion := by
  unfold known
  split
  · rename_i hmem
    exact hmem
  · rw [wp_bind]
    exact OsRef.wp_text (fun _ => wp_refuse _) fun hlong => absurd hlong (by omega)

/-- A reference of the catalog is declared. -/
theorem wp_declared {value : Yaml} (h : value.All (Within L)) (loc loc' : Str) :
    (ref fs value loc >>= fun r => known r declared loc').wp L (fun r => (declared.get? r).isSome)
      Err.IsVersion :=
  wp_seq (wp_ref h loc) fun _ hr => wp_known hr loc'

theorem wp_entryOf {r : OsRef} (h : (declared.get? r).isSome) :
    (entryOf declared r).wp L (fun e => declared.get? r = some e) Err.IsVersion := by
  obtain ⟨e, he⟩ := Option.isSome_iff_exists.mp h
  rw [entryOf, he]
  exact rfl

include hdeclared in
/-- The gate lets allowed defaults pass. -/
theorem wp_gateDefault {r : OsRef} {e : OsEntry} (he : declared.get? r = some e) (key : Str) :
    (gateDefault e key).wp L (fun _ => e.Allowed) Err.IsVersion := by
  have hsound := hdeclared r e he
  unfold gateDefault
  split
  · rename_i hsource
    exact .inl hsource
  · rename_i hdecision
    exact .inr (by rw [hdecision]; rfl)
  · have hshort : digitsOf e.ref.major ≤ maxStrDigits := by
      rw [hsound.own]
      exact hsound.short
    rw [wp_bind]
    refine OsRef.wp_text (fun t => ?_) fun hlong => absurd hlong (by omega)
    rw [wp_bind]
    exact wp_ofInt.mpr ⟨fun _ => wp_refuse _, fun hlong => absurd hlong (by omega)⟩

theorem wp_supportedRefs (loc : Str) : ∀ {items : List Yaml}, Alls (Within L) items →
    (supportedRefs fs declared loc items).wp L (fun rs => (∀ r ∈ rs, (declared.get? r).isSome) ∧
      rs.length = items.length) Err.IsVersion
  | [], _ => ⟨fun r hr => absurd hr (by simp), rfl⟩
  | item :: items, h => by
    refine wp_seq (wp_ref h.1 loc) fun r hshort => ?_
    refine wp_seq (wp_known hshort loc) fun r' hr' => ?_
    refine wp_seq (wp_supportedRefs loc h.2) fun rs hrs => ?_
    exact ⟨List.forall_mem_cons.mpr ⟨hr', hrs.1⟩, by rw [List.length_cons, hrs.2, List.length_cons]⟩

/-- One family is left. -/
theorem family_eq_of_dedup {supported : List OsRef} (h : (supported.map OsRef.family).dedup.length = 1)
    {r r' : OsRef} (hr : r ∈ supported) (hr' : r' ∈ supported) : r.family = r'.family := by
  obtain ⟨family, hfam⟩ := List.length_eq_one_iff.mp h
  have hmem : ∀ r ∈ supported, r.family = family := by
    intro r hr
    have hdedup : r.family ∈ (supported.map OsRef.family).dedup :=
      List.mem_dedup.mpr (List.mem_map_of_mem hr)
    rw [hfam] at hdedup
    exact List.mem_singleton.mp hdedup
  rw [hmem r hr, hmem r' hr']

include hdeclared in
theorem wp_stackSpecOf {raw : Yaml} (h : raw.All (Within L)) (name loc : Str) :
    (stackSpec fs declared raw name loc).wp L (StackSound declared) Err.IsVersion := by
  refine wp_seq (wp_mapping h _) fun spec hspec => ?_
  refine wp_seq (wp_checkKeys hspec _ _ _) fun _ _ => ?_
  split
  · rename_i item items hlisted
    have hitems : (Yaml.list (item :: items)).All (Within L) := hlisted ▸ all_get hspec within_null
    refine wp_seq (wp_supportedRefs _ hitems.2) fun supported hsupported => ?_
    split
    · exact wp_refuse _
    · rename_i hfam
      refine wp_seq (wp_ref (all_get hspec within_null) _) fun d hshort => ?_
      refine wp_seq (wp_known hshort _) fun d hd => ?_
      split
      · obtain ⟨e, he⟩ := Option.isSome_iff_exists.mp hd
        rw [wp_bind]
        refine OsRef.wp_text (fun _ => wp_refuse _) fun hlong => ?_
        have hle := (hdeclared d e he).short
        omega
      · rename_i hlists
        have hmem : d ∈ supported := by
          by_contra hnot
          exact hlists hnot
        refine wp_seq (wp_entryOf hd) fun e he => ?_
        refine wp_seq (wp_gateDefault hdeclared he _) fun _ hallowed => ?_
        refine ⟨List.ne_nil_of_mem hmem, fun r hr => ?_, hsupported.1, hmem, e, he, hallowed⟩
        exact family_eq_of_dedup (not_not.mp hfam) hr hmem
  · exact wp_refuse _

/-- The stacks so far are sound. -/
def StacksSound (declared : Dict OsRef OsEntry) (out : Dict Str StackSpec) : Prop :=
  ∀ name spec, out.get? name = some spec → StackSound declared spec

include hdeclared in
theorem wp_stacksFrom : ∀ {items : Items} {out : Dict Str StackSpec}, AllItems (Within L) items →
    StacksSound declared out → (stacksFrom fs declared out items).wp L (StacksSound declared) Err.IsVersion
  | [], _, _, hout => hout
  | (name, raw) :: items, out, h, hout => by
    refine wp_seq (wp_text (Q := fun _ => True) (prints_of_within h.1) fun _ => trivial) fun t _ => ?_
    refine wp_seq (wp_stackSpecOf hdeclared h.2.1 t _) fun spec hspec => ?_
    refine wp_stacksFrom h.2.2 fun name' spec' hget => ?_
    rw [Dict.get?_set] at hget
    split at hget
    · obtain rfl : spec = spec' := by simpa using hget
      exact hspec
    · exact hout name' spec' hget

include hdeclared in
theorem wp_stackSpecs {raw : Yaml} (h : raw.All (Within L)) :
    (stackSpecs fs raw declared).wp L (StacksSound declared) Err.IsVersion := by
  refine wp_seq (wp_mapping h _) fun items hitems => ?_
  exact wp_stacksFrom hdeclared hitems fun name spec hget => absurd hget (by simp)

end

/-! ### The catalog -/

/-- Every shared role has a box, so a bake. -/
theorem wp_bakesShared {cat : Catalog} (hentry : OsesSound cat.oses) : ∀ {roles : List Str},
    (∀ role ∈ roles, role ∈ sharedRoles ∧ (cat.oses.get? (cat.sharedRef role)).isSome) →
    (bakesShared fs cat roles).wp L (fun _ => ∀ role ∈ roles, Bakes cat role (cat.sharedRef role)) Err.IsVersion
  | [], _ => fun role h => absurd h (by simp)
  | role :: roles, h => by
    obtain ⟨hshared, hdecl⟩ := h role List.mem_cons_self
    refine wp_seq (wp_sharedOs hshared) fun os hos => ?_
    subst hos
    refine wp_seq (wp_box hentry fun _ hlong => ?_) fun b hb => ?_
    · obtain ⟨e, he⟩ := Option.isSome_iff_exists.mp hdecl
      have hle := (hentry _ e he).short
      omega
    · refine wp_mono id (fun _ hall => ?_) (fun _ h => h)
        (wp_bakesShared hentry fun r hr => h r (List.mem_cons_of_mem role hr))
      exact List.forall_mem_cons.mpr ⟨hb.bakes, hall⟩

theorem wp_loadCatalog {value : Yaml} (h : value.All (Within L)) :
    (loadCatalog fs value).wp L Sound Err.IsVersion := by
  refine wp_seq (wp_mapping h _) fun data hdata => ?_
  refine wp_seq (wp_checkKeys hdata _ _ _) fun _ _ => ?_
  split
  · refine wp_seq (wp_oses (all_get hdata within_null)) fun declared hentry => ?_
    refine wp_seq (wp_roles (all_get hdata within_null)) fun roleSpecs _ => ?_
    refine wp_seq (wp_ref (all_get hdata within_null) _) fun i hi => ?_
    refine wp_seq (wp_known hi _) fun i hi => ?_
    refine wp_seq (wp_ref (all_get hdata within_null) _) fun m hm => ?_
    refine wp_seq (wp_known hm _) fun m hm => ?_
    refine wp_seq (wp_entryOf hm) fun e he => ?_
    refine wp_seq (wp_gateDefault hentry he _) fun _ hallowed => ?_
    refine wp_seq (wp_stackSpecs hentry (all_get hdata within_null)) fun specs hstack => ?_
    refine wp_seq (wp_runtime (all_get hdata within_null)) fun pin _ => ?_
    have hdecl : ∀ role, ((⟨declared, roleSpecs, i, m, specs, pin⟩ : Catalog).oses.get?
        ((⟨declared, roleSpecs, i, m, specs, pin⟩ : Catalog).sharedRef role)).isSome := by
      intro role
      unfold Catalog.sharedRef
      split
      · exact hm
      · exact hi
    refine wp_seq (wp_bakesShared hentry fun role hrole => ⟨hrole, hdecl role⟩) fun _ hshared => ?_
    exact ⟨hentry, hstack, hi, ⟨e, he, hallowed⟩, hshared⟩
  · exact wp_refuse _

theorem within_true (v : Yaml) : v.All (Within True) := by
  refine all_of_forall (fun w => ?_) v
  cases w with
  | str s => exact fun _ _ _ => trivial
  | int n => exact fun _ => trivial
  | other t r => exact fun _ => trivial
  | null => trivial
  | bool b => trivial
  | list xs => trivial
  | map items => trivial

theorem sound_of_load {value : Yaml} {cat : Catalog} (h : (loadCatalog fs value).exec = .ok cat) : Sound cat :=
  post_of_exec (wp_loadCatalog (within_true value)) h

/-- A value within the limit is loaded within the limit. -/
theorem short_of_within {value : Yaml} (h : value.All (Within False)) : (loadCatalog fs value).Short := by
  by_contra hlong
  exact (wp_exec (wp_loadCatalog h)).2.2 (exec_eq_valueError.mpr hlong)

/-- **Loading is total and sound**, up to Python's limit on the digits of an
integer: it is refused with a `VersionError` or accepted as sound unless it
comes to an integer beyond the limit, which the value must hold; and what is
accepted answers every question or refuses it with a `VersionError`, unless it
is asked for such an OS. -/
theorem load_sound (fs : Files) (value : Yaml) :
    (OnlyVersion (loadCatalog fs value) ↔ (loadCatalog fs value).Short) ∧
    (value.All (Within False) → (loadCatalog fs value).Short) ∧
    ∀ cat, (loadCatalog fs value).exec = .ok cat →
      Sound cat ∧
      (∀ role ref, OnlyVersion (cat.box fs.printable role ref) ↔
        (cat.roles.get? role = none ∨ digitsOf ref.major ≤ maxStrDigits)) ∧
      (∀ stack build facts, OnlyVersion (cat.stackOs fs.printable stack build facts) ↔
        ∀ spec, cat.stackSpecs.get? stack = some spec →
          digitsOf (Catalog.requested spec build).major ≤ maxStrDigits) ∧
      (∀ facts roles, OnlyVersion (cat.allBoxes fs.printable facts roles)) ∧
      ∀ build facts roles, OnlyVersion (boxesForBuild fs.printable cat build facts roles) ↔
        ∀ ref, build.os = some ref → digitsOf ref.major ≤ maxStrDigits ∨
          ∀ stack ∈ reached cat roles.items, ∀ spec, cat.stackSpecs.get? stack = some spec →
            spec.default.family ≠ ref.family := by
  refine ⟨onlyVersion_iff_short (wp_loadCatalog (within_true value)), short_of_within, fun cat hload => ?_⟩
  have hs := sound_of_load hload
  exact ⟨hs, hs.box_onlyVersion, hs.stackOs_onlyVersion, allBoxes_onlyVersion hs, boxesForBuild_onlyVersion hs⟩

/-! ### Build files -/

/-- The OS of a build file is within the limit. -/
theorem wp_loadBuildFile (path : Str) {value : Yaml} (h : value.All (Within L)) :
    (loadBuildFile fs path value).wp L
      (fun build => ∀ ref, build.os = some ref → digitsOf ref.major ≤ maxStrDigits) Err.IsVersion := by
  unfold loadBuildFile
  dsimp only
  split
  · exact fun ref href => absurd href (by simp)
  · refine wp_seq (wp_checkKeys h.2 _ _ _) fun _ _ => ?_
    split
    · exact fun ref href => absurd href (by simp)
    · rename_i s hs
      have hs := all_lookup h.2 hs
      rw [wp_bind, wp_tryCatch]
      refine wp_mono id (fun r hr => ?_) (fun e he => ?_) (wp_parse hs)
      · intro ref href
        obtain rfl : r = ref := by simpa using href
        exact hr
      · match e with
        | .version msg => exact wp_refuse _
        | .lookup => exact he.elim
    · rename_i hvalue
      exact wp_refuse_repr (all_lookup h.2 hvalue) _
  · exact wp_refuse _

/-! ### The enumerations -/

theorem exec_stackOs_iff {cat : Catalog} (hs : Sound cat) (printable : Char → Bool) (stack : Str)
    (build : Option BuildFile) (facts : HostFacts) (ref : OsRef) :
    (cat.stackOs printable stack build facts).exec = .ok ref ↔ SelectsOs cat stack build facts ref := by
  constructor
  · exact post_of_exec (hs.wp_stackOs facts fun _ _ _ => trivial)
  · intro hsel
    have hshort : ∀ spec, cat.stackSpecs.get? stack = some spec →
        maxStrDigits < digitsOf (Catalog.requested spec build).major → False := by
      intro spec hspec hlong
      obtain ⟨spec', hspec', rfl, hmem, -⟩ := hsel
      obtain rfl : spec = spec' := Option.some.inj (hspec.symm.trans hspec')
      have hle := short_of_mem hs.entry ((hs.stack stack spec hspec).declared _ hmem)
      omega
    have hwp : (cat.stackOs printable stack build facts).wp False (SelectsOs cat stack build facts) fun _ => False :=
      wp_mono id (fun _ h => h) (fun x hx => hx.2 ref hsel) (hs.wp_stackOs facts hshort)
    obtain ⟨ref', hexec, hsel'⟩ := exec_ok_of_wp hwp
    rw [hexec, hsel'.unique hsel]

/-- **The enumerations agree.** The boxes of a build file are boxes of the fleet,
whenever there is a fleet, and they are all that the file asks for. -/
theorem boxes_agree {fs : Files} {value : Yaml} {cat : Catalog} (hload : (loadCatalog fs value).exec = .ok cat)
    (facts : HostFacts) (roles : Dict Str (List Str)) :
    (∀ stack build ref, (cat.stackOs fs.printable stack build facts).exec = .ok ref ↔
      SelectsOs cat stack build facts ref) ∧
    ∀ path file build, (loadBuildFile fs path file).exec = .ok build →
      OnlyVersion (boxesForBuild fs.printable cat build facts roles) ∧
      ∀ names, (boxesForBuild fs.printable cat build facts roles).exec = .ok names →
        names.Nodup ∧
        (∀ fleet, (buildFleet fs.printable cat facts roles).exec = .ok fleet → ∀ name ∈ names,
          ∃ role ref b spec, (cat.box fs.printable role ref).exec = .ok b ∧ b.name = name ∧
            fleet.get? name = some spec ∧ spec.name = name ∧ spec.role = some role ∧ spec.os.ref = ref) ∧
        (∀ role ∈ sharedRoles, ∃ ref b, (cat.sharedOs fs.printable role).exec = .ok ref ∧
          (cat.box fs.printable role ref).exec = .ok b ∧ b.name ∈ names) ∧
        ∀ stack stackRoles spec ref, (stack, stackRoles) ∈ roles.items →
          cat.stackSpecs.get? stack = some spec → (∀ r, build.os = some r → r.family = spec.default.family) →
          (cat.stackOs fs.printable stack (some build) facts).exec = .ok ref →
          ∀ role ∈ stackRoles, ∃ b, (cat.box fs.printable role ref).exec = .ok b ∧ b.name ∈ names := by
  have hs := sound_of_load hload
  refine ⟨fun stack build ref => exec_stackOs_iff hs _ stack build facts ref, fun path file build hbuild => ?_⟩
  have hshort := post_of_exec (wp_loadBuildFile path (within_true file)) hbuild
  refine ⟨(boxesForBuild_onlyVersion hs build facts roles).mpr fun ref href => .inl (hshort ref href), ?_⟩
  intro names hnames
  obtain ⟨hnodup, hmem, hbakes⟩ := post_of_exec (wp_boxesForBuild hs fun _ _ _ _ _ _ => trivial) hnames
  have hdecl : ∀ p ∈ sharedPairs cat ∪ coveredPairs cat build facts roles.items, (cat.oses.get? p.2).isSome := by
    rintro p (hp | ⟨stack, rs, spec, -, hspec, -, -, spec', hspec', -, hsupp, -⟩)
    · rw [hp.2]
      exact hs.sharedRef_declared _
    · exact (hs.stack stack spec' hspec').declared _ hsupp
  have hbox : ∀ p ∈ sharedPairs cat ∪ coveredPairs cat build facts roles.items,
      ∃ b, (cat.box fs.printable p.1 p.2).exec = .ok b ∧ BoxOf cat p.1 p.2 b := fun p hp =>
    exec_ok_of_wp (wp_box_of_bakes hs.entry (hbakes p hp) (hdecl p hp))
  have hname : ∀ p ∈ sharedPairs cat ∪ coveredPairs cat build facts roles.items,
      ∃ b, (cat.box fs.printable p.1 p.2).exec = .ok b ∧ b.name ∈ names := by
    intro p hp
    obtain ⟨b, hexec, hb⟩ := hbox p hp
    exact ⟨b, hexec, (hmem _).mpr ⟨p, hp, hb.name⟩⟩
  refine ⟨hnodup, fun fleet hfleet name hn => ?_, fun role hrole => ?_, ?_⟩
  · obtain ⟨p, hp, rfl⟩ := (hmem name).mp hn
    obtain ⟨b, hexec, hb⟩ := hbox p hp
    have hp' : p ∈ sharedPairs cat ∪ stackPairs cat (some facts) roles.items := by
      rcases hp with hp | ⟨stack, rs, spec, hin, hspec, -, hr, spec', hspec', -, hsupp, e, he, hrun⟩
      · exact .inl hp
      · refine .inr ⟨stack, rs, spec', hin, hspec', hr, hsupp, fun f hf => ?_⟩
        obtain rfl : facts = f := by simpa using hf
        exact ⟨e, he, hrun⟩
    obtain ⟨b', hb', hget⟩ := post_of_exec (wp_buildFleet hs facts roles) hfleet p hp'
    refine ⟨p.1, p.2, b, _, hexec, hb.name, hget, hb'.name, congrArg some hb'.role, ?_⟩
    exact (hs.entry p.2 b'.os hb'.os).own
  · obtain ⟨b, hexec, hin⟩ := hname (role, cat.sharedRef role) (.inl ⟨hrole, rfl⟩)
    have hos : (cat.sharedOs fs.printable role).wp False (fun r => r = cat.sharedRef role) fun _ => False :=
      wp_sharedOs hrole
    obtain ⟨ref, href, rfl⟩ := exec_ok_of_wp hos
    exact ⟨_, b, href, hexec, hin⟩
  · intro stack stackRoles spec ref hin hspec hfam href role hrole
    have hsel := (exec_stackOs_iff hs _ stack (some build) facts ref).mp href
    refine hname (role, ref) (.inr ⟨stack, stackRoles, spec, hin, hspec, ?_, hrole, hsel⟩)
    obtain ⟨spec', hspec', rfl, -, hrun⟩ := hsel
    obtain rfl : spec = spec' := Option.some.inj (hspec.symm.trans hspec')
    rw [CoversDefault]
    cases hos : build.os with
    | none => simpa [Catalog.requested, hos] using hrun
    | some r => exact hfam r hos

/-! ### Catalogs with one stack -/

/-- Every path has its files, every character is printed. -/
def openFiles : Files where
  path := "lab/versions.yaml".toList
  components := "components".toList
  isComponent := fun _ => true
  printable := fun _ => true

def text (s : String) : Yaml := .str s.toList

def keyed (items : List (String × Yaml)) : Yaml := .map (items.map fun p => (text p.1, p.2))

/-- A catalog of these OS versions, roles and stacks, and of the shared roles on Ubuntu. -/
def catalogOf (oses roles : List (String × Yaml)) (infra : Yaml) (stacks' : List (String × Yaml)) : Yaml :=
  let digest : Yaml := .str (List.replicate 64 'a')
  let shared := (sharedRoles.map String.ofList).map fun r => (r, keyed [("bake", keyed [("ubuntu", text r)])])
  let python := keyed [("version", text "3.14.8"), ("pbs_release", text "20261003"),
    ("sha256", keyed [("aarch64", digest), ("x86_64", digest)])]
  keyed [("os", keyed oses), ("roles", keyed (shared ++ roles)), ("infra", infra),
    ("infra_mq", text "ubuntu:24"), ("stacks", keyed stacks'), ("runtime", keyed [("python", python)])]

/-- Ubuntu 24 and RHEL 9. -/
def twoOses : List (String × Yaml) :=
  [("ubuntu", .map [(.int 24, keyed [("base_box", text "cloud-image/ubuntu-24.04")])]),
   ("rhel", .map [(.int 9, keyed [("base_box", text "rhel/9-x86_64"), ("point", text "9.6"),
      ("iso", text "rhel-9.6.iso"), ("arch", text "x86_64")])])]

/-- A stack on this OS alone. -/
def stackOn (os : String) : Yaml := keyed [("supported", .list [text os]), ("default", text os)]

/-- A catalog with a stack on Ubuntu. -/
def ubuntuCatalog : Yaml :=
  catalogOf twoOses [("pcmk", keyed [("bake", keyed [("ubuntu", text "pcmk")])])] (text "ubuntu:24")
    [("nativeha", stackOn "ubuntu:24")]

/-- A catalog with a stack on RHEL, whose role bakes on Ubuntu alone. -/
def unbakedCatalog : Yaml :=
  catalogOf twoOses [("rdqm", keyed [("bake", keyed [("ubuntu", text "rdqm")])])] (text "ubuntu:24")
    [("rdqm-ha", stackOn "rhel:9")]

/-- A catalog with a shared OS whose major has a digit too many. -/
def longCatalog : Yaml :=
  catalogOf twoOses [] (.str ("rhel:".toList ++ List.replicate (maxStrDigits + 1) '9')) []

theorem load_sound_ubuntu : ∃ cat, (loadCatalog openFiles ubuntuCatalog).exec = .ok cat ∧
    OnlyVersion (cat.allBoxes openFiles.printable none .empty) := by
  have hok : (loadCatalog openFiles ubuntuCatalog).exec.isOk = true := by decide +kernel
  obtain ⟨cat, hexec⟩ := exec_of_isOk hok
  exact ⟨cat, hexec, ((load_sound openFiles ubuntuCatalog).2.2 cat hexec).2.2.2.1 none .empty⟩

def x86Host : HostFacts := ⟨"x86_64".toList, true, []⟩

def ubuntuFile : Yaml := keyed [("os", text "ubuntu:24")]

/-- Its names are a list without duplicates. -/
theorem boxes_agree_ubuntu : ∃ cat build names, (loadCatalog openFiles ubuntuCatalog).exec = .ok cat ∧
    (loadBuildFile openFiles [] ubuntuFile).exec = .ok build ∧
    (boxesForBuild openFiles.printable cat build x86Host (.ofList [("nativeha".toList, ["pcmk".toList])])).exec =
      .ok names ∧ names.Nodup := by
  have hok : (loadCatalog openFiles ubuntuCatalog >>= fun cat => loadBuildFile openFiles [] ubuntuFile >>=
      fun build => boxesForBuild openFiles.printable cat build x86Host
        (.ofList [("nativeha".toList, ["pcmk".toList])])).exec.isOk = true := by decide +kernel
  obtain ⟨names, hexec⟩ := exec_of_isOk hok
  obtain ⟨cat, hcat, hrest⟩ := exec_bind_ok hexec
  obtain ⟨build, hbuild, hnames⟩ := exec_bind_ok hrest
  have hagree := (boxes_agree hcat x86Host (.ofList [("nativeha".toList, ["pcmk".toList])])).2
  exact ⟨cat, build, names, hcat, hbuild, hnames, ((hagree [] ubuntuFile build hbuild).2 names hnames).1⟩

/-- The run ends in a `VersionError`. -/
def refused {α : Type} : Except (Exn Err) α → Bool
  | .error (.own (.version _)) => true
  | _ => false

theorem eq_of_refused {α : Type} {x : Except (Exn Err) α} (h : refused x = true) :
    ∃ msg, x = .error (.own (.version msg)) := by
  unfold refused at h
  split at h
  · exact ⟨_, rfl⟩
  · exact absurd h (by simp)

/-- The boxes of a build file are there when the fleet is not: the fleet has the
boxes of every stack, and this one's role does not bake on its OS. -/
theorem boxes_without_fleet : ∃ cat build names msg, (loadCatalog openFiles unbakedCatalog).exec = .ok cat ∧
    (loadBuildFile openFiles [] ubuntuFile).exec = .ok build ∧
    (boxesForBuild openFiles.printable cat build x86Host (.ofList [("rdqm-ha".toList, ["rdqm".toList])])).exec =
      .ok names ∧ "infra-ubuntu24".toList ∈ names ∧
    (buildFleet openFiles.printable cat x86Host (.ofList [("rdqm-ha".toList, ["rdqm".toList])])).exec =
      .error (.own (.version msg)) := by
  have hok : (loadCatalog openFiles unbakedCatalog >>= fun cat => loadBuildFile openFiles [] ubuntuFile >>=
      fun build => boxesForBuild openFiles.printable cat build x86Host
        (.ofList [("rdqm-ha".toList, ["rdqm".toList])])).exec =
        .ok ["infra-ubuntu24".toList, "obs-ubuntu24".toList, "san-ubuntu24".toList,
          "mq-client-ubuntu24".toList] := by decide +kernel
  have hrefused : refused (loadCatalog openFiles unbakedCatalog >>= fun cat =>
      buildFleet openFiles.printable cat x86Host (.ofList [("rdqm-ha".toList, ["rdqm".toList])])).exec = true := by
    decide +kernel
  obtain ⟨cat, hcat, hrest⟩ := exec_bind_ok hok
  obtain ⟨build, hbuild, hnames⟩ := exec_bind_ok hrest
  rw [exec_bind, hcat] at hrefused
  obtain ⟨msg, hmsg⟩ := eq_of_refused hrefused
  exact ⟨cat, build, _, msg, hcat, hbuild, hnames, List.mem_cons_self, hmsg⟩

/-- The loader is not total: a major of 4301 digits is an uncaught `ValueError`. -/
theorem load_fails_long : ¬ OnlyVersion (loadCatalog openFiles longCatalog) :=
  not_onlyVersion (by decide +kernel)

end Load
end Lab
end MqResiliency
