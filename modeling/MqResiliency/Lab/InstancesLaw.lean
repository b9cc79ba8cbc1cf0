/-
# A stack's OS is pinned

A record that a bootstrap writes reads back as it is (`exec_parse_recordText`),
so a bootstrap that passes runs with the OS that is recorded when it ends, and
the catalog supports that OS (`wp_reconcileInstance`). A bootstrap changes no
record that there is, even if it is cut off, so the OS of a stack stays what it
is until its record is deleted (`os_pinned`).
-/
import MqResiliency.Lab.Instances
import MqResiliency.Lab.LoadLaw
import MqResiliency.Lib.JsonLaw

namespace MqResiliency
namespace Lab
namespace Instances

open Py Prog
open Conv (digitsOf textOf exec_bind_ok exec_bind wp_exec post_of_exec)

/-! ### References read back -/

theorem all_isLower_of_isFamily {family : Str} (h : isFamily family = true) :
    family ≠ [] ∧ family.all Char.isLower ∧ ':' ∉ family := by
  have hmem : family = "ubuntu".toList ∨ family = "rhel".toList := by simpa [isFamily, families] using h
  rcases hmem with rfl | rfl <;> decide

theorem parts_text {family digits : Str} (hfam : isFamily family = true) (hne : digits ≠ [])
    (hdigits : ∀ c ∈ digits, c.isDigit) : OsRef.parts (family ++ ':' :: digits) = some (family, digits) := by
  obtain ⟨hfne, hlower, hcolon⟩ := all_isLower_of_isFamily hfam
  unfold OsRef.parts
  rw [span_append ':' digits family hcolon]
  exact if_pos ⟨hfne, hlower, hne, List.all_eq_true.mpr hdigits⟩

/-- A reference that can be written reads back. -/
theorem exec_parse_text {printable : Char → Bool} {ref : OsRef} {t : Str} (hfam : isFamily ref.family = true)
    (hpos : 0 ≤ ref.major) (ht : ref.text.exec = .ok t) : (OsRef.parse printable t).exec = .ok ref := by
  obtain ⟨major, hmajor, hret⟩ := exec_bind_ok ht
  obtain ⟨rfl, hshort⟩ := Conv.exec_ofInt hmajor
  have htext : ref.family ++ ':' :: textOf ref.major = t := Except.ok.inj hret
  have hdigits : textOf ref.major = Nat.toDigits 10 ref.major.natAbs := if_neg (by omega)
  have hparts := parts_text hfam (toDigits_ne_nil ref.major.natAbs) (isDigit_toDigits ref.major.natAbs)
  rw [← htext, hdigits, OsRef.parse, hparts]
  show (if isFamily ref.family = true then _ else _ : V OsRef).exec = _
  rw [if_pos hfam]
  have hread : (Conv.ofDigits (Nat.toDigits 10 ref.major.natAbs) : V ℤ).exec = .ok ref.major := by
    have hvalue : (Nat.ofDigitChars 10 (Nat.toDigits 10 ref.major.natAbs) 0 : ℤ) = ref.major := by
      rw [Nat.ofDigitChars_toDigits (by omega) (by omega)]
      omega
    have hlen : (Nat.toDigits 10 ref.major.natAbs).length ≤ maxStrDigits := hshort
    rw [Conv.ofDigits, Conv.exec, if_pos hlen, Conv.exec, hvalue]
  rw [exec_bind, hread]
  rfl

/-! ### Records read back -/

/-- The value of `build_file`. -/
def buildValue (build : Option Str) : Json Str := build.elim .null .str

/-- The members of a record's text. -/
def recordMembers (record : InstanceRecord) (os : Str) : List (Str × Str × Json Str) :=
  [("stack".toList, quoted record.stack, .str record.stack), ("os".toList, quoted os, .str os),
    ("build_file".toList, record.buildFile.elim "null".toList quoted, buildValue record.buildFile),
    ("created".toList, quoted record.created, .str record.created)]

theorem loads_recordText (record : InstanceRecord) (os : Str) :
    loads floatTexts (recordText record os) = .ok (.obj (members (recordMembers record os))) := by
  have hreads : ∀ m ∈ recordMembers record os, ReadsAs floatTexts m.2.1 m.2.2 := by
    intro m hm
    simp only [recordMembers, List.mem_cons, List.not_mem_nil, or_false] at hm
    rcases hm with rfl | rfl | rfl | rfl
    · exact readsAs_quoted _
    · exact readsAs_quoted _
    · cases record.buildFile with
      | none => exact readsAs_null
      | some path => exact readsAs_quoted path
    · exact readsAs_quoted _
  have htext : recordText record os = objText "\n  ".toList "\n  ".toList "\n".toList
      (texts (recordMembers record os)) ++ ['\n'] := rfl
  rw [htext]
  exact loads_objText (by simp [recordMembers]) hreads (by decide) (by decide) (by decide) (by decide)

/-- What the record's object has under its keys. -/
theorem get?_record (stack os build created : Json Str) :
    let data := Dict.ofList [("stack".toList, stack), ("os".toList, os), ("build_file".toList, build),
      ("created".toList, created)]
    data.keys = keys ∧ data.get? "stack".toList = some stack ∧ data.get? "os".toList = some os ∧
      data.get? "build_file".toList = some build ∧ data.get? "created".toList = some created := by
  refine ⟨rfl, ?_, ?_, ?_, ?_⟩
  · exact (Dict.get?_ofList_eq_some _).mpr ⟨[], _, rfl, by simp⟩
  · exact (Dict.get?_ofList_eq_some _).mpr ⟨[("stack".toList, stack)], _, rfl, by simp⟩
  · exact (Dict.get?_ofList_eq_some _).mpr ⟨[("stack".toList, stack), ("os".toList, os)], _, rfl, by simp⟩
  · exact (Dict.get?_ofList_eq_some _).mpr
      ⟨[("stack".toList, stack), ("os".toList, os), ("build_file".toList, build)], [], rfl, by simp⟩

theorem exec_parseValues (py : Texts) {stack os created : Str} {build : Option Str} {ref : OsRef}
    (hparse : (OsRef.parse py.printable os).exec = .ok ref) :
    (parseValues py stack (some (.str os)) (some (buildValue build)) (some (.str created))).exec =
      .ok ⟨stack, ref, build, created⟩ := by
  have hfinish : (parseValues.finish py stack os build created).exec = .ok ⟨stack, ref, build, created⟩ := by
    unfold parseValues.finish
    rw [exec_bind, Conv.exec_tryCatch_ok hparse]
    rfl
  cases build <;> exact hfinish

/-- **A record that was written reads back as it was.** -/
theorem exec_parse_recordText (py : Texts) {record : InstanceRecord} {os : Str}
    (hfam : isFamily record.os.family = true) (hpos : 0 ≤ record.os.major) (hos : record.os.text.exec = .ok os) :
    (parseRecord py record.stack (recordText record os)).exec = .ok record := by
  have hparse : (OsRef.parse py.printable os).exec = .ok record.os := exec_parse_text hfam hpos hos
  obtain ⟨hkeys, hstack, hget, hbuild, hcreated⟩ :=
    get?_record (.str record.stack) (.str os) (buildValue record.buildFile) (.str record.created)
  have hload : loads floatTexts (recordText record os) = .ok (.obj [_, _, _, _]) := loads_recordText record os
  unfold parseRecord
  simp only [hload, hkeys, hstack, hget, hbuild, hcreated, if_true]
  exact exec_parseValues py hparse

/-! ### Majors -/

section
variable {fs : Load.Files} {declared : Dict OsRef OsEntry}

open Conv (wp_seq wp_trivial)

/-- A reference that is parsed has digits for a major, and no sign. -/
theorem wp_parse_nonneg (printable : Char → Bool) (s : Str) :
    (OsRef.parse printable s).wp True (fun r => 0 ≤ r.major ∧ isFamily r.family) fun _ => True := by
  unfold OsRef.parse
  split
  · split
    · rename_i hfam
      exact ⟨fun _ => ⟨Int.natCast_nonneg _, hfam⟩, fun _ => trivial⟩
    · trivial
  · trivial

theorem wp_ref_nonneg (value : Yaml) (loc : Str) :
    (Load.ref fs value loc).wp True (fun r => 0 ≤ r.major) fun _ => True := by
  unfold Load.ref
  split
  · rename_i s
    rw [Conv.wp_tryCatch]
    refine Conv.wp_mono id (fun r hr => hr.1) (fun e _ => ?_) (wp_parse_nonneg fs.printable s)
    match e with
    | .version msg => trivial
    | .lookup => trivial
  · exact wp_seq (wp_trivial _) fun _ _ => trivial

theorem wp_known_self (r : OsRef) (loc : Str) :
    (Load.known r declared loc).wp True (fun r' => r' = r) fun _ => True := by
  unfold Load.known
  split
  · rfl
  · exact wp_seq (wp_trivial _) fun _ _ => trivial

theorem wp_supportedRefs_nonneg (loc : Str) (items : List Yaml) :
    (Load.supportedRefs fs declared loc items).wp True (fun rs => ∀ r ∈ rs, 0 ≤ r.major) fun _ => True := by
  induction items with
  | nil => exact fun r hr => absurd hr List.not_mem_nil
  | cons item items ih =>
    refine wp_seq (wp_ref_nonneg item loc) fun r hr => ?_
    refine wp_seq (wp_known_self r loc) fun r' hr' => ?_
    refine wp_seq ih fun rs hrs => ?_
    subst hr'
    exact List.forall_mem_cons.mpr ⟨hr, hrs⟩

theorem wp_stackSpec_nonneg (raw : Yaml) (name loc : Str) :
    (Load.stackSpec fs declared raw name loc).wp True (fun spec => ∀ r ∈ spec.supported, 0 ≤ r.major)
      fun _ => True := by
  refine wp_seq (wp_trivial _) fun spec _ => ?_
  refine wp_seq (wp_trivial _) fun _ _ => ?_
  split
  · refine wp_seq (wp_supportedRefs_nonneg loc _) fun supported hsupported => ?_
    split
    · trivial
    · refine wp_seq (wp_trivial _) fun d _ => ?_
      refine wp_seq (wp_trivial _) fun d' _ => ?_
      split
      · exact wp_seq (wp_trivial _) fun _ _ => trivial
      · refine wp_seq (wp_trivial _) fun e _ => ?_
        exact wp_seq (wp_trivial _) fun _ _ => hsupported
  · trivial

theorem wp_stacksFrom_nonneg : ∀ (items : Load.Items) {out : Dict Str StackSpec},
    (∀ name spec, out.get? name = some spec → ∀ r ∈ spec.supported, 0 ≤ r.major) →
    (Load.stacksFrom fs declared out items).wp True
      (fun specs => ∀ name spec, specs.get? name = some spec → ∀ r ∈ spec.supported, 0 ≤ r.major) fun _ => True
  | [], _, hout => hout
  | (name, raw) :: items, out, hout => by
    refine wp_seq (wp_trivial _) fun t _ => ?_
    refine wp_seq (wp_stackSpec_nonneg raw t _) fun spec hspec => ?_
    refine wp_stacksFrom_nonneg items fun name' spec' hget => ?_
    rw [Dict.get?_set] at hget
    split at hget
    · obtain rfl : spec = spec' := Option.some.inj hget
      exact hspec
    · exact hout name' spec' hget

/-- What a loaded catalog supports was parsed. -/
theorem supported_nonneg {value : Yaml} {cat : Catalog} (hload : (Load.loadCatalog fs value).exec = .ok cat)
    {stack : Str} {spec : StackSpec} (hspec : cat.stackSpecs.get? stack = some spec) :
    ∀ r ∈ spec.supported, 0 ≤ r.major := by
  have hwp : (Load.loadCatalog fs value).wp True
      (fun cat => ∀ name spec, cat.stackSpecs.get? name = some spec → ∀ r ∈ spec.supported, 0 ≤ r.major)
      fun _ => True := by
    refine wp_seq (wp_trivial _) fun data _ => ?_
    refine wp_seq (wp_trivial _) fun _ _ => ?_
    split
    · refine wp_seq (wp_trivial _) fun declared _ => ?_
      refine wp_seq (wp_trivial _) fun roleSpecs _ => ?_
      refine wp_seq (wp_trivial _) fun i _ => ?_
      refine wp_seq (wp_trivial _) fun i' _ => ?_
      refine wp_seq (wp_trivial _) fun m _ => ?_
      refine wp_seq (wp_trivial _) fun m' _ => ?_
      refine wp_seq (wp_trivial _) fun e _ => ?_
      refine wp_seq (wp_trivial _) fun _ _ => ?_
      have hstacks : (Load.stackSpecs fs (Yaml.get data "stacks".toList) declared).wp True
          (fun specs => ∀ name spec, specs.get? name = some spec → ∀ r ∈ spec.supported, 0 ≤ r.major)
          fun _ => True := by
        refine wp_seq (wp_trivial _) fun items _ => ?_
        exact wp_stacksFrom_nonneg items fun name spec hget => absurd hget (by simp)
      refine wp_seq hstacks fun specs hspecs => ?_
      refine wp_seq (wp_trivial _) fun pin _ => ?_
      exact wp_seq (wp_trivial _) fun _ _ => hspecs
    · trivial
  exact post_of_exec hwp hload stack spec hspec

end

/-! ### One bootstrap -/

section
variable {py : Texts} {fs : Load.Files} {topo : Topology} {w₀ : World}

/-- The records that there are stay. -/
def Keeps (w₀ w : World) : Prop := ∀ stack text, w₀.records stack = some text → w.records stack = some text

theorem keeps_of_eq {w : World} (h : w.records = w₀.records) : Keeps w₀ w := fun _ _ ht => h ▸ ht

/-- A command that only reads: it answers, and nothing else changes. -/
theorem wp_reads {α : Type} {c : Cmd} {P : Ans c → Prop} {k : Ans c → Inst α} {Q : α → World → Prop}
    {E : Halt → World → Prop} (hc : ∀ a w', env w₀ c a w' → P a ∧ w' = w₀)
    (hk : ∀ a, P a → (k a).wp env (Keeps w₀) Q E w₀) : (ask c >>= k).wp env (Keeps w₀) Q E w₀ := by
  intro a w' he
  obtain ⟨hP, rfl⟩ := hc a w' he
  exact ⟨keeps_of_eq rfl, hk a hP⟩

theorem wp_lift {α : Type} {c : V α} {Q : α → World → Prop} {E : Halt → World → Prop} {w : World}
    (hQ : ∀ a, c.exec = .ok a → Q a w) (hE : ∀ e, E e w) : (lift c).wp env (Keeps w₀) Q E w := by
  unfold lift
  split
  · rename_i a ha
    exact hQ a ha
  · exact hE _
  · exact hE _

theorem wp_lift_ok {α : Type} {c : V α} {a : α} {Q : α → World → Prop} {E : Halt → World → Prop} {w : World}
    (hc : c.exec = .ok a) (hQ : Q a w) : (lift c).wp env (Keeps w₀) Q E w := by
  rw [lift, hc]
  exact hQ

theorem wp_get {file : Read} {Q : Yaml → World → Prop} {E : Halt → World → Prop} {w : World}
    (hQ : ∀ v, file = .value v → Q v w) (hE : ∀ e, E e w) : file.get.wp env (Keeps w₀) Q E w := by
  cases file with
  | value v => exact hQ v rfl
  | refused msg => exact hE _
  | failed => exact hE _

/-- The record of a stack, as a world has it. -/
def IsRecord (py : Texts) (w : World) (stack : Str) (record : InstanceRecord) : Prop :=
  ∃ text, w.records stack = some text ∧ (parseRecord py stack text).exec = .ok record

theorem wp_readRecord {stack : Str} {Q : Option InstanceRecord → World → Prop} {E : Halt → World → Prop}
    (hnone : w₀.records stack = none → Q none w₀) (hsome : ∀ record, IsRecord py w₀ stack record → Q (some record) w₀)
    (hE : ∀ e, E e w₀) : (readRecord py stack).wp env (Keeps w₀) Q E w₀ := by
  have hreads : ∀ (a : RecordRead) w', env w₀ (.readRecord stack) a w' →
      (a = .failed ∨ a = .ofFile (w₀.records stack)) ∧ w' = w₀ := fun _ _ h => h
  refine wp_reads hreads fun a ha => ?_
  rcases ha with rfl | rfl
  · exact hE _
  · cases hfile : w₀.records stack with
    | none => exact hnone hfile
    | some text =>
      show (lift (parseRecord py stack text) >>= fun record => pure (some record)).wp _ _ _ _ _
      rw [Prog.wp_bind]
      exact wp_lift (fun record hrecord => hsome record ⟨text, hfile, hrecord⟩) hE

theorem wp_orCrash {c : Cmd} {ok : Ans c → Bool} {Q : Unit → World → Prop} {E : Halt → World → Prop} {w : World}
    (h : ∀ a w', env w c a w' → Keeps w₀ w' ∧ (ok a → Q () w') ∧ (ok a = false → E .crash w')) :
    (orCrash c ok).wp env (Keeps w₀) Q E w := by
  intro a w' he
  obtain ⟨hkeeps, hok, hcrash⟩ := h a w' he
  refine ⟨hkeeps, ?_⟩
  show (if ok a = true then (pure () : Inst Unit) else throw .crash).wp _ _ _ _ _
  split
  · rename_i ha
    exact hok ha
  · rename_i ha
    exact hcrash (by simpa using ha)

/-- A command that leaves the records alone. -/
theorem wp_orCrash_aside {c : Cmd} {ok : Ans c → Bool} {Q : Unit → World → Prop} {E : Halt → World → Prop} {w : World}
    (hw : w.records = w₀.records) (hc : ∀ a w', env w c a w' → w'.records = w.records)
    (hE : ∀ w', w'.records = w₀.records → E .crash w')
    (hQ : ∀ a w', env w c a w' → ok a → w'.records = w₀.records → Q () w') :
    (orCrash c ok).wp env (Keeps w₀) Q E w := by
  refine wp_orCrash fun a w' he => ?_
  have hsame : w'.records = w₀.records := (hc a w' he).trans hw
  exact ⟨keeps_of_eq hsame, fun ha => hQ a w' he ha hsame, fun _ => hE w' hsame⟩

/-- A record is written where there is none, or nothing is. -/
theorem wp_writeRecord {record : InstanceRecord} (habsent : w₀.records record.stack = none) :
    (writeRecord record).wp env (Keeps w₀)
      (fun _ w => ∃ os, record.os.text.exec = .ok os ∧
        w.records = Function.update w₀.records record.stack (some (recordText record os)))
      (fun _ w => w.records = w₀.records) w₀ := by
  unfold writeRecord
  rw [Prog.wp_bind]
  refine wp_orCrash_aside rfl (fun _ w' he => he ▸ rfl) (fun _ h => h) fun _ w₁ _ _ h₁ => ?_
  rw [Prog.wp_bind]
  refine wp_lift (fun os hos => ?_) fun _ => h₁
  rw [Prog.wp_bind]
  refine wp_orCrash_aside h₁ (fun ok w' he => ?_) (fun _ h => h) fun _ w₂ _ _ h₂ => ?_
  · cases ok <;> exact he ▸ rfl
  rw [Prog.wp_tryCatch, Prog.wp_bind]
  -- a failure from here on removes the temporary file
  have hunlink : ∀ (e : Halt) (w : World), w.records = w₀.records →
      (ask Cmd.unlinkTemp >>= fun _ => throw e : Inst Unit).wp env (Keeps w₀)
        (fun _ w => ∃ os, record.os.text.exec = .ok os ∧
          w.records = Function.update w₀.records record.stack (some (recordText record os)))
        (fun _ w => w.records = w₀.records) w := by
    intro e w hw ok w' he
    have hsame : w'.records = w₀.records := by cases ok <;> exact he ▸ hw
    exact ⟨keeps_of_eq hsame, hsame⟩
  refine wp_orCrash_aside h₂ (fun ok w' he => ?_) (hunlink .crash) fun ok w₃ he hok h₃ => ?_
  · cases ok with
    | false =>
      obtain ⟨part, _, rfl⟩ := he
      rfl
    | true => exact he ▸ rfl
  · have htemp : w₃.temp = some (recordText record os) := by
      have hok : ok = true := hok
      subst hok
      exact he ▸ rfl
    refine wp_orCrash fun done w₄ he => ?_
    cases done with
    | false =>
      have hw₄ : w₄ = w₃ := he
      have h₄ : w₄.records = w₀.records := hw₄ ▸ h₃
      exact ⟨keeps_of_eq h₄, fun h => absurd h (by simp), fun _ => hunlink .crash w₄ h₄⟩
    | true =>
      obtain ⟨text, htext, rfl⟩ := he
      obtain rfl : recordText record os = text := Option.some.inj (htemp.symm.trans htext)
      refine ⟨fun stack text' hrec => ?_, fun _ => ⟨os, hos, by rw [h₃]⟩, fun h => absurd h (by simp)⟩
      have hne : stack ≠ record.stack := fun h => by
        rw [h, habsent] at hrec
        cases hrec
      show Function.update w₃.records record.stack _ stack = _
      rw [Function.update_of_ne hne, h₃]
      exact hrec

/-! ### Reconciliation -/

/-- The record is written, or it is the one that there is. -/
def Pinned (py : Texts) (w₀ w : World) (record : InstanceRecord) : Prop :=
  (w₀.records record.stack = none ∧ ∃ os, record.os.text.exec = .ok os ∧
    w.records = Function.update w₀.records record.stack (some (recordText record os))) ∨
  (w.records = w₀.records ∧ IsRecord py w₀ record.stack record)

theorem Pinned.keeps {w : World} {record : InstanceRecord} (h : Pinned py w₀ w record) : Keeps w₀ w := by
  rcases h with ⟨habsent, os, _, hrecords⟩ | ⟨hrecords, _⟩
  · intro stack text hrec
    have hne : stack ≠ record.stack := fun h => by
      rw [h, habsent] at hrec
      cases hrec
    rw [hrecords, Function.update_of_ne hne]
    exact hrec
  · exact keeps_of_eq hrecords

theorem isRecord_unique {stack : Str} {r r' : InstanceRecord} (h : IsRecord py w₀ stack r)
    (h' : IsRecord py w₀ stack r') : r = r' := by
  obtain ⟨text, htext, hparse⟩ := h
  obtain ⟨text', htext', hparse'⟩ := h'
  obtain rfl : text = text' := Option.some.inj (htext.symm.trans htext')
  exact Except.ok.inj (hparse.symm.trans hparse')

/-- What a record is parsed from names its stack. -/
theorem stack_of_parse {stack text : Str} {record : InstanceRecord}
    (h : (parseRecord py stack text).exec = .ok record) : record.stack = stack := by
  have hvalues : ∀ os build created, (parseValues py stack os build created).wp True (fun r => r.stack = stack)
      fun _ => True := by
    intro os build created
    have hfinish : ∀ os build created, (parseValues.finish py stack os build created).wp True
        (fun r => r.stack = stack) fun _ => True := fun _ _ _ =>
      Conv.wp_seq (Conv.wp_trivial _) fun _ _ => rfl
    unfold parseValues
    split
    · split
      · exact hfinish _ _ _
      · exact hfinish _ _ _
      · trivial
    · trivial
  have hwp : (parseRecord py stack text).wp True (fun r => r.stack = stack) fun _ => True := by
    unfold parseRecord
    split
    · trivial
    · exact ⟨fun _ => trivial, fun _ => trivial⟩
    · dsimp only
      split
      · split
        · split
          · exact hvalues _ _ _
          · trivial
        · trivial
        · trivial
      · trivial
    · trivial
  exact post_of_exec hwp h

theorem exec_refuse {α : Type} (parts : List Str) (a : α) : (refuse parts : V α).exec ≠ .ok a := by
  intro h
  cases h

theorem wp_reconcile {stack : Str} {requested : OsRef} {live : Bool} {config : Option Str} :
    (reconcile py stack requested live config).wp env (Keeps w₀)
      (fun record w => record.stack = stack ∧ record.os = requested ∧ Pinned py w₀ w record ∧
        (w₀.records stack = none → live = false))
      (fun _ w => w.records = w₀.records) w₀ := by
  unfold reconcile
  rw [Prog.wp_bind]
  refine wp_readRecord (fun habsent => ?_) (fun record hrecord => ?_) fun _ => rfl
  · cases live with
    | true => exact wp_lift (fun _ h => absurd h (exec_refuse _ _)) fun _ => rfl
    | false =>
      have hreads : ∀ (a : Str) w', env w₀ .now a w' → True ∧ w' = w₀ := fun _ _ h => ⟨trivial, h⟩
      refine wp_reads hreads fun created _ => ?_
      rw [Prog.wp_bind]
      refine Prog.wp_post (wp_writeRecord habsent) fun _ w hw => ?_
      exact ⟨rfl, rfl, .inl ⟨habsent, hw⟩, fun _ => rfl⟩
  · dsimp only
    split
    · refine wp_lift (fun _ h => ?_) fun _ => rfl
      obtain ⟨_, _, h⟩ := exec_bind_ok h
      obtain ⟨_, _, h⟩ := exec_bind_ok h
      exact absurd h (exec_refuse _ _)
    · rename_i hsame
      obtain ⟨text, htext, hparse⟩ := hrecord
      have hstack := stack_of_parse hparse
      refine ⟨hstack, not_not.mp hsame, .inr ⟨rfl, ?_⟩, fun hnone => ?_⟩
      · exact hstack ▸ ⟨text, htext, hparse⟩
      · rw [htext] at hnone
        cases hnone

/-! ### A bootstrap -/

theorem wp_echoes {Q : Unit → World → Prop} {E : Halt → World → Prop} {w : World} (hw : w.records = w₀.records) :
    ∀ ts, Q () w → (echoes ts).wp env (Keeps w₀) Q E w
  | [], h => h
  | t :: ts, h => by
    intro _ w' he
    have hsame : w' = w := he
    subst hsame
    exact ⟨keeps_of_eq hw, wp_echoes hw ts h⟩

theorem wp_warn {c : V (Option Str)} {Q : Unit → World → Prop} {E : Halt → World → Prop}
    (hQ : Q () w₀) (hE : ∀ e, E e w₀) : (warn c).wp env (Keeps w₀) Q E w₀ := by
  unfold warn
  rw [Prog.wp_bind]
  refine wp_lift (fun warning _ => ?_) hE
  cases warning with
  | none => exact hQ
  | some t => exact wp_echoes (show w₀.records = w₀.records from rfl) [t] hQ

theorem wp_stackLive {stack : Str} {Q : Bool → World → Prop} {E : Halt → World → Prop}
    (hQ : Q (stackIsLive topo stack w₀.domains) w₀) (hE : ∀ e, E e w₀) :
    (stackLive topo stack).wp env (Keeps w₀) Q E w₀ := by
  unfold stackLive
  split
  · rename_i hmembers
    have hdead : stackIsLive topo stack w₀.domains = false := by rw [stackIsLive, hmembers]; rfl
    rw [hdead] at hQ
    exact hQ
  · have hreads : ∀ (a : Teardown.Listing) w', env w₀ .listAll a w' → a = w₀.domains ∧ w' = w₀ := fun _ _ h => h
    refine wp_reads hreads fun listing hlisting => ?_
    subst hlisting
    split
    · rw [Prog.wp_bind]
      refine wp_lift (fun rc _ => ?_) hE
      rw [Prog.wp_bind]
      exact wp_echoes rfl _ (hE _)
    · exact hQ

theorem wp_buildOf {config : Option Str} {existing : Option InstanceRecord}
    {Q : Option BuildFile → World → Prop} {E : Halt → World → Prop} (hQ : ∀ build, Q build w₀) (hE : ∀ e, E e w₀) :
    (buildOf fs config existing).wp env (Keeps w₀) Q E w₀ := by
  match config, existing with
  | none, none => exact hQ none
  | none, some record => exact hQ _
  | some path, _ =>
    have hreads : ∀ (a : Read) w', env w₀ (.readBuildFile path) a w' → a = w₀.buildFile path ∧ w' = w₀ :=
      fun _ _ h => h
    refine wp_reads hreads fun file _ => ?_
    rw [Prog.wp_bind]
    refine wp_get (fun value _ => ?_) hE
    rw [Prog.wp_bind]
    exact wp_lift (fun build _ => hQ (some build)) hE

/-- The OS is in the stack's supported list, and the host can run it. -/
def Supported (fs : Load.Files) (w : World) (stack : Str) (os : OsRef) : Prop :=
  ∃ value cat spec entry, w.catalog = .value value ∧ (Load.loadCatalog fs value).exec = .ok cat ∧
    cat.stackSpecs.get? stack = some spec ∧ os ∈ spec.supported ∧ cat.oses.get? os = some entry ∧
    hostCanRun entry w.facts = true

/-- The bootstrap passes with this record. -/
structure Passes (py : Texts) (fs : Load.Files) (topo : Topology) (w₀ w : World) (stack : Str)
    (record : InstanceRecord) : Prop where
  own : record.stack = stack
  pinned : Pinned py w₀ w record
  supported : Supported fs w₀ stack record.os
  quiet : w₀.records stack = none → stackIsLive topo stack w₀.domains = false

/-- **What a bootstrap comes to**: it passes, or it leaves every record as it was. -/
theorem wp_reconcileBody {stack : Str} {config : Option Str} :
    (reconcileBody py fs topo stack config).wp env (Keeps w₀) (fun record w => Passes py fs topo w₀ w stack record)
      (fun _ w => w.records = w₀.records) w₀ := by
  have hsame : ∀ e : Halt, (fun (_ : Halt) (w : World) => w.records = w₀.records) e w₀ := fun _ => rfl
  have hcatalog : ∀ (a : Read) w', env w₀ .readCatalog a w' → a = w₀.catalog ∧ w' = w₀ := fun _ _ h => h
  have hfacts : ∀ (a : HostFacts) w', env w₀ .hostFacts a w' → a = w₀.facts ∧ w' = w₀ := fun _ _ h => h
  unfold reconcileBody
  refine wp_reads hcatalog fun file hfile => ?_
  rw [Prog.wp_bind]
  refine wp_get (fun value hvalue => ?_) hsame
  rw [Prog.wp_bind]
  refine wp_lift (fun cat hload => ?_) hsame
  rw [Prog.wp_bind]
  have hread : (readRecord py stack).wp env (Keeps w₀)
      (fun existing w => w = w₀ ∧ (existing = none ↔ w₀.records stack = none)) (fun _ w => w.records = w₀.records) w₀ := by
    refine wp_readRecord (fun habsent => ⟨rfl, by simp [habsent]⟩) (fun record hrecord => ⟨rfl, ?_⟩) hsame
    obtain ⟨text, htext, _⟩ := hrecord
    simp [htext]
  refine Prog.wp_post hread fun existing w hw => ?_
  obtain ⟨rfl, habsent⟩ := hw
  rw [Prog.wp_bind]
  refine wp_buildOf (fun build => ?_) hsame
  refine wp_reads hfacts fun facts hfacts => ?_
  rw [Prog.wp_bind]
  refine wp_lift (fun requested hos => ?_) hsame
  have hsupported : Supported fs w stack requested := by
    obtain ⟨spec, hspec, _, hmem, entry, hentry, hrun⟩ :=
      (Load.exec_stackOs_iff (Load.sound_of_load hload) fs.printable stack build facts requested).mp hos
    exact ⟨value, cat, spec, entry, hfile.symm.trans hvalue, hload, hspec, hmem, hentry, hfacts ▸ hrun⟩
  rw [Prog.wp_bind]
  refine wp_warn ?_ hsame
  rw [Prog.wp_bind]
  refine wp_warn ?_ hsame
  -- the end, once liveness is known where it counts
  have hend : ∀ live, (existing = none → live = stackIsLive topo stack w.domains) →
      (reconcile py stack requested live config).wp env (Keeps w) (fun record w' => Passes py fs topo w w' stack record)
        (fun _ w' => w'.records = w.records) w := by
    intro live hlive
    refine Prog.wp_post wp_reconcile fun record w' hw' => ?_
    obtain ⟨hstack, hreq, hpinned, hquiet⟩ := hw'
    refine ⟨hstack, hpinned, hreq ▸ hsupported, fun hnone => ?_⟩
    rw [← hlive (habsent.mpr hnone)]
    exact hquiet hnone
  cases existing with
  | none =>
    show (stackLive topo stack >>= fun live => reconcile py stack requested live config).wp _ _ _ _ _
    rw [Prog.wp_bind]
    exact wp_stackLive (hend _ fun _ => rfl) hsame
  | some record => exact hend false fun h => by cases h

/-- A bootstrap that passes runs with the OS that is recorded then. -/
theorem Passes.recorded {w : World} {stack : Str} {record : InstanceRecord}
    (h : Passes py fs topo w₀ w stack record) : IsRecord py w stack record := by
  obtain ⟨rfl, hpinned, hsupported, _⟩ := h
  rcases hpinned with ⟨_, os, hos, hrecords⟩ | ⟨hrecords, text, htext, hparse⟩
  · obtain ⟨value, cat, spec, entry, _, hload, hspec, hmem, hentry, _⟩ := hsupported
    have hfam : isFamily record.os.family = true := ((Load.sound_of_load hload).entry _ entry hentry).known
    have hpos := supported_nonneg hload hspec _ hmem
    exact ⟨recordText record os, by rw [hrecords, Function.update_self], exec_parse_recordText py hfam hpos hos⟩
  · exact ⟨text, hrecords ▸ htext, hparse⟩

/-- **What a bootstrap comes to**: it passes, or it leaves every record as it was. -/
theorem wp_reconcileInstance {stack : Str} {config : Option Str} :
    (reconcileInstance py fs topo stack config).wp env (Keeps w₀)
      (fun record w => Passes py fs topo w₀ w stack record) (fun _ w => w.records = w₀.records) w₀ := by
  unfold reconcileInstance
  rw [Prog.wp_bind, Prog.wp_tryCatch]
  refine Prog.wp_mono (fun record w hpass => ?_) (fun e w hw => ?_) _ _ wp_reconcileBody
  · -- the OS that is recorded can be printed
    rw [Prog.wp_bind]
    have htext : ∃ t, record.os.text.exec = .ok t := by
      obtain ⟨value, cat, spec, entry, _, hload, _, _, hentry, _⟩ := hpass.supported
      have hshort := ((Load.sound_of_load hload).entry _ entry hentry).short
      refine ⟨record.os.family ++ ':' :: textOf record.os.major, ?_⟩
      rw [OsRef.text, exec_bind, Conv.exec_ofInt_of_le hshort]
      rfl
    obtain ⟨t, ht⟩ := htext
    refine wp_lift_ok ht ?_
    intro _ w' he
    have hsame : w' = w := he
    subst hsame
    exact ⟨hpass.pinned.keeps, hpass⟩
  · cases e with
    | version msg =>
      intro _ w' he
      have hsame : w' = w := he
      subst hsame
      exact ⟨keeps_of_eq hw, hw⟩
    | exit code => exact hw
    | crash => exact hw

theorem recordedOs_of_isRecord {w : World} {stack : Str} {record : InstanceRecord} (h : IsRecord py w stack record) :
    recordedOs py w stack = some record.os := by
  obtain ⟨text, htext, hparse⟩ := h
  simp only [recordedOs, htext, Option.bind_some, hparse]

/-! ### Runs of the lab -/

/-- Nothing but a deletion changes a record that there is. -/
theorem keeps_of_step {op : Op} {w w' : World} (h : LabStep py fs topo op w w') {stack : Str}
    (hop : op ≠ .deleteRecord stack) {text : Str} (hrec : w.records stack = some text) :
    w'.records stack = some text := by
  cases h with
  | bootstrap hreach => exact (wp_reach hreach (keeps_of_eq rfl) wp_reconcileInstance).1 stack text hrec
  | @deleteRecord other =>
    have hne : stack ≠ other := fun h => hop (h ▸ rfl)
    show Function.update w.records other none stack = some text
    rw [Function.update_of_ne hne]
    exact hrec
  | other hsame => exact hsame ▸ hrec

/-- Between two deletions a record stays. -/
theorem keeps_of_run {ops : List Op} {w w' : World} (h : LabRun py fs topo ops w w') {stack : Str}
    (hops : .deleteRecord stack ∉ ops) {text : Str} (hrec : w.records stack = some text) :
    w'.records stack = some text := by
  induction h with
  | nil => exact hrec
  | cons hstep _ ih =>
    have hop := fun h => hops (List.mem_cons.mpr (.inl h))
    exact ih (fun hmem => hops (List.mem_cons_of_mem _ hmem)) (keeps_of_step hstep (fun h => hop h.symm) hrec)

theorem recordedOs_of_run {ops : List Op} {w w' : World} (h : LabRun py fs topo ops w w') {stack : Str}
    (hops : .deleteRecord stack ∉ ops) {os : OsRef} (hos : recordedOs py w stack = some os) :
    recordedOs py w' stack = some os := by
  obtain ⟨text, htext, hparse⟩ := Option.bind_eq_some_iff.mp hos
  rw [recordedOs, keeps_of_run h hops htext]
  exact hparse

end

/-- **A stack's OS is pinned for its whole life.** Between two deletions of its
record the recorded OS stays; a bootstrap that passes runs with it, and it is
supported; one that does not pass leaves the records as they were; and a
live stack without a record does not pass. -/
theorem os_pinned (py : Texts) (fs : Load.Files) (topo : Topology) (stack : Str) :
    (∀ ops w w', LabRun py fs topo ops w w' → .deleteRecord stack ∉ ops →
      ∀ os, recordedOs py w stack = some os → recordedOs py w' stack = some os) ∧
    (∀ config w w' record, Reach env (reconcileInstance py fs topo stack config, w) (Prog.ret record, w') →
      recordedOs py w' stack = some record.os ∧ Supported fs w stack record.os) ∧
    (∀ config w w' e, Reach env (reconcileInstance py fs topo stack config, w) (Prog.raise e, w') →
      w'.records = w.records) ∧
    ∀ config w w' record, w.records stack = none → stackIsLive topo stack w.domains →
      ¬ Reach env (reconcileInstance py fs topo stack config, w) (Prog.ret record, w') := by
  refine ⟨fun ops w w' hrun hops os hos => recordedOs_of_run hrun hops hos, ?_, ?_, ?_⟩
  · intro config w w' record hreach
    have hpass := (wp_reach hreach (keeps_of_eq rfl) wp_reconcileInstance).2
    exact ⟨recordedOs_of_isRecord (Passes.recorded hpass), hpass.supported⟩
  · intro config w w' e hreach
    exact (wp_reach hreach (keeps_of_eq rfl) wp_reconcileInstance).2
  · intro config w w' record hnone hlive hreach
    have hpass := (wp_reach hreach (keeps_of_eq rfl) wp_reconcileInstance).2
    rw [hpass.quiet hnone] at hlive
    cases hlive

/-! ### A first bootstrap -/

/-- Answers where nothing fails. -/
def smooth (w : World) : (c : Cmd) → Ans c × World
  | .readCatalog => (w.catalog, w)
  | .readRecord stack => (.ofFile (w.records stack), w)
  | .readBuildFile path => (w.buildFile path, w)
  | .hostFacts => (w.facts, w)
  | .listAll => (w.domains, w)
  | .now => ("2026-07-01T00:00:00Z".toList, w)
  | .echo _ => ((), w)
  | .makeDir => (true, w)
  | .makeTemp => (true, { w with temp := some [] })
  | .writeTemp text => (true, { w with temp := some text })
  | .replace stack =>
    match w.temp with
    | some text => (true, { w with records := Function.update w.records stack (some text), temp := none })
    | none => (false, w)
  | .unlinkTemp => (true, { w with temp := none })

theorem smooth_env (w : World) (c : Cmd) : env w c (smooth w c).1 (smooth w c).2 := by
  cases c with
  | readRecord stack => exact ⟨.inr rfl, rfl⟩
  | replace stack =>
    unfold smooth
    cases h : w.temp with
    | none => exact rfl
    | some text => exact ⟨text, h, rfl⟩
  | readCatalog => exact ⟨rfl, rfl⟩
  | readBuildFile path => exact ⟨rfl, rfl⟩
  | hostFacts => exact ⟨rfl, rfl⟩
  | listAll => exact ⟨rfl, rfl⟩
  | now => exact rfl
  | echo t => exact rfl
  | makeDir => exact rfl
  | makeTemp => exact rfl
  | writeTemp t => exact rfl
  | unlinkTemp => exact rfl

/-- A lab with one stack on Ubuntu, and no record yet. -/
def freshWorld : World where
  catalog := .value Load.ubuntuCatalog
  buildFile := fun _ => .failed
  facts := Load.x86Host
  domains := ⟨0, []⟩
  records := fun _ => none
  temp := none

def openTexts : Texts := ⟨fun _ => true, fun stack => stack ++ ".json".toList, fun _ => [], fun _ => []⟩

def oneStack : Topology where
  nodes := .empty
  groups := .ofList [("nativeha".toList, ["nha1".toList])]
  labStacks := .ofList [("nativeha".toList, ⟨some "ubuntu".toList, none, ["nativeha".toList], []⟩)]
  commons := []
  memoryBacking := none

/-- What a program returned. -/
def returned {α : Type} : Inst α → Option α
  | .ret a => some a
  | _ => none

theorem eq_ret_of_returned {α : Type} {p : Inst α} {a : α} (h : returned p = some a) : p = .ret a := by
  cases p with
  | ret b => exact congrArg Prog.ret (Option.some.inj h)
  | raise e => cases h
  | stop => cases h
  | call c k => cases h

/-- The first bootstrap of a stack passes, and its record says so. -/
theorem first_bootstrap_pins : ∃ w record,
    Reach env (reconcileInstance openTexts Load.openFiles oneStack "nativeha".toList none, freshWorld)
      (Prog.ret record, w) ∧
    recordedOs openTexts w "nativeha".toList = some ⟨"ubuntu".toList, 24⟩ := by
  have hret : returned ((reconcileInstance openTexts Load.openFiles oneStack "nativeha".toList none).exec smooth
      freshWorld).1 = some ⟨"nativeha".toList, ⟨"ubuntu".toList, 24⟩, none, "2026-07-01T00:00:00Z".toList⟩ := by
    decide +kernel
  have hreach : Reach env (reconcileInstance openTexts Load.openFiles oneStack "nativeha".toList none, freshWorld)
      ((reconcileInstance openTexts Load.openFiles oneStack "nativeha".toList none).exec smooth freshWorld) :=
    reach_exec (J := fun _ => True) (fun w c _ => ⟨smooth_env w c, trivial⟩) _ freshWorld trivial
  have hend := eq_ret_of_returned hret
  generalize (reconcileInstance openTexts Load.openFiles oneStack "nativeha".toList none).exec smooth freshWorld =
    cfg at hreach hend
  obtain ⟨p, w⟩ := cfg
  have hp : p = .ret _ := hend
  rw [hp] at hreach
  have hpinned := os_pinned openTexts Load.openFiles oneStack "nativeha".toList
  exact ⟨w, _, hreach, (hpinned.2.1 none freshWorld w _ hreach).1⟩

end Instances
end Lab
end MqResiliency
