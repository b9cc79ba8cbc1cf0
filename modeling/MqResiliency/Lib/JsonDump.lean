/-
# Values as JSON text, and back

`json.dumps(v, indent=2)`: a member or an item to a line, two blanks a level.
What is written reads back as the value (`loads_dumps`), as long as the texts
of its numbers do (`NumbersTrip`).
-/
import MqResiliency.Lib.JsonLaw

namespace MqResiliency
namespace Py

open Conv (textOf digitsOf)

variable {F : Type}

/-! ### Writing -/

/-- A line's end, and the indentation of the next. -/
def indented (level : ℕ) : Str := '\n' :: List.replicate (2 * level) ' '

/-- A list as `json.dumps` writes it, from the texts of its items. -/
def arrText (indent sep closing : Str) (ts : List Str) : Str :=
  '[' :: indent ++ (',' :: sep).intercalate ts ++ closing ++ [']']

section
-- `float.__repr__`
variable (repr : F → Str)

mutual

/-- `json.dumps(v, indent=2)`, at a level. An integer that is too long to be
written raises; its text here does not read back. -/
def dumps (level : ℕ) : Json F → Str
  | .null => "null".toList
  | .bool b => if b then "true".toList else "false".toList
  | .int n => textOf n
  | .float x => repr x
  | .str s => quoted s
  | .arr vs =>
    if vs.isEmpty then "[]".toList
    else arrText (indented (level + 1)) (indented (level + 1)) (indented level) (itemTexts (level + 1) vs)
  | .obj ps =>
    if ps.isEmpty then "{}".toList
    else objText (indented (level + 1)) (indented (level + 1)) (indented level) (memberTexts (level + 1) ps)

def itemTexts (level : ℕ) : List (Json F) → List Str
  | [] => []
  | v :: vs => dumps level v :: itemTexts level vs

def memberTexts (level : ℕ) : List (Str × Json F) → List (Str × Str)
  | [] => []
  | (k, v) :: ps => (k, dumps level v) :: memberTexts level ps

end

/-! ### Numbers that read back -/

variable (fl : Floats F)

mutual

/-- The text of each number in the value reads back as the number. -/
def NumbersTrip : Json F → Prop
  | .null => True
  | .bool _ => True
  | .int n => digitsOf n ≤ maxStrDigits
  | .float x => isFloatText (repr x) ∧ fl.ofText (repr x) = x
  | .str _ => True
  | .arr vs => ItemsTrip vs
  | .obj ps => MembersTrip ps

def ItemsTrip : List (Json F) → Prop
  | [] => True
  | v :: vs => NumbersTrip v ∧ ItemsTrip vs

def MembersTrip : List (Str × Json F) → Prop
  | [] => True
  | (_, v) :: ps => NumbersTrip v ∧ MembersTrip ps

end

section
variable [DecidableEq F]

mutual

def decideTrips : (v : Json F) → Decidable (NumbersTrip repr fl v)
  | .null => inferInstanceAs (Decidable True)
  | .bool _ => inferInstanceAs (Decidable True)
  | .int n => inferInstanceAs (Decidable (digitsOf n ≤ maxStrDigits))
  | .float x => inferInstanceAs (Decidable (isFloatText (repr x) ∧ fl.ofText (repr x) = x))
  | .str _ => inferInstanceAs (Decidable True)
  | .arr vs => decideItems vs
  | .obj ps => decideMembers ps

def decideItems : (vs : List (Json F)) → Decidable (ItemsTrip repr fl vs)
  | [] => inferInstanceAs (Decidable True)
  | v :: vs => @instDecidableAnd _ _ (decideTrips v) (decideItems vs)

def decideMembers : (ps : List (Str × Json F)) → Decidable (MembersTrip repr fl ps)
  | [] => inferInstanceAs (Decidable True)
  | (_, v) :: ps => @instDecidableAnd _ _ (decideTrips v) (decideMembers ps)

end

instance (v : Json F) : Decidable (NumbersTrip repr fl v) := decideTrips repr fl v

end

end

/-! ### Reading back -/

section

variable {fl : Floats F}

theorem readsAs_true : ReadsAs fl "true".toList (.bool true) := readsAs_of_run fun _ => rfl

theorem readsAs_false : ReadsAs fl "false".toList (.bool false) := readsAs_of_run fun _ => rfl

/-- What follows spaces and a bracket ends a value. -/
theorem exists_endsNumber {closing : Str} (hclosing : ∀ c ∈ closing, isJsonSpace c) {b : Char} (hb : endsNumber b) :
    ∃ c rest, closing ++ [b] = c :: rest ∧ endsNumber c := by
  cases closing with
  | nil => exact ⟨b, [], rfl, hb⟩
  | cons c closing =>
    refine ⟨c, closing ++ [b], rfl, ?_⟩
    simp [endsNumber, hclosing c List.mem_cons_self]

theorem readsAs_objText {indent sep closing : Str} {ms : List (Str × Str × Json F)} (hne : ms ≠ [])
    (hms : ∀ m ∈ ms, ReadsAs fl m.2.1 m.2.2) (hindent : ∀ c ∈ indent, isJsonSpace c)
    (hsep : ∀ c ∈ sep, isJsonSpace c) (hclosing : ∀ c ∈ closing, isJsonSpace c) :
    ReadsAs fl (objText indent sep closing (texts ms)) (.obj (members ms)) := by
  obtain ⟨m, ms, rfl⟩ := List.exists_cons_of_ne_nil hne
  refine readsAs_of_run fun stack => ?_
  have hopen : (⟨stack, .value⟩ : Reader F).step fl '{' = .ok ⟨stack, .objOpen⟩ := rfl
  have hkey : (⟨stack, .objOpen⟩ : Reader F).step fl '"' = .ok ⟨stack, .keyText [] [] .plain⟩ := rfl
  have hclose : (⟨stack, .afterMember (members (m :: ms))⟩ : Reader F).step fl '}' =
      .ok (complete stack (.obj (members (m :: ms)))) := rfl
  obtain ⟨c, rest, hend, hc⟩ := exists_endsNumber hclosing (b := '}') rfl
  have hsplit : objText indent sep closing (texts (m :: ms)) =
      '{' :: (indent ++ ((',' :: sep).intercalate ((texts (m :: ms)).map memberText) ++ (closing ++ ['}']))) := by
    simp [objText]
  rw [hsplit, run_step_ok hopen, run_spaces (fun _ => rfl) hindent, hend, run_members hsep hc rest ms hms hkey, ← hend,
    List.nil_append, run_spaces (fun _ => rfl) hclosing, run_step_ok hclose]
  rfl

/-- The items of a list, from the first on. -/
theorem run_items {stack : List (Ctx F)} {sep : Str} (hsep : ∀ c ∈ sep, isJsonSpace c) {c : Char}
    (hc : endsNumber c) (rest : Str) : ∀ (ms : List (Str × Json F)) {m : Str × Json F} {vs : List (Json F)},
    (∀ m' ∈ m :: ms, ReadsAs fl m'.1 m'.2) →
    (⟨.item vs :: stack, .value⟩ : Reader F).run fl ((',' :: sep).intercalate ((m :: ms).map Prod.fst) ++ c :: rest) =
      (⟨stack, .afterItem (vs ++ (m :: ms).map Prod.snd)⟩ : Reader F).run fl (c :: rest)
  | [], m, vs, hms => by
    have hone : (',' :: sep).intercalate ([m].map Prod.fst) = m.1 := by simp [List.intercalate]
    rw [hone, (hms m List.mem_cons_self).run _ hc]
    rfl
  | m' :: ms, m, vs, hms => by
    have hmore : (',' :: sep).intercalate ((m :: m' :: ms).map Prod.fst) =
        m.1 ++ (',' :: (sep ++ (',' :: sep).intercalate ((m' :: ms).map Prod.fst))) := by
      simp [List.intercalate]
    have hcomma : (complete (.item vs :: stack) m.2).step fl ',' = .ok ⟨.item (vs ++ [m.2]) :: stack, .value⟩ := rfl
    have hnext : (⟨.item (vs ++ [m.2]) :: stack, .value⟩ : Reader F).run fl _ = _ := run_items hsep hc rest ms
      fun m'' hm'' => hms m'' (List.mem_cons_of_mem m hm'')
    rw [hmore, List.append_assoc, List.cons_append, (hms m List.mem_cons_self).run _ rfl, run_step_ok hcomma,
      List.append_assoc, run_spaces (fun _ => rfl) hsep, hnext, List.append_assoc]
    rfl

/-- After the bracket of a list, the text of a value is its first item. -/
theorem run_arrOpen (stack : List (Ctx F)) (rest : Str) : ∀ {t : Str} {v : Json F}, ReadsAs fl t v →
    (⟨stack, .arrOpen⟩ : Reader F).run fl (t ++ rest) = (⟨.item [] :: stack, .value⟩ : Reader F).run fl (t ++ rest)
  | [], v, h => nomatch h [.item []] ',' rfl
  | c :: t, v, h => by
    by_cases hspace : isJsonSpace c
    · have hskip : ∀ r : Reader F, r.step fl c = between r c → r.step fl c = .ok r := fun r hr => by
        rw [hr, between, if_pos hspace]
      have ht : ReadsAs fl t v := fun stack d hd => by
        rw [← h stack d hd, List.cons_append, run_step_ok (hskip _ rfl)]
      rw [List.cons_append, run_step_ok (hskip _ rfl), run_step_ok (hskip _ rfl), run_arrOpen stack rest ht]
    · have hclose : c ≠ ']' := by
        rintro rfl
        have heq := h [.item []] ',' rfl
        cases heq
      have hsame : (⟨stack, .arrOpen⟩ : Reader F).step fl c = (⟨.item [] :: stack, .value⟩ : Reader F).step fl c := by
        show between _ c = between _ c
        rw [between, between, if_neg hspace, if_neg hspace]
        exact if_neg hclose
      rw [List.cons_append, Reader.run_cons, Reader.run_cons, hsame]

theorem readsAs_arrText {indent sep closing : Str} {ms : List (Str × Json F)} (hne : ms ≠ [])
    (hms : ∀ m ∈ ms, ReadsAs fl m.1 m.2) (hindent : ∀ c ∈ indent, isJsonSpace c)
    (hsep : ∀ c ∈ sep, isJsonSpace c) (hclosing : ∀ c ∈ closing, isJsonSpace c) :
    ReadsAs fl (arrText indent sep closing (ms.map Prod.fst)) (.arr (ms.map Prod.snd)) := by
  obtain ⟨m, ms, rfl⟩ := List.exists_cons_of_ne_nil hne
  refine readsAs_of_run fun stack => ?_
  have hopen : (⟨stack, .value⟩ : Reader F).step fl '[' = .ok ⟨stack, .arrOpen⟩ := rfl
  have hclose : (⟨stack, .afterItem ((m :: ms).map Prod.snd)⟩ : Reader F).step fl ']' =
      .ok (complete stack (.arr ((m :: ms).map Prod.snd))) := rfl
  obtain ⟨c, rest, hend, hc⟩ := exists_endsNumber hclosing (b := ']') rfl
  have hsplit : arrText indent sep closing ((m :: ms).map Prod.fst) =
      '[' :: (indent ++ ((',' :: sep).intercalate ((m :: ms).map Prod.fst) ++ (closing ++ [']']))) := by
    simp [arrText]
  have hfirst : ∀ rest', (⟨stack, .arrOpen⟩ : Reader F).run fl ((',' :: sep).intercalate ((m :: ms).map Prod.fst) ++ rest') =
      (⟨.item [] :: stack, .value⟩ : Reader F).run fl ((',' :: sep).intercalate ((m :: ms).map Prod.fst) ++ rest') := by
    intro rest'
    obtain ⟨more, hmore⟩ : ∃ more, (',' :: sep).intercalate ((m :: ms).map Prod.fst) = m.1 ++ more := by
      cases ms with
      | nil => exact ⟨[], by simp [List.intercalate]⟩
      | cons m' ms => exact ⟨',' :: (sep ++ (',' :: sep).intercalate ((m' :: ms).map Prod.fst)), by simp [List.intercalate]⟩
    rw [hmore, List.append_assoc]
    exact run_arrOpen stack _ (hms m List.mem_cons_self)
  rw [hsplit, run_step_ok hopen, run_spaces (fun _ => rfl) hindent, hfirst, hend, run_items hsep hc rest ms hms, ← hend,
    List.nil_append, run_spaces (fun _ => rfl) hclosing, run_step_ok hclose]
  rfl

end

/-! ### Values -/

theorem isJsonSpace_indented (level : ℕ) : ∀ c ∈ indented level, isJsonSpace c := by
  intro c hc
  rcases List.mem_cons.mp hc with rfl | hc
  · rfl
  · rw [List.eq_of_mem_replicate hc]
    rfl

theorem itemTexts_eq (repr : F → Str) (level : ℕ) : ∀ vs, itemTexts repr level vs = vs.map (dumps repr level)
  | [] => rfl
  | v :: vs => by rw [itemTexts, itemTexts_eq repr level vs, List.map_cons]

theorem memberTexts_eq (repr : F → Str) (level : ℕ) : ∀ ps,
    memberTexts repr level ps = ps.map fun p => (p.1, dumps repr level p.2)
  | [] => rfl
  | (k, v) :: ps => by rw [memberTexts, memberTexts_eq repr level ps, List.map_cons]

variable {repr : F → Str} {fl : Floats F}

theorem readsAs_arr (level : ℕ) {vs : List (Json F)} (h : ∀ v ∈ vs, ReadsAs fl (dumps repr (level + 1) v) v) :
    ReadsAs fl (dumps repr level (.arr vs)) (.arr vs) := by
  rw [dumps]
  by_cases hne : vs = []
  · subst hne
    exact readsAs_of_run fun _ => rfl
  · have hkeep : ¬ vs.isEmpty = true := by simpa using hne
    have htexts : itemTexts repr (level + 1) vs = (vs.map fun v => (dumps repr (level + 1) v, v)).map Prod.fst := by
      rw [itemTexts_eq, List.map_map]
      rfl
    have hvalues : vs = (vs.map fun v => (dumps repr (level + 1) v, v)).map Prod.snd := by
      rw [List.map_map]
      exact (List.map_id _).symm
    rw [if_neg hkeep, htexts]
    conv => arg 3; rw [hvalues]
    refine readsAs_arrText (by simpa using hne) (fun m hm => ?_) (isJsonSpace_indented _) (isJsonSpace_indented _)
      (isJsonSpace_indented _)
    obtain ⟨w, hw, rfl⟩ := List.mem_map.mp hm
    exact h w hw

theorem readsAs_obj (level : ℕ) {ps : List (Str × Json F)}
    (h : ∀ p ∈ ps, ReadsAs fl (dumps repr (level + 1) p.2) p.2) : ReadsAs fl (dumps repr level (.obj ps)) (.obj ps) := by
  rw [dumps]
  by_cases hne : ps = []
  · subst hne
    exact readsAs_of_run fun _ => rfl
  · have hkeep : ¬ ps.isEmpty = true := by simpa using hne
    have htexts : memberTexts repr (level + 1) ps = texts (ps.map fun p => (p.1, dumps repr (level + 1) p.2, p.2)) := by
      rw [memberTexts_eq, texts, List.map_map]
      rfl
    have hvalues : ps = members (ps.map fun p => (p.1, dumps repr (level + 1) p.2, p.2)) := by
      rw [members, List.map_map]
      exact (List.map_id _).symm
    rw [if_neg hkeep, htexts]
    conv => arg 3; rw [hvalues]
    refine readsAs_objText (by simpa using hne) (fun m hm => ?_) (isJsonSpace_indented _) (isJsonSpace_indented _)
      (isJsonSpace_indented _)
    obtain ⟨q, hq, rfl⟩ := List.mem_map.mp hm
    exact h q hq

mutual

/-- **A value that was written reads as itself**, at any level. -/
theorem readsAs_dumps : ∀ (v : Json F) (level : ℕ), NumbersTrip repr fl v → ReadsAs fl (dumps repr level v) v
  | .null, _, _ => readsAs_null
  | .bool b, _, _ => by
    cases b
    · exact readsAs_false
    · exact readsAs_true
  | .int _, _, h => readsAs_int h
  | .float x, level, h => by
    have hread : ReadsAs fl _ _ := readsAs_float h.1
    rw [h.2] at hread
    exact hread
  | .str s, _, _ => readsAs_quoted s
  | .arr vs, level, h => readsAs_arr level (readsAs_items vs (level + 1) h)
  | .obj ps, level, h => readsAs_obj level (readsAs_members ps (level + 1) h)

theorem readsAs_items : ∀ (vs : List (Json F)) (level : ℕ), ItemsTrip repr fl vs →
    ∀ v ∈ vs, ReadsAs fl (dumps repr level v) v
  | [], _, _ => fun _ hv => nomatch hv
  | v :: vs, level, h => List.forall_mem_cons.mpr ⟨readsAs_dumps v level h.1, readsAs_items vs level h.2⟩

theorem readsAs_members : ∀ (ps : List (Str × Json F)) (level : ℕ), MembersTrip repr fl ps →
    ∀ p ∈ ps, ReadsAs fl (dumps repr level p.2) p.2
  | [], _, _ => fun _ hp => nomatch hp
  | (_, v) :: ps, level, h => List.forall_mem_cons.mpr ⟨readsAs_dumps v level h.1, readsAs_members ps level h.2⟩

end

/-- A text that reads as a value is the text of that value. -/
theorem loads_of_readsAs {t : Str} {v : Json F} (h : ReadsAs fl t v) : loads fl t = .ok v := by
  rw [← loads_append_space t (c := ' ') rfl, loads, h [] ' ' rfl]
  rfl

/-- **What `json.dumps` writes, `json.loads` reads back.** -/
theorem loads_dumps {v : Json F} (h : NumbersTrip repr fl v) : loads fl (dumps repr 0 v) = .ok v :=
  loads_of_readsAs (readsAs_dumps v 0 h)

end Py
end MqResiliency
