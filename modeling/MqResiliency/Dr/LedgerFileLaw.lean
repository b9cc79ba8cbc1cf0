/-
# The two readers of a ledger

A ledger that was written reads back as it was, as long as no seq is too long
to be written (`readJsonl_writeJsonl`). The reader of `mq-dr-forced` skips no
blank line, needs the file, ends lines at `\n` only, and takes seqs and
timestamps as they stand, so it sees the ledger that `read_jsonl` sees exactly
of the plain files (`readersAgree_iff`).

Key theorem: `readers_agree_iff`.
-/
import MqResiliency.Dr.LedgerFile
import MqResiliency.Lib.JsonLaw

namespace MqResiliency
namespace Dr

open Py
open Conv (digitsOf textOf)

/-! ### Lists that go together -/

theorem exists_of_forall₂_left {α β : Type} {R : α → β → Prop} : ∀ {xs : List α} {ys : List β},
    List.Forall₂ R xs ys → ∀ x ∈ xs, ∃ y ∈ ys, R x y
  | _, _, .nil, _, hx => absurd hx List.not_mem_nil
  | _, _, .cons h hs, x, hx => by
    rcases List.mem_cons.mp hx with rfl | hx
    · exact ⟨_, List.mem_cons_self, h⟩
    · obtain ⟨y, hy, hR⟩ := exists_of_forall₂_left hs x hx
      exact ⟨y, List.mem_cons_of_mem _ hy, hR⟩

theorem exists_of_forall₂_right {α β : Type} {R : α → β → Prop} {xs : List α} {ys : List β}
    (h : List.Forall₂ R xs ys) (y : β) (hy : y ∈ ys) : ∃ x ∈ xs, R x y :=
  exists_of_forall₂_left (R := flip R) h.flip y hy

theorem mapM_eq_some {α β : Type} {f : α → Option β} : ∀ {xs : List α} {ys : List β},
    xs.mapM f = some ys ↔ List.Forall₂ (fun x y => f x = some y) xs ys
  | [], ys => by simp [eq_comm]
  | x :: xs, ys => by
    simp only [List.mapM_cons, Option.bind_eq_bind, Option.bind_eq_some_iff, Option.pure_def, Option.some.injEq,
      List.forall₂_cons_left_iff]
    constructor
    · intro ⟨y, hy, ys', hys, heq⟩
      exact ⟨y, ys', hy, mapM_eq_some.mp hys, heq.symm⟩
    · intro ⟨y, ys', hy, hys, heq⟩
      exact ⟨y, hy, ys', mapM_eq_some.mpr hys, heq.symm⟩

/-! ### Rows that were written -/

/-- A finite timestamp whose text reads as it. -/
def RoundTrips (py : Texts) (ts : Ts) : Prop :=
  ∃ q h, ts = .fin q ∧ isFloatText (py.repr q) ∧ Double.parse (py.repr q) = some (.fin q h)

theorem str_eq_some {n : ℤ} {t : Str} : str n = some t ↔ digitsOf n ≤ maxStrDigits ∧ textOf n = t := by
  unfold str digitsOf textOf
  dsimp only
  split
  · rename_i h
    simp [h]
  · rename_i h
    simp [h]

/-- The members of a row, with what they read as. -/
def rowMembers (py : Texts) (e : LedgerEntry) (x : Double) : List (Str × Str × Json Double) :=
  [("event".toList, quoted e.event.value, .str e.event.value), ("seq".toList, textOf e.seq, .int e.seq),
    ("uuid".toList, quoted e.uuid, .str e.uuid), ("ts".toList, tsText py e.ts, .float x)]

theorem rowText_eq_some {py : Texts} {e : LedgerEntry} {t : Str} (x : Double) : rowText py e = some t ↔
    digitsOf e.seq ≤ maxStrDigits ∧ objText [] [' '] [] (texts (rowMembers py e x)) = t := by
  unfold rowText
  simp only [Option.bind_eq_bind, Option.bind_eq_some_iff, str_eq_some, Option.pure_def, Option.some.injEq]
  constructor
  · intro ⟨seq, ⟨hd, hseq⟩, ht⟩
    subst hseq
    exact ⟨hd, ht⟩
  · intro ⟨hd, ht⟩
    exact ⟨textOf e.seq, ⟨hd, rfl⟩, ht⟩

theorem eventOf_value (event : Event) : eventOf (.str event.value) = some event := by
  cases event <;> decide

/-- What a row of four members has under its keys. -/
theorem get?_row (event seq uuid ts : Json Double) :
    let row := Dict.ofList [("event".toList, event), ("seq".toList, seq), ("uuid".toList, uuid), ("ts".toList, ts)]
    row.get? "event".toList = some event ∧ row.get? "seq".toList = some seq ∧
      row.get? "uuid".toList = some uuid ∧ row.get? "ts".toList = some ts := by
  refine ⟨?_, ?_, ?_, ?_⟩
  · exact (Dict.get?_ofList_eq_some _).mpr ⟨[], _, rfl, by simp⟩
  · exact (Dict.get?_ofList_eq_some _).mpr ⟨[("event".toList, event)], _, rfl, by simp⟩
  · exact (Dict.get?_ofList_eq_some _).mpr ⟨[("event".toList, event), ("seq".toList, seq)], _, rfl, by simp⟩
  · exact (Dict.get?_ofList_eq_some _).mpr
      ⟨[("event".toList, event), ("seq".toList, seq), ("uuid".toList, uuid)], [], rfl, by simp⟩

/-- A row that was written reads as its members. -/
theorem rowOf_rowText {py : Texts} {e : LedgerEntry} {t : Str} (ht : rowText py e = some t)
    (hts : RoundTrips py e.ts) :
    ∃ x, tsOf x = e.ts ∧ rowOf t = some (Dict.ofList (members (rowMembers py e x))) := by
  obtain ⟨q, hq, hfin, htext, hparse⟩ := hts
  obtain ⟨hd, rfl⟩ := (rowText_eq_some (.fin q hq)).mp ht
  have hrepr : tsText py e.ts = py.repr q := by rw [hfin]; rfl
  have hvalue : floats.ofText (py.repr q) = .fin q hq := by
    show (Double.parse (py.repr q)).getD .nan = _
    rw [hparse]
    rfl
  have hreads : ∀ m ∈ rowMembers py e (.fin q hq), ReadsAs floats m.2.1 m.2.2 := by
    intro m hm
    simp only [rowMembers, List.mem_cons, List.not_mem_nil, or_false] at hm
    rcases hm with rfl | rfl | rfl | rfl
    · exact readsAs_quoted _
    · exact readsAs_int hd
    · exact readsAs_quoted _
    · have h : ReadsAs floats _ _ := readsAs_float htext
      rwa [hvalue, ← hrepr] at h
  have hnone : ∀ c ∈ ([] : Str), isJsonSpace c := fun c hc => absurd hc List.not_mem_nil
  have hsep : ∀ c ∈ [' '], isJsonSpace c := by decide
  have hload := loads_objText (by simp [rowMembers]) hreads hnone hsep hnone hnone
  rw [List.append_nil] at hload
  exact ⟨.fin q hq, hfin.symm, by rw [rowOf, hload]⟩

/-- A row that was written has its entry. -/
theorem entry_of_rowText {py : Texts} {e : LedgerEntry} {t : Str} (ht : rowText py e = some t)
    (hts : RoundTrips py e.ts) : (rowOf t).bind (entryOf py) = some e := by
  obtain ⟨x, hx, hrow⟩ := rowOf_rowText ht hts
  obtain ⟨hevent, hseq, huuid, hstamp⟩ := get?_row (.str e.event.value) (.int e.seq) (.str e.uuid) (.float x)
  rw [hrow]
  show entryOf py (Dict.ofList [_, _, _, _]) = _
  unfold entryOf
  rw [hevent, hseq, huuid, hstamp]
  simp only [Option.bind_eq_bind, Option.bind_some, eventOf_value, intOf, floatOf, strOf, hx]
  rfl

/-- A row that was written is one line. -/
theorem isPrintable_rowText {py : Texts} {e : LedgerEntry} {t : Str} (ht : rowText py e = some t)
    (hts : RoundTrips py e.ts) : ∀ c ∈ t, isPrintable c := by
  obtain ⟨q, hq, hfin, htext, _⟩ := hts
  obtain ⟨_, rfl⟩ := (rowText_eq_some (.fin q hq)).mp ht
  refine isPrintable_objText fun m hm => ?_
  have hrepr : tsText py e.ts = py.repr q := by rw [hfin]; rfl
  simp only [texts, rowMembers, List.map_cons, List.map_nil, List.mem_cons, List.not_mem_nil, or_false] at hm
  rcases hm with rfl | rfl | rfl | rfl
  · exact isPrintable_quoted _
  · exact isPrintable_textOf _
  · exact isPrintable_quoted _
  · rw [hrepr]
    exact isPrintable_of_isFloatText htext

theorem trim_rowText {py : Texts} {e : LedgerEntry} {t : Str} (ht : rowText py e = some t) : trim t ≠ [] := by
  obtain ⟨_, rfl⟩ := (rowText_eq_some .nan).mp ht
  intro h
  exact absurd (trim_eq_nil.mp h '{' List.mem_cons_self) (by decide)

/-- Rows that were written are the lines of their file. -/
theorem lines_of_rows {py : Texts} {es : List LedgerEntry} {rows : List Str}
    (h : List.Forall₂ (fun e row => rowText py e = some row) es rows) (hts : ∀ e ∈ es, RoundTrips py e.ts) :
    splitlines (newlines (rows.flatMap fun row => row ++ ['\n'])) = rows ∧ (∀ row ∈ rows, trim row ≠ []) ∧
      ∀ c ∈ newlines (rows.flatMap fun row => row ++ ['\n']), isLineBreak c → c = '\n' := by
  have hprint : ∀ row ∈ rows, trim row ≠ [] ∧ ∀ c ∈ row, isPrintable c := by
    intro row hrow
    obtain ⟨e, he, hrow⟩ := exists_of_forall₂_right h row hrow
    exact ⟨trim_rowText hrow, isPrintable_rowText hrow (hts e he)⟩
  have hchars : ∀ c ∈ rows.flatMap fun row => row ++ ['\n'], isPrintable c ∨ c = '\n' := by
    intro c hmem
    obtain ⟨row, hrow, hc⟩ := List.mem_flatMap.mp hmem
    rcases List.mem_append.mp hc with hc | hc
    · exact .inl ((hprint row hrow).2 c hc)
    · exact .inr (List.mem_singleton.mp hc)
  have hcr : '\r' ∉ rows.flatMap fun row => row ++ ['\n'] := fun hmem =>
    (hchars _ hmem).elim (by decide) (by decide)
  have hbreak : ∀ row ∈ rows, ∀ c ∈ row, isLineBreak c = false := fun row hrow c hc =>
    isLineBreak_of_isPrintable ((hprint row hrow).2 c hc)
  rw [newlines_eq_self hcr]
  refine ⟨splitlines_flatMap hbreak, fun row hrow => (hprint row hrow).1, fun c hc hb => ?_⟩
  rcases hchars c hc with hp | hn
  · rw [isLineBreak_of_isPrintable hp] at hb
    cases hb
  · exact hn

/-- **A ledger that was written reads back as it was**, and it is written if no
seq is too long. -/
theorem readJsonl_writeJsonl (py : Texts) (l : Ledger) (hts : ∀ e ∈ l.entries, RoundTrips py e.ts) :
    (∃ text, l.writeJsonl py = some text ∧ readJsonl py (some text) = some l) ↔
      ∀ e ∈ l.entries, digitsOf e.seq ≤ maxStrDigits := by
  constructor
  · intro ⟨text, hwrite, _⟩ e he
    obtain ⟨rows, hrows, _⟩ := Option.bind_eq_some_iff.mp hwrite
    obtain ⟨row, _, hrow⟩ := exists_of_forall₂_left (mapM_eq_some.mp hrows) e he
    exact ((rowText_eq_some .nan).mp hrow).1
  · intro hd
    have hall : List.Forall₂ (fun e row => rowText py e = some row) l.entries
        (l.entries.map fun e => objText [] [' '] [] (texts (rowMembers py e .nan))) := by
      rw [List.forall₂_map_right_iff, List.forall₂_same]
      exact fun e he => (rowText_eq_some .nan).mpr ⟨hd e he, rfl⟩
    have hback : List.Forall₂ (fun row e => (rowOf row).bind (entryOf py) = some e)
        (l.entries.map fun e => objText [] [' '] [] (texts (rowMembers py e .nan))) l.entries := by
      rw [List.forall₂_map_left_iff, List.forall₂_same]
      exact fun e he => entry_of_rowText ((rowText_eq_some .nan).mpr ⟨hd e he, rfl⟩) (hts e he)
    refine ⟨_, by rw [Ledger.writeJsonl, mapM_eq_some.mpr hall]; rfl, ?_⟩
    obtain ⟨hlines, hblanks, _⟩ := lines_of_rows hall hts
    have hfilter := List.filter_eq_self.mpr fun row hrow => decide_eq_true (hblanks row hrow)
    simp only [readJsonl, hlines, hfilter, mapM_eq_some.mpr hback]
    rfl

/-! ### Numbers as they stand -/

/-- `v == ts` in Python, where a NaN is itself. -/
def Denotes : Json Double → Ts → Prop
  | .float x, ts => tsOf x = ts
  | .int n, ts => ts = .fin n
  | .bool b, ts => ts = .fin b.toInt
  | _, _ => False

/-- A number that `int` leaves as it is. -/
def IsWhole : Json Double → Prop
  | .int _ | .bool _ => True
  | .float (.fin q _) => q.den = 1
  | _ => False

/-- A number that `float` leaves as it is. -/
def IsExact : Json Double → Prop
  | .float _ | .bool _ => True
  | .int n => IsDouble n
  | _ => False

theorem keyOf_of_isWhole {v : Json Double} {n : ℤ} (hv : IsWhole v) (hn : intOf v = some n) :
    keyOf v = some (.num n) := by
  match v with
  | .int m | .bool b =>
    obtain rfl := Option.some.inj hn
    rfl
  | .float (.fin q h) =>
    have hden : q.den = 1 := hv
    have htrunc : q.num.tdiv q.den = n := Option.some.inj hn
    have hq : q = n := by
      rw [← htrunc, hden, Nat.cast_one, Int.tdiv_one]
      exact (Rat.coe_int_num_of_den_eq_one hden).symm
    rw [keyOf, hq]
  | .str s => exact hv.elim

/-- What `int` changes is the key of no integer. -/
theorem keyOf_of_not_isWhole {v : Json Double} {n : ℤ} (hv : ¬ IsWhole v) (hn : intOf v = some n) :
    ∃ k, keyOf v = some k ∧ ∀ m : ℤ, k ≠ .num m := by
  match v with
  | .int m | .bool b => exact absurd trivial hv
  | .float (.fin q h) =>
    refine ⟨.num q, rfl, fun m hm => hv ?_⟩
    have hq : q = m := Key.num.inj hm
    show q.den = 1
    rw [hq]
    exact Rat.den_intCast m
  | .str s => exact ⟨.str s, rfl, fun m hm => Key.noConfusion hm⟩

theorem tsOf_ofInt {n : ℤ} (h : IsDouble n) : (Double.ofInt n).map tsOf = some (.fin n) := by
  rw [Double.ofInt_of_isDouble h]
  rfl

theorem isDouble_bool (b : Bool) : IsDouble (b.toInt : ℤ) := by
  refine Double.isDouble_intCast ?_
  cases b <;> decide

theorem denotes_of_isExact {v : Json Double} {ts : Ts} (hv : IsExact v) (hts : floatOf v = some ts) :
    Denotes v ts := by
  match v with
  | .float x => exact Option.some.inj hts
  | .int n => exact Option.some.inj (hts.symm.trans (tsOf_ofInt hv))
  | .bool b => exact Option.some.inj (hts.symm.trans (tsOf_ofInt (isDouble_bool b)))
  | .str _ | .null | .arr _ | .obj _ => exact hv.elim

theorem exists_double {v : Json Double} {ts : Ts} (h : floatOf v = some ts) : ∃ x, tsOf x = ts := by
  match v with
  | .float x => exact ⟨x, Option.some.inj h⟩
  | .int _ | .bool _ | .str _ =>
    obtain ⟨x, _, hx⟩ := Option.map_eq_some_iff.mp h
    exact ⟨x, hx⟩

/-- What denotes a timestamp that was read was a double before. -/
theorem isExact_of_denotes {v w : Json Double} {ts : Ts} (hv : Denotes v ts) (hw : floatOf w = some ts) :
    IsExact v := by
  match v with
  | .float _ | .bool _ => trivial
  | .int n =>
    have hts : ts = .fin n := hv
    obtain ⟨x, hx⟩ := exists_double hw
    match x with
    | .fin q hq =>
      have heq : q = n := Ts.fin.inj (hx.trans hts)
      show IsDouble n
      rwa [← heq]
    | .nan | .negInf | .posInf => cases hx.trans hts
  | .str _ | .null | .arr _ | .obj _ => exact hv.elim

/-! ### The rows of SENT entries -/

/-- The seq and the timestamp of a SENT row, as they stand in its line. -/
def sentPair (line : Str) : Option (Json Double × Json Double) := do
  let row ← rowOf line
  if isSent (row.get? "event".toList) then
    let seq ← row.get? "seq".toList
    let ts ← row.get? "ts".toList
    return (seq, ts)
  else none

/-- The SENT rows of a file, in order. -/
def sentRows (text : Str) : List (Json Double × Json Double) := (fileLines (newlines text)).filterMap sentPair

/-- The line is read as the entry. -/
def IsLineOf (py : Texts) (line : Str) (e : LedgerEntry) : Prop := (rowOf line).bind (entryOf py) = some e

/-- The row has the seq and the timestamp of the entry. -/
def IsRowOf (row : Json Double × Json Double) (e : LedgerEntry) : Prop :=
  intOf row.1 = some e.seq ∧ floatOf row.2 = some e.ts

theorem entryOf_eq_some {py : Texts} {row : Dict Str (Json Double)} {e : LedgerEntry} (h : entryOf py row = some e) :
    ∃ event seq ts, row.get? "event".toList = some event ∧ row.get? "seq".toList = some seq ∧
      row.get? "ts".toList = some ts ∧ eventOf event = some e.event ∧ IsRowOf (seq, ts) e := by
  unfold entryOf at h
  simp only [Option.bind_eq_bind, Option.bind_eq_some_iff, Option.pure_def, Option.some.injEq] at h
  obtain ⟨event, hevent, event', hevent', seq, hseq, n, hn, uuid, huuid, ts, hts, x, hx, rfl⟩ := h
  exact ⟨event, seq, ts, hevent, hseq, hts, hevent', hn, hx⟩

theorem isSent_iff {v : Json Double} {event : Event} (h : eventOf v = some event) :
    isSent (some v) = decide (event = .sent) := by
  match v with
  | .str s =>
    have hvalue : event.value = s := by simpa using List.find?_some h
    subst hvalue
    cases event <;> decide

/-- What the second reader does with a line of an entry. -/
theorem sentStep_of_line {py : Texts} {line : Str} {e : LedgerEntry} (h : IsLineOf py line e)
    (out : Dict Key (Json Double)) :
    (e.event = .sent ∧ ∃ row, sentPair line = some row ∧ IsRowOf row e ∧
      sentStep out line = some (out.set ((keyOf row.1).getD .null) row.2)) ∨
    (e.event ≠ .sent ∧ sentPair line = none ∧ sentStep out line = some out) := by
  obtain ⟨row, hrow, hentry⟩ := Option.bind_eq_some_iff.mp h
  obtain ⟨event, seq, ts, hevent, hseq, hts, hkind, hrowOf⟩ := entryOf_eq_some hentry
  have hsent := isSent_iff hkind
  by_cases he : e.event = .sent
  · refine .inl ⟨he, (seq, ts), ?_, hrowOf, ?_⟩
    · simp only [sentPair, Option.bind_eq_bind, hrow, Option.bind_some, hevent, hsent, he, decide_true, if_true, hseq,
        hts, Option.pure_def]
    · obtain ⟨k, hk⟩ : ∃ k, keyOf seq = some k := by
        by_cases hw : IsWhole seq
        · exact ⟨_, keyOf_of_isWhole hw hrowOf.1⟩
        · obtain ⟨k, hk, _⟩ := keyOf_of_not_isWhole hw hrowOf.1
          exact ⟨k, hk⟩
      simp only [sentStep, Option.bind_eq_bind, hrow, Option.bind_some, hevent, hsent, he, decide_true, if_true, hseq,
        hts, hk, Option.pure_def, Option.getD_some]
  · refine .inr ⟨he, ?_, ?_⟩
    · simp only [sentPair, Option.bind_eq_bind, hrow, Option.bind_some, hevent, hsent, he, decide_false, if_false,
        Bool.false_eq_true]
    · simp only [sentStep, Option.bind_eq_bind, hrow, Option.bind_some, hevent, hsent, he, decide_false, if_false,
        Bool.false_eq_true, Option.pure_def]

/-- The assignments that the second reader makes. -/
def assignments (rows : List (Json Double × Json Double)) : List (Key × Json Double) :=
  rows.map fun row => ((keyOf row.1).getD .null, row.2)

theorem foldlM_sentStep {py : Texts} : ∀ {lines : List Str} {es : List LedgerEntry} (out : Dict Key (Json Double)),
    List.Forall₂ (IsLineOf py) lines es →
    lines.foldlM sentStep out =
      some ((assignments (lines.filterMap sentPair)).foldl (fun d p => d.set p.1 p.2) out)
  | _, _, _, .nil => rfl
  | line :: lines, e :: es, out, .cons h hs => by
    rcases sentStep_of_line h out with ⟨_, row, hrow, _, hstep⟩ | ⟨_, hrow, hstep⟩
    · rw [List.foldlM_cons, hstep, List.filterMap_cons_some hrow]
      exact foldlM_sentStep _ hs
    · rw [List.foldlM_cons, hstep, List.filterMap_cons_none hrow]
      exact foldlM_sentStep out hs

theorem rows_entries {py : Texts} : ∀ {lines : List Str} {es : List LedgerEntry},
    List.Forall₂ (IsLineOf py) lines es →
    List.Forall₂ IsRowOf (lines.filterMap sentPair) (es.filter fun e => e.event = .sent)
  | _, _, .nil => .nil
  | line :: lines, e :: es, .cons h hs => by
    rcases sentStep_of_line h .empty with ⟨he, row, hrow, hrowOf, _⟩ | ⟨he, hrow, _⟩
    · rw [List.filterMap_cons_some hrow, List.filter_cons_of_pos (by simpa using he)]
      exact .cons hrowOf (rows_entries hs)
    · rw [List.filterMap_cons_none hrow, List.filter_cons_of_neg (by simpa using he)]
      exact rows_entries hs

/-! ### What the second reader returns -/

/-- The second reader has what the first has: a map from the seqs of the SENT
entries to timestamps of theirs. -/
def ReadersAgree (file : Option Str) (l : Ledger) : Prop :=
  ∃ out, sentTs file = some out ∧ (∀ k, k ∈ out.keys ↔ ∃ n ∈ l.sentSeqs, k = .num n) ∧
    ∀ (n : ℤ) v, out.get? (.num n) = some v → ∃ e ∈ l.entries, e.event = .sent ∧ e.seq = n ∧ Denotes v e.ts

/-- The file is as `write_jsonl` leaves it, as far as the second reader needs. -/
structure Plain (text : Str) : Prop where
  /-- Only `\n` ends a line. -/
  breaks : ∀ c ∈ newlines text, isLineBreak c → c = '\n'
  blanks : ∀ line ∈ fileLines (newlines text), trim line ≠ []
  seqs : ∀ row ∈ sentRows text, IsWhole row.1
  /-- The last SENT row of a seq has a timestamp that is a number, and a double. -/
  stamps : ∀ before row after, sentRows text = before ++ row :: after →
    (∀ later ∈ after, keyOf later.1 ≠ keyOf row.1) → IsExact row.2

section
variable {rows : List (Json Double × Json Double)} {es : List LedgerEntry}

theorem mem_keys_assignments {k : Key} :
    k ∈ (Dict.ofList (assignments rows)).keys ↔ ∃ row ∈ rows, (keyOf row.1).getD .null = k := by
  rw [Dict.mem_keys_ofList]
  simp [assignments]

/-- The keys are the seqs as long as these are whole numbers. -/
theorem keys_iff (h : List.Forall₂ IsRowOf rows es) :
    (∀ k, k ∈ (Dict.ofList (assignments rows)).keys ↔ ∃ n ∈ es.map (·.seq), k = .num (n : ℤ)) ↔
      ∀ row ∈ rows, IsWhole row.1 := by
  constructor
  · intro hkeys row hrow
    obtain ⟨e, _, hseq, _⟩ := exists_of_forall₂_left h row hrow
    by_contra hw
    obtain ⟨k, hk, hno⟩ := keyOf_of_not_isWhole hw hseq
    have hmem : k ∈ (Dict.ofList (assignments rows)).keys :=
      mem_keys_assignments.mpr ⟨row, hrow, by rw [hk, Option.getD_some]⟩
    obtain ⟨n, _, hn⟩ := (hkeys k).mp hmem
    exact hno n hn
  · intro hw k
    rw [mem_keys_assignments]
    constructor
    · intro ⟨row, hrow, hk⟩
      obtain ⟨e, he, hseq, _⟩ := exists_of_forall₂_left h row hrow
      rw [keyOf_of_isWhole (hw row hrow) hseq, Option.getD_some] at hk
      exact ⟨e.seq, List.mem_map_of_mem he, hk.symm⟩
    · intro ⟨n, hn, hk⟩
      obtain ⟨e, he, rfl⟩ := List.mem_map.mp hn
      obtain ⟨row, hrow, hseq, _⟩ := exists_of_forall₂_right h e he
      exact ⟨row, hrow, by rw [keyOf_of_isWhole (hw row hrow) hseq, Option.getD_some, hk]⟩

/-- The values are timestamps of the seqs as long as the last one of each is exact. -/
theorem values_iff (h : List.Forall₂ IsRowOf rows es) (hw : ∀ row ∈ rows, IsWhole row.1) :
    (∀ (n : ℤ) v, (Dict.ofList (assignments rows)).get? (.num n) = some v →
      ∃ e ∈ es, e.seq = n ∧ Denotes v e.ts) ↔
    ∀ before row after, rows = before ++ row :: after →
      (∀ later ∈ after, keyOf later.1 ≠ keyOf row.1) → IsExact row.2 := by
  have hkey : ∀ row ∈ rows, ∃ e ∈ es, IsRowOf row e ∧ keyOf row.1 = some (.num e.seq) := by
    intro row hrow
    obtain ⟨e, he, hseq, hts⟩ := exists_of_forall₂_left h row hrow
    exact ⟨e, he, ⟨hseq, hts⟩, keyOf_of_isWhole (hw row hrow) hseq⟩
  constructor
  · intro hvalues before row after hrows hlater
    have hrow : row ∈ rows := by simp [hrows]
    obtain ⟨e, _, hrowOf, hk⟩ := hkey row hrow
    have hget : (Dict.ofList (assignments rows)).get? (.num e.seq) = some row.2 := by
      refine (Dict.get?_ofList_eq_some _).mpr ⟨assignments before, assignments after, ?_, fun hmem => ?_⟩
      · simp [hrows, assignments, hk]
      · -- a later row of the key
        obtain ⟨later, hmem, heq⟩ : ∃ later ∈ after, (keyOf later.1).getD .null = .num e.seq := by
          simpa [assignments] using hmem
        obtain ⟨e', _, _, hk'⟩ := hkey later (by simp [hrows, hmem])
        rw [hk', Option.getD_some] at heq
        exact hlater later hmem (by rw [hk', hk, heq])
    obtain ⟨e', he', _, hden⟩ := hvalues e.seq row.2 hget
    obtain ⟨row', _, _, hts'⟩ := exists_of_forall₂_right h e' he'
    exact isExact_of_denotes hden hts'
  · intro hexact n v hget
    obtain ⟨before, after, heq, hafter⟩ := (Dict.get?_ofList_eq_some _).mp hget
    obtain ⟨before', rest, hrows, _, hrest⟩ := List.map_eq_append_iff.mp heq
    obtain ⟨row, after', hrest, hrow, hafter'⟩ := List.map_eq_cons_iff.mp hrest
    subst hrest
    obtain ⟨e, he, hrowOf, hk⟩ := hkey row (by simp [hrows])
    obtain ⟨hkn, hv⟩ : (keyOf row.1).getD .null = .num n ∧ row.2 = v := by simpa using hrow
    have hlast : IsExact row.2 := by
      refine hexact before' row after' hrows fun later hlater hsame => hafter ?_
      rw [← hafter']
      refine List.mem_map.mpr ⟨_, List.mem_map.mpr ⟨later, hlater, rfl⟩, ?_⟩
      rw [hsame, hkn]
    have hseq : e.seq = n := by
      rw [hk, Option.getD_some] at hkn
      exact_mod_cast Key.num.inj hkn
    exact ⟨e, he, hseq, hv ▸ denotes_of_isExact hlast hrowOf.2⟩

end

/-! ### Lines of both readers -/

theorem rowOf_eq_some {line : Str} {row : Dict Str (Json Double)} (h : rowOf line = some row) :
    ∃ v, loads floats line = .ok v := by
  unfold rowOf at h
  split at h
  · exact ⟨_, by assumption⟩
  · cases h

theorem rowOf_newline (line : Str) : rowOf (line ++ ['\n']) = rowOf line := by
  unfold rowOf
  rw [loads_append_space line rfl]

/-- The second reader needs an object of each line. -/
theorem rowOf_of_foldlM : ∀ {lines : List Str} {out out' : Dict Key (Json Double)},
    lines.foldlM sentStep out = some out' → ∀ line ∈ lines, ∃ row, rowOf line = some row
  | [], _, _, _, _, hline => absurd hline List.not_mem_nil
  | line :: lines, out, out', h, line', hline => by
    rw [List.foldlM_cons] at h
    obtain ⟨mid, hstep, hrest⟩ := Option.bind_eq_some_iff.mp h
    rcases List.mem_cons.mp hline with rfl | hline
    · obtain ⟨row, hrow, _⟩ := Option.bind_eq_some_iff.mp hstep
      exact ⟨row, hrow⟩
    · exact rowOf_of_foldlM hrest line' hline

/-- What the second reader accepts has no other line break, and no blank line. -/
theorem lines_of_sentTs {py : Texts} {text : Str} {l : Ledger} {out : Dict Key (Json Double)}
    (hread : readJsonl py (some text) = some l) (h : sentTs (some text) = some out) :
    (∀ c ∈ newlines text, isLineBreak c → c = '\n') ∧ ∀ line ∈ fileLines (newlines text), trim line ≠ [] := by
  have hrows := rowOf_of_foldlM h
  constructor
  · by_contra hbreak
    have hother : ∃ c ∈ newlines text, isLineBreak c ∧ c ≠ '\n' := by
      push Not at hbreak
      exact hbreak
    obtain ⟨a, c, b, ha, hline, hc, hn, hr⟩ := exists_cut_line (cr_not_mem_newlines text) hother
    -- the first reader has the start of that line as a line of its own
    have hstart : (∀ d ∈ a, Re.isSpace d) ∨ ∃ v, loads floats a = .ok v := by
      by_cases hblank : trim a = []
      · exact .inl (trim_eq_nil.mp hblank)
      · obtain ⟨entries, hentries, _⟩ := Option.bind_eq_some_iff.mp hread
        have hmem : a ∈ (splitlines (newlines text)).filter fun line => trim line ≠ [] :=
          List.mem_filter.mpr ⟨ha, by simpa using hblank⟩
        obtain ⟨e, _, he⟩ := exists_of_forall₂_left (mapM_eq_some.mp hentries) a hmem
        obtain ⟨row, hrow, _⟩ := Option.bind_eq_some_iff.mp he
        exact .inr (rowOf_eq_some hrow)
    obtain ⟨row, hrow⟩ := hrows _ hline
    obtain ⟨v, hv⟩ := rowOf_eq_some hrow
    exact loads_otherSpace (isOtherSpace_of_isLineBreak hc hn hr) hstart v hv
  · intro line hline hblank
    obtain ⟨row, hrow⟩ := hrows line hline
    obtain ⟨v, hv⟩ := rowOf_eq_some hrow
    exact loads_blank (trim_eq_nil.mp hblank) v hv

theorem forall₂_sameLine {R : Str → LedgerEntry → Prop} (hR : ∀ line e, R line e → R (line ++ ['\n']) e) :
    ∀ {fls ls : List Str} {es : List LedgerEntry}, List.Forall₂ SameLine fls ls → List.Forall₂ R ls es →
      List.Forall₂ R fls es
  | _, _, _, .nil, .nil => .nil
  | fl :: fls, line :: ls, e :: es, .cons h hs, .cons hr hrs => by
    refine .cons ?_ (forall₂_sameLine hR hs hrs)
    rcases h with rfl | rfl
    · exact hr
    · exact hR line e hr

/-- Each line of such a file has its entry. -/
theorem isLineOf_of_plain {py : Texts} {text : Str} {l : Ledger} (hread : readJsonl py (some text) = some l)
    (hbreaks : ∀ c ∈ newlines text, isLineBreak c → c = '\n')
    (hblanks : ∀ line ∈ fileLines (newlines text), trim line ≠ []) :
    List.Forall₂ (IsLineOf py) (fileLines (newlines text)) l.entries := by
  have hsame := fileLines_splitlines hbreaks
  have hfilter : (splitlines (newlines text)).filter (fun line => trim line ≠ []) = splitlines (newlines text) := by
    rw [List.filter_eq_self]
    intro line hline
    obtain ⟨fl, hfl, hrel⟩ := exists_of_forall₂_right hsame line hline
    have hnonblank := hblanks fl hfl
    have hne : trim line ≠ [] := by
      rcases hrel with rfl | rfl
      · exact hnonblank
      · intro h
        refine hnonblank (trim_eq_nil.mpr fun c hc => ?_)
        rcases List.mem_append.mp hc with hc | hc
        · exact trim_eq_nil.mp h c hc
        · rw [List.mem_singleton.mp hc]
          rfl
    simpa using hne
  obtain ⟨entries, hentries, hl⟩ := Option.bind_eq_some_iff.mp hread
  obtain rfl : (⟨entries⟩ : Ledger) = l := Option.some.inj hl
  rw [hfilter] at hentries
  refine forall₂_sameLine (fun line e h => ?_) hsame (mapM_eq_some.mp hentries)
  show (rowOf (line ++ ['\n'])).bind (entryOf py) = some e
  rw [rowOf_newline]
  exact h

/-! ### The two readers -/

theorem sentTs_of_lines {py : Texts} {text : Str} {es : List LedgerEntry}
    (h : List.Forall₂ (IsLineOf py) (fileLines (newlines text)) es) :
    sentTs (some text) = some (Dict.ofList (assignments (sentRows text))) := foldlM_sentStep .empty h

theorem readersAgree_of_lines {py : Texts} {text : Str} {l : Ledger}
    (h : List.Forall₂ (IsLineOf py) (fileLines (newlines text)) l.entries) :
    ReadersAgree (some text) l ↔ (∀ row ∈ sentRows text, IsWhole row.1) ∧
      ∀ before row after, sentRows text = before ++ row :: after →
        (∀ later ∈ after, keyOf later.1 ≠ keyOf row.1) → IsExact row.2 := by
  have hrows : List.Forall₂ IsRowOf (sentRows text) (l.entries.filter fun e => e.event = .sent) := rows_entries h
  have hseqs : ∀ k, (∃ n ∈ l.sentSeqs, k = Key.num (n : ℤ)) ↔
      ∃ n ∈ (l.entries.filter fun e => e.event = .sent).map (·.seq), k = Key.num (n : ℤ) := by
    intro k
    refine exists_congr fun n => and_congr_left fun _ => ?_
    simp [Ledger.mem_sentSeqs, and_assoc]
  have hvals : ∀ (n : ℤ) v, (∃ e ∈ l.entries, e.event = .sent ∧ e.seq = n ∧ Denotes v e.ts) ↔
      ∃ e ∈ l.entries.filter fun e => e.event = .sent, e.seq = n ∧ Denotes v e.ts := by
    intro n v
    refine exists_congr fun e => ?_
    simp [and_assoc]
  have hagree : ReadersAgree (some text) l ↔
      (∀ k, k ∈ (Dict.ofList (assignments (sentRows text))).keys ↔
        ∃ n ∈ (l.entries.filter fun e => e.event = .sent).map (·.seq), k = Key.num (n : ℤ)) ∧
      ∀ (n : ℤ) v, (Dict.ofList (assignments (sentRows text))).get? (.num n) = some v →
        ∃ e ∈ l.entries.filter fun e => e.event = .sent, e.seq = n ∧ Denotes v e.ts := by
    unfold ReadersAgree
    rw [sentTs_of_lines h]
    simp only [Option.some.injEq, exists_eq_left', hseqs, hvals]
  rw [hagree, keys_iff hrows]
  exact and_congr_right fun hw => values_iff hrows hw

/-- **The readers see the same ledger of a plain file, and of no other.** -/
theorem readersAgree_iff {py : Texts} {file : Option Str} {l : Ledger} (hread : readJsonl py file = some l) :
    ReadersAgree file l ↔ ∃ text, file = some text ∧ Plain text := by
  cases file with
  | none =>
    refine ⟨fun ⟨out, hout, _⟩ => ?_, fun ⟨text, htext, _⟩ => ?_⟩
    · cases hout
    · cases htext
  | some text =>
    constructor
    · intro hagree
      obtain ⟨hbreaks, hblanks⟩ : (∀ c ∈ newlines text, isLineBreak c → c = '\n') ∧
          ∀ line ∈ fileLines (newlines text), trim line ≠ [] := by
        obtain ⟨out, hout, _⟩ := hagree
        exact lines_of_sentTs hread hout
      obtain ⟨hseqs, hstamps⟩ := (readersAgree_of_lines (isLineOf_of_plain hread hbreaks hblanks)).mp hagree
      exact ⟨text, rfl, hbreaks, hblanks, hseqs, hstamps⟩
    · intro ⟨text', htext, hplain⟩
      obtain rfl : text = text' := Option.some.inj htext
      exact (readersAgree_of_lines (isLineOf_of_plain hread hplain.breaks hplain.blanks)).mpr ⟨hplain.seqs, hplain.stamps⟩

/-- A file that was written is plain. -/
theorem plain_of_writeJsonl {py : Texts} {l : Ledger} {text : Str} (hts : ∀ e ∈ l.entries, RoundTrips py e.ts)
    (hwrite : l.writeJsonl py = some text) : Plain text := by
  obtain ⟨rows, hrows, htext⟩ := Option.bind_eq_some_iff.mp hwrite
  obtain rfl : (rows.flatMap fun row => row ++ ['\n']) = text := Option.some.inj htext
  have hall := mapM_eq_some.mp hrows
  obtain ⟨hlines, hrows', hbreaks⟩ := lines_of_rows hall hts
  have hsame : List.Forall₂ SameLine (fileLines (newlines (rows.flatMap fun row => row ++ ['\n']))) rows := by
    have h := fileLines_splitlines hbreaks
    rwa [hlines] at h
  have hpair : ∀ pair ∈ sentRows (rows.flatMap fun row => row ++ ['\n']), IsWhole pair.1 ∧ IsExact pair.2 := by
    intro pair hpair
    obtain ⟨line, hline, hpair⟩ := List.mem_filterMap.mp hpair
    obtain ⟨row, hrow, hrel⟩ := exists_of_forall₂_left hsame line hline
    obtain ⟨e, he, hwritten⟩ := exists_of_forall₂_right hall row hrow
    obtain ⟨x, _, hmembers⟩ := rowOf_rowText hwritten (hts e he)
    have hrowOf : rowOf line = some (Dict.ofList (members (rowMembers py e x))) := by
      rcases hrel with rfl | rfl
      · exact hmembers
      · rw [rowOf_newline, hmembers]
    obtain ⟨_, hseq, _, hstamp⟩ := get?_row (.str e.event.value) (.int e.seq) (.str e.uuid) (.float x)
    have hrowOf' : rowOf line = some (Dict.ofList [_, _, _, _]) := hrowOf
    simp only [sentPair, Option.bind_eq_bind, hrowOf', Option.bind_some, hseq, hstamp, Option.pure_def] at hpair
    split at hpair
    · obtain rfl := Option.some.inj hpair
      exact ⟨trivial, trivial⟩
    · cases hpair
  refine ⟨hbreaks, fun line hline hblank => ?_, fun pair h => (hpair pair h).1, fun before pair after h _ => ?_⟩
  · obtain ⟨row, hrow, hrel⟩ := exists_of_forall₂_left hsame line hline
    refine hrows' row hrow (trim_eq_nil.mpr fun c hc => trim_eq_nil.mp hblank c ?_)
    rcases hrel with rfl | rfl
    · exact hc
    · exact List.mem_append_left _ hc
  · exact (hpair pair (by simp [h])).2

/-- **When every reader of a ledger file sees the same ledger.** -/
theorem readers_agree_iff (py : Texts) :
    (∀ l : Ledger, (∀ e ∈ l.entries, RoundTrips py e.ts) →
      ((∃ text, l.writeJsonl py = some text ∧ readJsonl py (some text) = some l) ↔
        ∀ e ∈ l.entries, digitsOf e.seq ≤ maxStrDigits)) ∧
    ∀ file l, readJsonl py file = some l → (ReadersAgree file l ↔ ∃ text, file = some text ∧ Plain text) :=
  ⟨fun l hts => readJsonl_writeJsonl py l hts, fun _ _ hread => readersAgree_iff hread⟩

/-- Python's texts, as far as the examples need them. -/
def someTexts : Texts := ⟨fun q => if q = 100 then "100.0".toList else "0.0".toList, fun _ => "None".toList⟩

/-- One message that was sent. -/
def someLedger : Ledger := ⟨[⟨.sent, 1, "u-1".toList, .fin 100⟩]⟩

theorem roundTrips_hundred : RoundTrips someTexts (.fin 100) := by
  have hparse : (Double.parse "100.0".toList).map tsOf = some (.fin 100) := by decide +kernel
  obtain ⟨x, hx, hts⟩ := Option.map_eq_some_iff.mp hparse
  match x with
  | .fin q hq =>
    obtain rfl : q = 100 := Ts.fin.inj hts
    exact ⟨100, hq, rfl, by decide +kernel, hx⟩

/-- A ledger that was written: both readers have it. -/
theorem written_ledger_read : ∃ text, readJsonl someTexts (some text) = some someLedger ∧
    ReadersAgree (some text) someLedger := by
  have hts : ∀ e ∈ someLedger.entries, RoundTrips someTexts e.ts := by
    simpa [someLedger] using roundTrips_hundred
  obtain ⟨text, hwrite, hread⟩ := ((readers_agree_iff someTexts).1 someLedger hts).mpr (by decide)
  exact ⟨text, hread, ((readers_agree_iff someTexts).2 _ _ hread).mpr ⟨text, rfl, plain_of_writeJsonl hts hwrite⟩⟩

/-- The ledger with a blank line at the end, which the first reader skips. -/
def blankLine : Str := "\x7b\"event\": \"sent\", \"seq\": 1, \"uuid\": \"u-1\", \"ts\": 100.0\x7d\n\n".toList

theorem blank_line_divides : ∃ l, readJsonl someTexts (some blankLine) = some l ∧ ¬ ReadersAgree (some blankLine) l := by
  have hread : (readJsonl someTexts (some blankLine)).isSome := by decide +kernel
  have hsent : (sentTs (some blankLine)).isNone := by decide +kernel
  obtain ⟨l, hl⟩ := Option.isSome_iff_exists.mp hread
  refine ⟨l, hl, fun ⟨out, hout, _⟩ => ?_⟩
  rw [hout] at hsent
  cases hsent

end Dr
end MqResiliency
