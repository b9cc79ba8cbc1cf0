/-
# What a body may look like

`parse_body` finds four bars and leaves the seq to `int`, whose grammar is
wider than what `str` writes. So a body has the one spelling that `build_body`
gives it exactly if its seq is written in decimals, and the seqs of a list of
bodies (`snapshot.py`) are those of the bodies that `build_body` writes as
long as the others add none (`grammar_iff`).
-/
import MqResiliency.Dr.Wire
import MqResiliency.Lib.Decimal
import Mathlib.Data.Finset.Insert

namespace MqResiliency
namespace Dr

open Py

/-- `seqs_from_bodies`: a body that does not parse is not counted. -/
def seqsFromBodies (bodies : List Bytes) : Finset ℤ :=
  bodies.foldl (fun seqs b =>
    match parseBody b with
    | .ok m => insert m.seq seqs
    | .error _ => seqs) ∅

theorem mem_seqsFromBodies {bodies : List Bytes} {n : ℤ} :
    n ∈ seqsFromBodies bodies ↔ ∃ b ∈ bodies, ∃ m, parseBody b = .ok m ∧ m.seq = n := by
  -- The induction is on the bodies, with any seqs added before.
  have hfold : ∀ seqs : Finset ℤ, n ∈ bodies.foldl (fun seqs b =>
      match parseBody b with
      | .ok m => insert m.seq seqs
      | .error _ => seqs) seqs ↔ n ∈ seqs ∨ ∃ b ∈ bodies, ∃ m, parseBody b = .ok m ∧ m.seq = n := by
    induction bodies with
    | nil => simp
    | cons b bodies ih =>
      intro seqs
      rw [List.foldl_cons, ih]
      cases hb : parseBody b with
      | error e => simp [hb]
      | ok m => grind
  rw [seqsFromBodies, hfold]
  simp

/-! ### The text of a body -/

/-- Four fields behind `DRv1`, the seq as it is written. -/
def bodyText (seq uuid sessionDate payload : Str) : Str :=
  bodyPrefix ++ '|' :: (seq ++ '|' :: (uuid ++ '|' :: (sessionDate ++ '|' :: payload)))

theorem intercalate_eq_bodyText (seq uuid sessionDate payload : Str) :
    ['|'].intercalate [bodyPrefix, seq, uuid, sessionDate, payload] = bodyText seq uuid sessionDate payload := by
  simp [bodyText, List.intercalate]

/-- What decodes is the encoding of its text. -/
theorem encode_of_decode {b : Bytes} {s : Str} (h : decode b = some s) : encode s = b := by
  obtain ⟨a, ha, rfl⟩ := Option.map_eq_some_iff.mp h
  have hget := ByteArray.utf8Encode_get_utf8Decode? (b := b.toByteArray) (h := by rw [ha]; rfl)
  have hbytes : (encode a.toList).toByteArray = b.toByteArray := by
    simp only [ha, Option.get_some] at hget
    exact hget
  have hlist := congrArg (fun x => x.data.toList) hbytes
  simpa using hlist

/-- One step of `split`: the text up to the first separator. -/
theorem split_eq_cons_cons {sep : Char} {n : ℕ} {s a c : Str} {rest : List Str}
    (h : split sep (n + 1) s = a :: c :: rest) :
    sep ∉ a ∧ ∃ r, s = a ++ sep :: r ∧ split sep n r = c :: rest := by
  by_cases hsep : sep ∈ s
  · obtain ⟨a', r, rfl, ha'⟩ := List.eq_append_cons_of_mem hsep
    rw [split_cons sep n r ha'] at h
    obtain ⟨rfl, hrest⟩ := List.cons.inj h
    exact ⟨ha', r, rfl, hrest⟩
  · have hspan : s.span (· ≠ sep) = (s, []) := by
      have hp : ∀ x ∈ s, decide (x ≠ sep) = true := fun x hx => by
        simpa using fun h : x = sep => hsep (h ▸ hx)
      rw [List.span_eq_takeWhile_dropWhile, List.takeWhile_eq_self_iff.mpr hp,
        List.dropWhile_eq_nil_iff.mpr hp]
    rw [split, hspan] at h
    cases h

theorem split_eq_five {t p s u d q : Str} (h : split '|' 4 t = [p, s, u, d, q]) :
    '|' ∉ s ∧ '|' ∉ u ∧ '|' ∉ d ∧ t = p ++ '|' :: (s ++ '|' :: (u ++ '|' :: (d ++ '|' :: q))) := by
  obtain ⟨-, r₁, rfl, h₁⟩ := split_eq_cons_cons h
  obtain ⟨hs, r₂, rfl, h₂⟩ := split_eq_cons_cons h₁
  obtain ⟨hu, r₃, rfl, h₃⟩ := split_eq_cons_cons h₂
  obtain ⟨hd, r₄, rfl, h₄⟩ := split_eq_cons_cons h₃
  obtain rfl : r₄ = q := (List.cons.inj h₄).1
  exact ⟨hs, hu, hd, rfl⟩

/-- **The grammar of a body**: four bars, and a seq that `int` reads. -/
theorem parseBody_eq_ok_iff {b : Bytes} {m : WireMessage} : parseBody b = .ok m ↔
    ∃ s, int s = some m.seq ∧ '|' ∉ s ∧ '|' ∉ m.uuid ∧ '|' ∉ m.sessionDate ∧
      b = encode (bodyText s m.uuid m.sessionDate m.payload) := by
  constructor
  · intro h
    cases hdec : decode b with
    | none => simp [parseBody, hdec] at h
    | some t =>
      simp only [parseBody, hdec, Option.map_some] at h
      split at h
      · rename_i p s u d q hsplit
        split at h
        · rename_i hp
          split at h
          · rename_i n hn
            cases h
            obtain ⟨hs, hu, hd, ht⟩ := split_eq_five (Option.some.inj hsplit)
            exact ⟨s, hn, hs, hu, hd, by rw [bodyText, ← hp, ← ht, encode_of_decode hdec]⟩
          · cases h
        · cases h
      · cases h
  · rintro ⟨s, hn, hs, hu, hd, rfl⟩
    have hp : '|' ∉ bodyPrefix := by decide
    have hsplit : split '|' 4 (bodyText s m.uuid m.sessionDate m.payload) =
        [bodyPrefix, s, m.uuid, m.sessionDate, m.payload] := by
      rw [bodyText, split_cons _ _ _ hp, split_cons _ _ _ hs, split_cons _ _ _ hu, split_cons _ _ _ hd, split]
    simp only [parseBody, decode_encode, Option.map_some, hsplit, if_true, hn]

/-! ### One spelling -/

/-- Whatever `b` is read as gives `b` back. -/
def OneSpelling (b : Bytes) : Prop :=
  ∀ m, parseBody b = .ok m → buildBody m.seq m.uuid m.sessionDate m.payload = some b

/-- `b` has the fields of a body, its seq spelled `s`. -/
def SeqField (b : Bytes) (s : Str) : Prop :=
  ∃ uuid sessionDate payload, '|' ∉ s ∧ '|' ∉ uuid ∧ '|' ∉ sessionDate ∧
    b = encode (bodyText s uuid sessionDate payload)

/-- `build_body` writes `b` for the seq `n`. -/
def Built (b : Bytes) (n : ℤ) : Prop :=
  ∃ uuid sessionDate payload, buildBody n uuid sessionDate payload = some b

/-- `int` reads the seq of `b`, which is not in decimals. -/
def Loose (b : Bytes) (n : ℤ) : Prop := ∃ s, SeqField b s ∧ int s = some n ∧ ¬ isDecimal s

theorem buildBody_eq_some_iff {n : ℤ} {uuid sessionDate payload : Str} {b : Bytes} :
    buildBody n uuid sessionDate payload = some b ↔
      ∃ s, str n = some s ∧ encode (bodyText s uuid sessionDate payload) = b := by
  simp only [buildBody, intercalate_eq_bodyText, Option.map_eq_some_iff]

/-- Bytes of equal texts have equal texts. -/
theorem encode_injective {s t : Str} (h : encode s = encode t) : s = t := by
  have hdec := congrArg decode h
  simpa using hdec

/-- The text of a body has one seq field. -/
theorem SeqField.eq {b : Bytes} {s s' : Str} (h : SeqField b s) (h' : SeqField b s') : s = s' := by
  obtain ⟨u, d, q, hs, hu, hd, rfl⟩ := h
  obtain ⟨u', d', q', hs', hu', hd', heq⟩ := h'
  have htext := congrArg (split '|' 4) (encode_injective heq)
  have hp : '|' ∉ bodyPrefix := by decide
  rw [bodyText, bodyText, split_cons _ _ _ hp, split_cons _ _ _ hp, split_cons _ _ _ hs,
    split_cons _ _ _ hs'] at htext
  exact (List.cons.inj (List.cons.inj htext).2).1

theorem oneSpelling_iff {b : Bytes} : OneSpelling b ↔ ∀ s, SeqField b s → (int s).isSome → isDecimal s := by
  constructor
  · intro hone s hfield hint
    obtain ⟨n, hn⟩ := Option.isSome_iff_exists.mp hint
    obtain ⟨u, d, q, hs, hu, hd, rfl⟩ := id hfield
    have hparse := parseBody_eq_ok_iff (m := ⟨n, u, d, q⟩).mpr ⟨s, hn, hs, hu, hd, rfl⟩
    obtain ⟨s', hs', heq⟩ := buildBody_eq_some_iff.mp (hone _ hparse)
    have hfield' : SeqField (encode (bodyText s u d q)) s' :=
      ⟨u, d, q, bar_not_mem_str hs', hu, hd, heq.symm⟩
    obtain rfl := hfield.eq hfield'
    exact isDecimal_of_str hs'
  · intro h m hm
    obtain ⟨s, hn, hs, hu, hd, rfl⟩ := parseBody_eq_ok_iff.mp hm
    have hdec := h s ⟨_, _, _, hs, hu, hd, rfl⟩ (by rw [hn]; rfl)
    exact buildBody_eq_some_iff.mpr ⟨s, (str_eq_some_iff hn).mpr hdec, rfl⟩

/-! ### The seqs of a list of bodies -/

/-- Bars in the uuid or the date move the fields behind the seq, not the seq. -/
theorem seqField_of_str {n : ℤ} {s : Str} (hs : str n = some s) (uuid sessionDate payload : Str) :
    SeqField (encode (bodyText s uuid sessionDate payload)) s := by
  have hsplit : ∀ a r : Str, ∃ a' r', '|' ∉ a' ∧ a ++ '|' :: r = a' ++ '|' :: r' ∧ (r' = r ∨ '|' ∈ r') := by
    intro a r
    by_cases ha : '|' ∈ a
    · obtain ⟨a', a'', rfl, ha'⟩ := List.eq_append_cons_of_mem ha
      exact ⟨a', a'' ++ '|' :: r, ha', by simp, .inr (by simp)⟩
    · exact ⟨a, r, ha, rfl, .inl rfl⟩
  obtain ⟨u, r, hu, heq, hr⟩ := hsplit uuid (sessionDate ++ '|' :: payload)
  obtain ⟨d, q, rfl, hd⟩ : ∃ d q, r = d ++ '|' :: q ∧ '|' ∉ d := by
    apply List.eq_append_cons_of_mem
    rcases hr with rfl | hr
    · simp
    · exact hr
  exact ⟨u, d, q, bar_not_mem_str hs, hu, hd, by rw [bodyText, heq, bodyText]⟩

/-- What `build_body` writes is read with the seq that it was given. -/
theorem Built.read {b : Bytes} {n : ℤ} (h : Built b n) : ∃ m, parseBody b = .ok m ∧ m.seq = n := by
  obtain ⟨uuid, sessionDate, payload, h⟩ := h
  obtain ⟨s, hs, rfl⟩ := buildBody_eq_some_iff.mp h
  obtain ⟨u, d, q, hbar, hu, hd, heq⟩ := seqField_of_str hs uuid sessionDate payload
  exact ⟨⟨n, u, d, q⟩, parseBody_eq_ok_iff.mpr ⟨s, int_str hs, hbar, hu, hd, heq⟩, rfl⟩

theorem Loose.read {b : Bytes} {n : ℤ} (h : Loose b n) : ∃ m, parseBody b = .ok m ∧ m.seq = n := by
  obtain ⟨s, ⟨u, d, q, hbar, hu, hd, heq⟩, hn, -⟩ := h
  exact ⟨⟨n, u, d, q⟩, parseBody_eq_ok_iff.mpr ⟨s, hn, hbar, hu, hd, heq⟩, rfl⟩

/-- What is read was built, or is loose. -/
theorem built_or_loose {b : Bytes} {m : WireMessage} (h : parseBody b = .ok m) :
    Built b m.seq ∨ Loose b m.seq := by
  obtain ⟨s, hn, hs, hu, hd, rfl⟩ := parseBody_eq_ok_iff.mp h
  by_cases hdec : isDecimal s
  · exact .inl ⟨_, _, _, buildBody_eq_some_iff.mpr ⟨s, (str_eq_some_iff hn).mpr hdec, rfl⟩⟩
  · exact .inr ⟨s, ⟨_, _, _, hs, hu, hd, rfl⟩, hn, hdec⟩

theorem seqsFromBodies_iff {bodies : List Bytes} :
    (∀ n, n ∈ seqsFromBodies bodies ↔ ∃ b ∈ bodies, Built b n) ↔
      ∀ b ∈ bodies, ∀ n, Loose b n → ∃ b' ∈ bodies, Built b' n := by
  constructor
  · intro h b hb n hloose
    exact (h n).mp (mem_seqsFromBodies.mpr ⟨b, hb, hloose.read⟩)
  · intro h n
    rw [mem_seqsFromBodies]
    constructor
    · rintro ⟨b, hb, m, hm, rfl⟩
      rcases built_or_loose hm with hbuilt | hloose
      · exact ⟨b, hb, hbuilt⟩
      · exact h b hb m.seq hloose
    · rintro ⟨b, hb, hbuilt⟩
      exact ⟨b, hb, hbuilt.read⟩

/-- **When a body has one spelling**, and when the seqs of a list of bodies
are those that were built. -/
theorem grammar_iff (b : Bytes) (bodies : List Bytes) :
    (OneSpelling b ↔ ∀ s, SeqField b s → (int s).isSome → isDecimal s) ∧
      ((∀ n, n ∈ seqsFromBodies bodies ↔ ∃ b ∈ bodies, Built b n) ↔
        ∀ b ∈ bodies, ∀ n, Loose b n → ∃ b' ∈ bodies, Built b' n) :=
  ⟨oneSpelling_iff, seqsFromBodies_iff⟩

/-- A sign and an underscore: read, counted, and built by no one. -/
theorem loose_body_is_read : ¬ OneSpelling (encode "DRv1|+1_0|u|d|p".toList) ∧
    seqsFromBodies [encode "DRv1|+1_0|u|d|p".toList] = {10} ∧
    ¬ ∃ b ∈ [encode "DRv1|+1_0|u|d|p".toList], Built b 10 := by
  have hfield : SeqField (encode "DRv1|+1_0|u|d|p".toList) "+1_0".toList :=
    ⟨['u'], ['d'], ['p'], by decide, by decide, by decide, by rfl⟩
  have hread : int "+1_0".toList = some 10 := by rfl
  have hparse := parseBody_eq_ok_iff (b := encode "DRv1|+1_0|u|d|p".toList) (m := ⟨10, ['u'], ['d'], ['p']⟩).mpr
    ⟨"+1_0".toList, hread, by decide, by decide, by decide, by rfl⟩
  have hnot : ¬ Built (encode "DRv1|+1_0|u|d|p".toList) 10 := by
    rintro ⟨u, d, q, hbuilt⟩
    obtain ⟨s, hs, heq⟩ := buildBody_eq_some_iff.mp hbuilt
    have hsame := hfield.eq (heq ▸ seqField_of_str hs u d q)
    rw [← hsame] at hs
    exact absurd hs (by decide)
  refine ⟨fun hone => hnot ⟨_, _, _, hone _ hparse⟩, ?_, by simpa using hnot⟩
  rw [seqsFromBodies, List.foldl_cons, hparse]
  rfl

end Dr
end MqResiliency
