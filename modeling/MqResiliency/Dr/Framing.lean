/-
# The body survives both hops

A body is found behind its header by its marker, `DRv1|`. Text that has no
marker has none in its bytes, and none forms at the seam, since the marker's
first letter is in it once (`not_marker_prefix`). So a body is read back behind
any header without a marker (`splitFramed_of_unmarked`), the header of the
responder's reply among them (`wire_identity`).
-/
import MqResiliency.Dr.Responder

namespace MqResiliency
namespace Dr

open Py

/-- The marker, as text. -/
def markerText : Str := bodyPrefix ++ ['|']

theorem markerText_eq : markerText = 'D' :: ['R', 'v', '1', '|'] := by decide

/-- No marker starts in a text without one, not even one that ends in a body behind it. -/
theorem not_marker_prefix {header : Str} (hmark : ¬ markerText <:+: header) {l₁ l₂ r : Bytes}
    (hheader : encode header = l₁ ++ l₂) (hne : l₂ ≠ []) : ¬ marker <+: l₂ ++ (marker ++ r) := by
  intro hpre
  obtain ⟨b, bs, rfl⟩ := List.exists_cons_of_ne_nil hne
  have hb : b = 68 := by
    have hpre' := hpre
    rw [marker_eq, List.cons_append, List.cons_prefix_cons] at hpre'
    exact hpre'.1.symm
  have hascii : ∀ c ∈ markerText, c.toNat < 128 := by decide
  obtain ⟨s₁, c, s₂, hs, -, hc, h₂⟩ := encode_eq_append_cons (by rw [hb]; decide) hheader
  have hcs : encode (c :: s₂) = b :: bs := by
    have hcons : encode (c :: s₂) = String.utf8EncodeChar c ++ encode s₂ := List.flatMap_cons
    have hc68 : c.toNat = 68 := by rw [hc, hb]; rfl
    rw [hcons, h₂, utf8EncodeChar_ascii (by omega), hc68, hb]
    rfl
  rw [← hcs] at hpre
  rcases prefix_encode hascii hpre with hin | ⟨t₂, ht, hne₂, hseam⟩
  · -- The whole marker is in the header.
    apply hmark
    rw [hs]
    exact hin.isInfix.trans (List.suffix_append s₁ (c :: s₂)).isInfix
  · -- A part of it is; the body then goes on with a letter that it does not have there.
    rw [markerText_eq, List.cons_append] at ht
    obtain ⟨-, htail⟩ := List.cons.inj ht
    obtain ⟨d, t, rfl⟩ := List.exists_cons_of_ne_nil hne₂
    have hd : d ∈ ['R', 'v', '1', '|'] := htail ▸ List.mem_append_right s₂ List.mem_cons_self
    have hbyte : ∀ d ∈ ['R', 'v', '1', '|'], String.utf8EncodeChar d ≠ [] ∧
        68 ∉ String.utf8EncodeChar d := by decide +kernel
    obtain ⟨hsome, hnot⟩ := hbyte d hd
    obtain ⟨x, xs, hx⟩ := List.exists_cons_of_ne_nil hsome
    have hdt : encode (d :: t) = String.utf8EncodeChar d ++ encode t := List.flatMap_cons
    rw [hdt, hx, marker_eq, List.cons_append, List.cons_append, List.cons_prefix_cons] at hseam
    exact hnot (hx ▸ hseam.1 ▸ List.mem_cons_self)

/-- **A framed body reads back** behind a header without the marker. -/
theorem splitFramed_of_unmarked {header : Str} (hmark : ¬ markerText <:+: header) {seq : ℤ}
    {uuid sessionDate payload : Str} {body : Bytes} (hu : '|' ∉ uuid) (hd : '|' ∉ sessionDate)
    (h : buildBody seq uuid sessionDate payload = some body) :
    splitFramed (encode header ++ body) = .ok (body, ⟨seq, uuid, sessionDate, payload⟩) := by
  obtain ⟨r, rfl⟩ := marker_isPrefix h
  have hfind : find marker (encode header ++ (marker ++ r)) = some (encode header).length :=
    find_append_of_not marker r _ fun l₁ l₂ hl hne => not_marker_prefix hmark hl hne
  have hparse := parseBody_buildBody hu hd h
  simp only [splitFramed, hfind, List.drop_left, hparse]
  rfl

theorem packHeader_of_short {password sender receiver sessionDate : Str} (hp : password.length ≤ headerField)
    (hs : sender.length ≤ headerField) (hr : receiver.length ≤ headerField)
    (hd : sessionDate.length ≤ headerField) : packHeader password sender receiver sessionDate =
      .ok (ljust 8 password ++ ljust 8 sender ++ ljust 8 receiver ++ ljust 8 sessionDate) := by
  have hshort : ∀ (name : String) (value : Str), value.length ≤ headerField → checkField name value = .ok () :=
    fun name value hle => if_neg (by omega)
  rw [packHeader, hshort _ _ hp, hshort _ _ hs, hshort _ _ hr, hshort _ _ hd]
  rfl

/-- The header of a reply has no marker: none of its fields has a bar. -/
theorem replyHeader_unmarked {sessionDate : Str} (hd : '|' ∉ sessionDate) (hlen : sessionDate.length ≤ headerField) :
    ∃ header, packHeader "pw".toList "SVC".toList "APP01".toList sessionDate = .ok header ∧
      ¬ markerText <:+: header := by
  refine ⟨_, packHeader_of_short (by decide) (by decide) (by decide) hlen, fun hin => ?_⟩
  have hbar : '|' ∈ ljust 8 "pw".toList ++ ljust 8 "SVC".toList ++ ljust 8 "APP01".toList ++ ljust 8 sessionDate :=
    hin.subset (by decide)
  have hfixed : '|' ∉ ljust 8 "pw".toList ++ ljust 8 "SVC".toList ++ ljust 8 "APP01".toList := by decide
  rcases List.mem_append.mp hbar with hbar | hbar
  · exact hfixed hbar
  · rcases List.mem_append.mp hbar with hbar | hbar
    · exact hd hbar
    · exact absurd (List.eq_of_mem_replicate hbar) (by decide)

/-- **The wire identity survives both hops**: behind the header that the app
packs, and behind the header that the responder packs for its reply. -/
theorem wire_identity {password sender receiver headerDate header : Str}
    (_hheader : packHeader password sender receiver headerDate = .ok header) (hmark : ¬ markerText <:+: header)
    {seq : ℤ} (hseq : (Nat.toDigits 10 seq.natAbs).length ≤ maxStrDigits) {uuid sessionDate : Str} (payload : Str)
    (hu : '|' ∉ uuid) (hd : '|' ∉ sessionDate) (hlen : sessionDate.length ≤ headerField) (req : Md) :
    ∃ body reply, buildBody seq uuid sessionDate payload = some body ∧
      splitFramed (encode header ++ body) = .ok (body, ⟨seq, uuid, sessionDate, payload⟩) ∧
      packHeader "pw".toList "SVC".toList "APP01".toList sessionDate = .ok reply ∧
      splitFramed (Responder.replyMsg reply body req).body = .ok (body, ⟨seq, uuid, sessionDate, payload⟩) := by
  obtain ⟨s, hs⟩ : ∃ s, str seq = some s := ⟨_, if_pos hseq⟩
  obtain ⟨body, hbody⟩ : ∃ body, buildBody seq uuid sessionDate payload = some body := by
    rw [buildBody, hs]
    exact ⟨_, rfl⟩
  obtain ⟨reply, hreply, hunmarked⟩ := replyHeader_unmarked hd hlen
  exact ⟨body, reply, hbody, splitFramed_of_unmarked hmark hu hd hbody, hreply,
    splitFramed_of_unmarked hunmarked hu hd hbody⟩

/-- The text of a payload may be a body of its own. -/
theorem wire_identity_nested : ∃ header body reply,
    packHeader "pw".toList "APP01".toList "SVC".toList "20260608".toList = .ok header ∧
    buildBody (-7) "u1".toList "20260608".toList "a|DRv1|2|b".toList = some body ∧
    splitFramed (encode header ++ body) = .ok (body, ⟨-7, "u1".toList, "20260608".toList, "a|DRv1|2|b".toList⟩) ∧
    packHeader "pw".toList "SVC".toList "APP01".toList "20260608".toList = .ok reply ∧
    splitFramed (Responder.replyMsg reply body {}).body =
      .ok (body, ⟨-7, "u1".toList, "20260608".toList, "a|DRv1|2|b".toList⟩) := by
  have hheader : packHeader "pw".toList "APP01".toList "SVC".toList "20260608".toList =
      .ok "pw      APP01   SVC     20260608".toList := by decide
  have hmark : ¬ markerText <:+: "pw      APP01   SVC     20260608".toList := by decide +kernel
  have hseq : (Nat.toDigits 10 (-7 : ℤ).natAbs).length ≤ maxStrDigits := by decide
  obtain ⟨body, reply, hrest⟩ := wire_identity hheader hmark hseq "a|DRv1|2|b".toList
    (by decide : '|' ∉ "u1".toList) (by decide : '|' ∉ "20260608".toList) (by decide) {}
  exact ⟨_, body, reply, hheader, hrest⟩

theorem str_eq_none {n : ℤ} (h : ¬ (Nat.toDigits 10 n.natAbs).length ≤ maxStrDigits) : str n = none := if_neg h

/-- A seq of more digits than Python turns into text has no body. -/
theorem no_body_of_long_seq :
    buildBody (10 ^ maxStrDigits) "u1".toList "20260608".toList "x".toList = none := by
  have hlong : ∀ k, 0 < k → ¬ (Nat.toDigits 10 ((10 : ℤ) ^ k).natAbs).length ≤ k := by
    intro k hk
    rw [Nat.length_toDigits_le_iff (by omega) hk, Int.natAbs_pow]
    exact lt_irrefl _
  have hnone : str (10 ^ maxStrDigits) = none := str_eq_none (hlong maxStrDigits (by decide))
  rw [buildBody, hnone]
  rfl

end Dr
end MqResiliency
