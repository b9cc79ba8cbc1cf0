/-
# The live candidate is found

The candidates are asked in order, and the i-th comes to `gots i`. What
`resolve_live` is for (`Follows`): it returns the first candidate that is
running, unless one before refuses the login, and raises `ProbeError` and
nothing else where there is none.

It does so if and only if no candidate that it asks comes to an exception that
is let through (`Uncaught`): one that is no `OSError`, or a body so deep that
`json.loads` raises `RecursionError` (`follows_iff`).
-/
import MqResiliency.Lab.WebProbe

namespace MqResiliency
namespace Lab
namespace WebProbe

open Py Prog

/-! ### What a candidate comes to -/

section
variable {F : Type} (py : Runtime F) (qm : Str)

/-- Its first record of the queue manager has the state `running`. -/
def Running (got : Got) : Prop := ∃ body recs rec, got = .body body ∧ records py body = .ok (some recs) ∧
  recs.find? (isNamed qm) = some rec ∧ rec.get? "state".toList = some (.str "running".toList)

/-- It refuses the login. -/
def Refused (got : Got) : Prop := got = .httpError 401 ∨ got = .httpError 403

/-- It comes to an exception that is let through. -/
def Uncaught (got : Got) : Prop := (∃ text, got = .other text) ∨ ∃ body, got = .body body ∧ jsonLoads py body = .recursionError

/-- What is asked, and what it comes to, is what following the active is. -/
structure Follows (urls : List Str) (gots : ℕ → Got) (asked : List Cmd) (r : Except Raised Str) : Prop where
  live : ∀ i url, urls[i]? = some url → Running py qm (gots i) →
    (∀ j < i, ¬ Running py qm (gots j) ∧ ¬ Refused (gots j)) →
      r = .ok url ∧ asked = (urls.take (i + 1)).map fun url => .get (listQueryUrl url)
  refused : ∀ i < urls.length, Refused (gots i) → (∀ j < i, ¬ Running py qm (gots j)) → ∃ message, r = .error (.probe message)
  none : (∀ i < urls.length, ¬ Running py qm (gots i) ∧ ¬ Refused (gots i)) →
    ∃ message, r = .error (.probe message) ∧ ∀ url ∈ urls, url <:+: message
  only : ∀ e, r = .error e → ∃ message, e = .probe message

end

/-- The i-th request comes to `gots i`. -/
def fed (gots : ℕ → Got) : Oracle Cmd Ans := fun h _ => gots h.length

/-- All requests of a run. -/
def asked (h : History Cmd Ans) : List Cmd := h.map Sigma.fst

section
variable {F : Type} {py : Runtime F} {qm : Str}

/-- What one request makes of a candidate. -/
inductive Came (py : Runtime F) (qm : Str) (got : Got) : Except Raised Answer → Prop
  | live (answer : Answer) (h : classify answer.state = .live) (running : Running py qm got) : Came py qm got (.ok answer)
  | skipped (answer : Answer) (h : classify answer.state ≠ .live) (running : ¬ Running py qm got) (refused : ¬ Refused got)
    (caught : ¬ Uncaught py got) : Came py qm got (.ok answer)
  | refused (message : Str) (refused : Refused got) : Came py qm got (.error (.probe message))
  | uncaught (text : Str) (h : Uncaught py got) : Came py qm got (.error (.other text))

theorem classify_eq_live {state : Option Str} : classify state = .live ↔ state = some "running".toList := by
  cases state with
  | none => simp [classify]
  | some state => by_cases h : state ∈ liveStates <;> by_cases h' : state ∈ memberStates <;> simp_all [classify, liveStates]

/-- A body is no refusal, and is let through only if `json.loads` does. -/
theorem not_refused_body (body : Bytes) : ¬ Refused (.body body) := by
  rintro (h | h) <;> cases h

theorem uncaught_body {body : Bytes} (h : Uncaught py (.body body)) : records py body = .error (.other "RecursionError".toList) := by
  obtain ⟨_, heq⟩ | ⟨body', heq, hdeep⟩ := h
  · cases heq
  · obtain rfl : body = body' := Got.body.inj heq
    rw [records, hdeep]

/-- A list of records that was read. -/
theorem came_records {body : Bytes} {recs : List (Dict Str (Json F))} (h : records py body = .ok (some recs)) :
    Came py qm (.body body) (.ok (answerOf py qm recs)) := by
  have hstate : classify (answerOf py qm recs).state = .live ↔ Running py qm (.body body) := by
    rw [classify_eq_live, answerOf]
    constructor
    · intro hlive
      cases hfind : recs.find? (isNamed qm) with
      | none =>
        rw [hfind] at hlive
        cases hlive
      | some rec =>
        rw [hfind] at hlive
        refine ⟨body, recs, rec, rfl, h, hfind, ?_⟩
        dsimp only at hlive
        split at hlive
        · rename_i state hget
          rw [hget, Option.some.inj hlive]
        · cases hlive
    · rintro ⟨body', recs', rec, heq, hrecs, hfind, hget⟩
      obtain rfl : body = body' := Got.body.inj heq
      obtain rfl : recs = recs' := Option.some.inj (Except.ok.inj (h.symm.trans hrecs))
      simp only [hfind, hget]
  by_cases hlive : classify (answerOf py qm recs).state = .live
  · exact .live _ hlive (hstate.mp hlive)
  · refine .skipped _ hlive (fun hr => hlive (hstate.mpr hr)) (not_refused_body body) fun hu => ?_
    rw [uncaught_body hu] at h
    cases h

/-- A request that comes to no records. -/
theorem came_nothing {got : Got} (hbody : ∀ body, got = .body body → records py body = .ok none) (hrefused : ¬ Refused got)
    (hother : ∀ text, got ≠ .other text) (detail : Str) : Came py qm got (.ok ⟨none, detail⟩) := by
  refine .skipped _ (by simp [classify]) ?_ hrefused ?_
  · rintro ⟨body, recs, rec, rfl, hrecs, -⟩
    rw [hbody body rfl] at hrecs
    cases hrecs
  · rintro (⟨text, heq⟩ | ⟨body, rfl, hdeep⟩)
    · exact hother text heq
    · have hrecs := hbody body rfl
      rw [records, hdeep] at hrecs
      cases hrecs

/-- **One candidate**: it is asked once, and this is what it comes to. -/
theorem run_qmState (user url : Str) (o : Oracle Cmd Ans) (h : History Cmd Ans) : ∃ r,
    (qmState py user url qm).run o h = (h ++ [⟨.get (listQueryUrl url), o h (.get (listQueryUrl url))⟩], some r) ∧
      Came py qm (o h (.get (listQueryUrl url))) r := by
  rw [qmState, run_bind, run_ask]
  generalize o h (.get (listQueryUrl url)) = got
  cases got with
  | httpError code =>
    by_cases hcode : code ∈ authFailures
    · refine ⟨_, by simp only [hcode, if_true, run_throw]; rfl, .refused _ ?_⟩
      simpa [authFailures, Refused] using hcode
    · refine ⟨_, by simp only [hcode, if_false, run_pure]; rfl, came_nothing (fun _ heq => by cases heq) ?_ (by simp) _⟩
      simpa [authFailures, Refused] using hcode
  | osError reason =>
    exact ⟨_, rfl, came_nothing (fun _ heq => by cases heq) (by simp [Refused]) (by simp) _⟩
  | other text => exact ⟨_, rfl, .uncaught text (.inl ⟨text, rfl⟩)⟩
  | body body =>
    cases hrecs : records py body with
    | error e =>
      have hdeep : jsonLoads py body = .recursionError ∧ e = .other "RecursionError".toList := by
        rw [records] at hrecs
        split at hrecs
        · cases hrecs
        · cases hrecs
        · rename_i hdeep
          exact ⟨hdeep, (Except.error.inj hrecs).symm⟩
      obtain ⟨hdeep, rfl⟩ := hdeep
      exact ⟨_, by simp only [hrecs, run_throw]; rfl, .uncaught _ (.inr ⟨body, rfl, hdeep⟩)⟩
    | ok recs =>
      cases recs with
      | none =>
        refine ⟨_, by simp only [hrecs, run_pure]; rfl, came_nothing ?_ (not_refused_body body) (by simp) _⟩
        intro body' heq
        rwa [← Got.body.inj heq]
      | some recs => exact ⟨_, by simp only [hrecs, run_pure], came_records hrecs⟩

/-! ### The candidates in order -/

/-- Nothing that stops the search. -/
def Skipped (py : Runtime F) (qm : Str) (got : Got) : Prop := ¬ Running py qm got ∧ ¬ Refused got ∧ ¬ Uncaught py got

/-- What a candidate stops it with. -/
inductive Stopped (py : Runtime F) (qm : Str) (got : Got) (url : Str) : Except Raised Str → Prop
  | live (h : Running py qm got) : Stopped py qm got url (.ok url)
  | refused (message : Str) (h : Refused got) : Stopped py qm got url (.error (.probe message))
  | uncaught (text : Str) (h : Uncaught py got) : Stopped py qm got url (.error (.other text))

/-- What the search comes to: all candidates are skipped, or one stops it. -/
inductive Walked (py : Runtime F) (qm : Str) (gots : ℕ → Got) (seen urls : List Str) : List Cmd → Except Raised Str → Prop
  | none (entries : List Str) (skipped : ∀ i < urls.length, Skipped py qm (gots i))
    (named : List.Forall₂ (fun url e => url <+: e) urls entries) :
    Walked py qm gots seen urls (urls.map fun url => .get (listQueryUrl url)) (.error (.probe (noneRunning qm (seen ++ entries))))
  | stopped (i : ℕ) (url : Str) (r : Except Raised Str) (there : urls[i]? = some url)
    (skipped : ∀ j < i, Skipped py qm (gots j)) (h : Stopped py qm (gots i) url r) :
    Walked py qm gots seen urls ((urls.take (i + 1)).map fun url => .get (listQueryUrl url)) r

/-- A candidate that is skipped, and the others. -/
theorem Walked.cons {gots : ℕ → Got} {seen urls : List Str} {cs : List Cmd} {r : Except Raised Str} {url : Str}
    {answer : Answer} (h0 : Skipped py qm (gots 0))
    (h : Walked py qm (fun i => gots (i + 1)) (seen ++ [entry url answer]) urls cs r) :
    Walked py qm gots seen (url :: urls) (.get (listQueryUrl url) :: cs) r := by
  have hskipped : ∀ {n : ℕ}, (∀ j < n, Skipped py qm (gots (j + 1))) → ∀ j < n + 1, Skipped py qm (gots j) := by
    intro n hn j hj
    cases j with
    | zero => exact h0
    | succ j => exact hn j (Nat.lt_of_succ_lt_succ hj)
  cases h with
  | none entries skipped named =>
    rw [List.append_assoc]
    refine .none (entry url answer :: entries) (hskipped skipped) (.cons ?_ named)
    simp only [entry, List.append_assoc]
    exact List.prefix_append url _
  | stopped i url' r there skipped h => exact .stopped (i + 1) url' r there (hskipped skipped) h

theorem run_resolveFrom (user : Str) (gots : ℕ → Got) : ∀ (urls seen : List Str) (h : History Cmd Ans), ∃ h' r,
    (resolveFrom (fun url qm => qmState py user url qm) qm seen urls).run (fed gots) h = (h', some r) ∧
      ∃ cs, asked h' = asked h ++ cs ∧ Walked py qm (fun i => gots (h.length + i)) seen urls cs r
  | [], seen, h => by
    refine ⟨h, _, rfl, [], (List.append_nil _).symm, ?_⟩
    have hnone : Walked py qm (fun i => gots (h.length + i)) seen [] ([].map fun url => .get (listQueryUrl url))
        (.error (.probe (noneRunning qm (seen ++ [])))) := .none [] (by simp) .nil
    simpa using hnone
  | url :: urls, seen, h => by
    obtain ⟨r, hrun, hcame⟩ := @run_qmState _ py qm user url (fed gots) h
    rw [resolveFrom, run_bind, hrun]
    have hasked : asked (h ++ [⟨.get (listQueryUrl url), gots h.length⟩]) = asked h ++ [.get (listQueryUrl url)] := by
      simp [asked]
    have hstop : ∀ {r : Except Raised Str}, Stopped py qm (gots h.length) url r →
        Walked py qm (fun i => gots (h.length + i)) seen (url :: urls) [.get (listQueryUrl url)] r := fun hr =>
      .stopped 0 url _ rfl (by simp) hr
    cases hcame with
    | live answer hlive hrunning =>
      simp only [hlive, if_true, run_pure]
      exact ⟨_, _, rfl, _, hasked, hstop (.live hrunning)⟩
    | skipped answer hlive hrunning hrefused hcaught =>
      simp only [hlive, if_false]
      obtain ⟨h', r, hrest, cs, hcs, hwalked⟩ := run_resolveFrom user gots urls (seen ++ [entry url answer])
        (h ++ [⟨.get (listQueryUrl url), gots h.length⟩])
      have hothers : Walked py qm (fun i => gots (h.length + (i + 1))) (seen ++ [entry url answer]) urls cs r := by
        simpa [Nat.add_assoc, Nat.add_comm 1] using hwalked
      refine ⟨h', r, hrest, .get (listQueryUrl url) :: cs, ?_, .cons ⟨hrunning, hrefused, hcaught⟩ hothers⟩
      simp [hcs, hasked]
    | refused message hrefused => exact ⟨_, _, rfl, _, hasked, hstop (.refused message hrefused)⟩
    | uncaught text huncaught => exact ⟨_, _, rfl, _, hasked, hstop (.uncaught text huncaught)⟩

/-! ### Main result -/

theorem infix_intercalate (sep : Str) {x : Str} : ∀ {l : List Str}, x ∈ l → x <:+: sep.intercalate l
  | [y], hx => by
    obtain rfl : x = y := List.mem_singleton.mp hx
    exact ⟨[], [], by simp⟩
  | y :: z :: l, hx => by
    rw [List.intercalate_cons_cons]
    rcases List.mem_cons.mp hx with rfl | hx
    · rw [List.append_assoc]
      exact List.infix_append' [] _ _
    · exact (infix_intercalate sep hx).trans (List.suffix_append _ _).isInfix

/-- The message names every candidate. -/
theorem infix_noneRunning {urls entries : List Str} (h : List.Forall₂ (fun url e => url <+: e) urls entries) {url : Str}
    (hurl : url ∈ urls) : url <:+: noneRunning qm entries := by
  obtain ⟨i, hi, rfl⟩ := List.getElem_of_mem hurl
  have hlen : i < entries.length := h.length_eq ▸ hi
  have hentry : urls[i] <:+: entries[i] := (h.get hi hlen).isInfix
  refine (hentry.trans (infix_intercalate ", ".toList (List.getElem_mem hlen))).trans ?_
  unfold noneRunning
  exact List.infix_append _ _ _

theorem Running.not_refused {got : Got} (h : Running py qm got) : ¬ Refused got := by
  obtain ⟨body, _, _, rfl, -⟩ := h
  exact not_refused_body body

theorem Running.not_uncaught {got : Got} (h : Running py qm got) : ¬ Uncaught py got := by
  obtain ⟨body, recs, _, rfl, hrecs, -⟩ := h
  intro hu
  rw [uncaught_body hu] at hrecs
  cases hrecs

theorem Refused.not_uncaught {got : Got} (h : Refused got) : ¬ Uncaught py got := by
  rintro (⟨text, rfl⟩ | ⟨body, rfl, -⟩)
  · obtain h | h := h <;> cases h
  · exact not_refused_body body h

/-- What a search is that came to this. -/
theorem Walked.found {gots : ℕ → Got} {urls : List Str} {cs : List Cmd} {r : Except Raised Str}
    (h : Walked py qm gots [] urls cs r) :
    Follows py qm urls gots cs r ↔ ∀ i < urls.length, Uncaught py (gots i) → ∃ j < i, Running py qm (gots j) ∨ Refused (gots j) := by
  cases h with
  | none entries skipped named =>
    refine iff_of_true ⟨?_, ?_, ?_, ?_⟩ fun i hi hu => absurd hu (skipped i hi).2.2
    · intro i url hurl hrunning _
      exact absurd hrunning (skipped i (List.getElem?_eq_some_iff.mp hurl).1).1
    · intro i hi hrefused _
      exact absurd hrefused (skipped i hi).2.1
    · exact fun _ => ⟨_, rfl, fun url hurl => infix_noneRunning named hurl⟩
    · exact fun e he => ⟨_, (Except.error.inj he).symm⟩
  | stopped i url r there skipped h =>
    have hi : i < urls.length := (List.getElem?_eq_some_iff.mp there).1
    cases h with
    | live hrunning =>
      refine iff_of_true ⟨?_, ?_, ?_, ?_⟩ ?_
      · intro i' url' hurl hrunning' hbefore
        obtain hlt | rfl | hgt := lt_trichotomy i' i
        · exact absurd hrunning' (skipped i' hlt).1
        · obtain rfl : url = url' := Option.some.inj (there.symm.trans hurl)
          exact ⟨rfl, rfl⟩
        · exact absurd hrunning (hbefore i hgt).1
      · intro i' _ hrefused hbefore
        obtain hlt | rfl | hgt := lt_trichotomy i' i
        · exact absurd hrefused (skipped i' hlt).2.1
        · exact absurd hrefused hrunning.not_refused
        · exact absurd hrunning (hbefore i hgt)
      · exact fun hnone => absurd hrunning (hnone i hi).1
      · exact fun e he => by cases he
      · intro i' _ hu
        obtain hlt | rfl | hgt := lt_trichotomy i' i
        · exact absurd hu (skipped i' hlt).2.2
        · exact absurd hu hrunning.not_uncaught
        · exact ⟨i, hgt, .inl hrunning⟩
    | refused message hrefused =>
      refine iff_of_true ⟨?_, ?_, ?_, ?_⟩ ?_
      · intro i' url' _ hrunning' hbefore
        obtain hlt | rfl | hgt := lt_trichotomy i' i
        · exact absurd hrunning' (skipped i' hlt).1
        · exact absurd hrefused hrunning'.not_refused
        · exact absurd hrefused (hbefore i hgt).2
      · exact fun _ _ _ _ => ⟨message, rfl⟩
      · exact fun hnone => absurd hrefused (hnone i hi).2
      · exact fun e he => ⟨message, (Except.error.inj he).symm⟩
      · intro i' _ hu
        obtain hlt | rfl | hgt := lt_trichotomy i' i
        · exact absurd hu (skipped i' hlt).2.2
        · exact absurd hu hrefused.not_uncaught
        · exact ⟨i, hgt, .inr hrefused⟩
    | uncaught text hu =>
      refine iff_of_false (fun hf => ?_) fun hcond => ?_
      · obtain ⟨message, heq⟩ := hf.only _ rfl
        cases heq
      · obtain ⟨j, hj, hrunning | hrefused⟩ := hcond i hi hu
        · exact (skipped j hj).1 hrunning
        · exact (skipped j hj).2.1 hrefused

/-- **When the live candidate is found.** Whatever the candidates come to, the
search ends, and follows the active if and only if no candidate comes to an
exception that is let through before one is running or refuses the login. -/
theorem follows_iff (py : Runtime F) (qm user : Str) (urls : List Str) (gots : ℕ → Got) : ∃ r,
    ((resolveLive urls qm fun url qm => qmState py user url qm).run (fed gots) []).2 = some r ∧
      (Follows py qm urls gots (asked ((resolveLive urls qm fun url qm => qmState py user url qm).run (fed gots) []).1) r ↔
        ∀ i < urls.length, Uncaught py (gots i) → ∃ j < i, Running py qm (gots j) ∨ Refused (gots j)) := by
  obtain ⟨h', r, hrun, cs, hcs, hwalked⟩ := @run_resolveFrom _ py qm user gots urls [] []
  unfold resolveLive
  rw [hrun, hcs]
  simp only [List.length_nil, Nat.zero_add] at hwalked
  exact ⟨r, rfl, hwalked.found⟩

end

/-- Python, for answers without floats. -/
def plainRuntime : Runtime Unit := ⟨decode, ⟨fun _ => (), (), (), ()⟩, 1000, fun _ => []⟩

def runningText : Str := "\x7b\"qmgr\": [\x7b\"name\": \"QM1\", \"state\": \"running\"\x7d]\x7d".toList

def qm1Record : Dict Str (Json Unit) := Dict.ofList [("name".toList, .str "QM1".toList), ("state".toList, .str "running".toList)]

/-- Two candidates: of the first the answer breaks off, which `http.client`
raises `IncompleteRead` for; the second is running. -/
def brokenOff : ℕ → Got
  | 0 => .other "IncompleteRead(10 bytes read, 54 more expected)".toList
  | _ => .body (encode runningText)

def twoUrls : List Str := ["https://10.0.1.11:9443".toList, "https://10.0.1.12:9443".toList]

set_option maxRecDepth 2000 in
theorem running_brokenOff : Running plainRuntime "QM1".toList (brokenOff 1) := by
  have hdecode : plainRuntime.decode (encode runningText) = some runningText := decode_encode runningText
  refine ⟨_, [qm1Record], qm1Record, rfl, ?_, rfl, rfl⟩
  rw [records, jsonLoads, hdecode]
  rfl

/-- The live candidate is not asked: the search ends with `IncompleteRead`. -/
theorem broken_answer_ends_search : Running plainRuntime "QM1".toList (brokenOff 1) ∧ ¬ ∃ r,
    ((resolveLive twoUrls "QM1".toList fun url qm => qmState plainRuntime probeUser url qm).run (fed brokenOff) []).2 = some r ∧
      Follows plainRuntime "QM1".toList twoUrls brokenOff
        (asked ((resolveLive twoUrls "QM1".toList fun url qm => qmState plainRuntime probeUser url qm).run (fed brokenOff) []).1) r := by
  refine ⟨running_brokenOff, ?_⟩
  rintro ⟨r, hr, hf⟩
  obtain rfl := Option.some.inj hr
  obtain ⟨message, heq⟩ := hf.only _ rfl
  cases heq

end WebProbe
end Lab
end MqResiliency
