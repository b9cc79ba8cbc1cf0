/-
# What a message does to the responder

One turn of the responder's loop (`turn`), with every MQI call succeeding: any
message is answered with its own body or dead-lettered as it is, in one unit
of work, and the loop goes on (`Serves`).

The parser takes a session date of any length, the header of the reply one of
at most eight characters. A body with a longer date raises out of the loop;
every other message is served (`serves_iff`).
-/
import MqResiliency.Dr.Framing
import MqResiliency.Dr.Grammar

namespace MqResiliency
namespace Dr
namespace Responder

open Py Mq

variable (pack : Dlh → Bytes) (deadq : Bytes) (args : Args)

/-- One turn of the loop of `_serve`. -/
def turn : Client Unit := do
  match ← getRequest args with
  | none => pure ()
  | some req => serveOne pack args req

/-- The loop takes turns until the deadline. -/
theorem wp_serve_succ {env : Env World Cmd Cmd.Ans} {I : World → Prop} (n : ℕ) (Q : Unit → World → Prop)
    (E : Exn → World → Prop) (s : World) : (serve pack args (n + 1)).wp env I Q E s ↔
      keepGoing.wp env I (fun going s => if going then
        (turn pack args).wp env I (fun _ s => (serve pack args n).wp env I Q E s) E s else Q () s) E s := by
  rw [serve, Prog.wp_bind]
  refine forall_congr' fun going => forall_congr' fun s' => forall_congr' fun _ => and_congr_right fun _ => ?_
  cases going
  · rfl
  · simp only [turn, Bool.not_true, Bool.false_eq_true, if_false, if_true, Prog.wp_ret, Prog.wp_bind]
    constructor <;>
    · refine Prog.wp_mono (fun m _ h => ?_) (fun _ _ h => h) _ _
      cases m <;> simpa using h

/-! ### Calls that succeed -/

/-- Every MQI call succeeds, a get with `req`, and the ledger's file is written. -/
def Succeeds (req : Msg) : Env World Cmd Cmd.Ans
  | _, .mqi (.get _ _), .ok m, _ => m = req
  | _, .mqi _, .error _, _ => False
  | _, .writeJsonl, wrote, _ => wrote = true
  | _, _, _, _ => True

def succeedingEnv (req : Msg) : Env World Cmd Cmd.Ans := Prog.restrict (clientEnv deadq) (Succeeds req)

section

variable {deadq} {req : Msg} {I : World → Prop} {E : Exn → World → Prop} {s : World}

/-- What each call that succeeds does, and answers. -/
def outcome (deadq : Bytes) (req : Msg) : (c : Call Str Msg Bytes) → c.Out Bytes × Effect Str Msg
  | .get q _ => (req, .took q req)
  | .put q m => ((), .gave q m)
  | .inquire => (deadq, .nop)
  | .connect => ((), .roll true)
  | .commit => ((), .land true)
  | .backout => ((), .roll true)
  | .disconnect => ((), .land false)
  | .openQ _ => ((), .nop)
  | .closeQ => ((), .nop)

theorem wp_outcome {c : Call Str Msg Bytes} (hsel : ∀ q k, c ≠ .get q (some k)) (husable : s.conn.usable = true)
    (Q : c.Out Bytes → World → Prop) : (mqi c).wp (succeedingEnv deadq req) (fun _ => True) Q E s ↔
      Q (outcome deadq req c).1 (s.act (outcome deadq req c).2) := by
  rw [wp_mqi]
  constructor
  · intro h
    refine ((h _).1 _ ⟨⟨(outcome deadq req c).2, ?_, rfl⟩, ?_⟩).2
    · cases c with
      | get q sel =>
        cases sel with
        | none => exact ⟨husable, by simp, rfl⟩
        | some k => exact absurd rfl (hsel q k)
      | put | openQ | closeQ | commit | backout => exact ⟨husable, rfl⟩
      | inquire => exact ⟨husable, rfl, rfl⟩
      | connect => rfl
      | disconnect => simp [Allowed, husable, outcome]
    · cases c <;> first | rfl | trivial
  · refine fun h s' => ⟨fun v hv => ⟨trivial, ?_⟩, fun r hr => absurd hr.2 (by cases c <;> exact id)⟩
    obtain ⟨⟨e, he, rfl⟩, hok⟩ := hv
    have hsame : v = (outcome deadq req c).1 ∧ e = (outcome deadq req c).2 := by
      cases c with
      | get q sel => exact ⟨hok, hok ▸ he.2.2⟩
      | put | openQ | closeQ | commit | backout => exact ⟨rfl, he.2⟩
      | inquire => exact he.2
      | connect => exact ⟨rfl, he⟩
      | disconnect => simpa [Allowed, husable, outcome] using he
    obtain ⟨rfl, rfl⟩ := hsame
    exact h

/-- The two rows of an answered request. -/
def answered (msg : WireMessage) (t₁ t₂ : Ts) (l : Ledger) : Ledger :=
  (l.append ⟨.received, msg.seq, msg.uuid, t₁⟩).append ⟨.replied, msg.seq, msg.uuid, t₂⟩

theorem wp_append_iff (event : Event) (seq : ℤ) (uuid : Str) (Q : Unit → World → Prop) :
    (append event seq uuid).wp (succeedingEnv deadq req) (fun _ => True) Q E s ↔
      ∀ t, Q () { s with ledger := s.ledger.append ⟨event, seq, uuid, t⟩ } := by
  rw [append, Prog.wp_bind]
  constructor
  · intro h t
    exact ((h t s ⟨rfl, trivial⟩).2 () _ ⟨rfl, trivial⟩).2
  · rintro h t _ ⟨rfl, -⟩
    refine ⟨trivial, ?_⟩
    rintro - _ ⟨rfl, -⟩
    exact ⟨trivial, h t⟩

theorem wp_writeJsonl_iff (Q : Unit → World → Prop) :
    writeJsonl.wp (succeedingEnv deadq req) (fun _ => True) Q E s ↔ Q () s := by
  rw [writeJsonl, Prog.wp_bind]
  constructor
  · intro h
    exact (h true s ⟨rfl, rfl⟩).2
  · rintro h _ _ ⟨rfl, rfl⟩
    exact ⟨trivial, h⟩

theorem wp_record_iff (msg : WireMessage) (Q : Unit → World → Prop) :
    (record msg).wp (succeedingEnv deadq req) (fun _ => True) Q E s ↔
      ∀ t₁ t₂, Q () { s with ledger := answered msg t₁ t₂ s.ledger } := by
  simp only [record, Prog.wp_bind, wp_append_iff]
  refine forall_congr' fun t₁ => forall_congr' fun t₂ => ?_
  constructor
  · intro h
    exact (h false _ ⟨rfl, trivial⟩).2
  · rintro h due _ ⟨rfl, -⟩
    refine ⟨trivial, ?_⟩
    cases due
    · exact h
    · exact (wp_writeJsonl_iff _).mpr h

theorem wp_reply_iff {body : Bytes} {msg : WireMessage} {header : Str} (husable : s.conn.usable = true)
    (hheader : packHeader "pw".toList "SVC".toList "APP01".toList msg.sessionDate = .ok header)
    (Q : Bool → World → Prop) : (reply args req body msg).wp (succeedingEnv deadq req) (fun _ => True) Q E s ↔
      Q true ((s.act (.gave args.outQueue (replyMsg header body req.md))).act (.land true)) := by
  rw [reply, hheader]
  simp only [wp_exceptMqi, Prog.wp_bind]
  rw [wp_outcome (by simp) husable, outcome,
    wp_outcome (c := .commit) (s := s.act (.gave args.outQueue (replyMsg header body req.md))) (by simp) husable]
  rfl

theorem wp_gmtime_iff (Q : Str × Str → World → Prop) :
    (Prog.ask Cmd.gmtime : Client _).wp (succeedingEnv deadq req) (fun _ => True) Q E s ↔ ∀ now, Q now s := by
  constructor
  · intro h now
    exact (h now s ⟨rfl, trivial⟩).2
  · rintro h now _ ⟨rfl, -⟩
    exact ⟨trivial, h now⟩

/-- Where a message that is moved aside ends. -/
def aside (deadq : Bytes) (req : Msg) (now : Str × Str) : Str × Msg :=
  (mqchar deadq, ⟨deadLetterMd req.md,
    pack (deadLetterHeader args req.md feedbackApplFirst "dr-responder" now) ++ req.body⟩)

theorem wp_reject_iff {exc : NotDRv1Error} (husable : s.conn.usable = true) (hdlq : mqchar deadq ≠ [])
    (Q : Bool → World → Prop) : (reject pack args req exc).wp (succeedingEnv deadq req) (fun _ => True) Q E s ↔
      ∀ now, Q true ((s.act (.gave (aside pack args deadq req now).1 (aside pack args deadq req now).2)).act
        (.land true)) := by
  have hstays : ∀ e : Effect Str Msg, e = .nop ∨ (∃ q m, e = .gave q m) → (s.act e).conn.usable = true := by
    rintro e (rfl | ⟨q, m, rfl⟩) <;> exact husable
  have hnop : ∀ t : World, t.act .nop = t := fun _ => rfl
  rw [reject]
  simp only [wp_exceptMqi, Prog.wp_bind, deadLetter]
  rw [wp_outcome (by simp) husable]
  simp only [outcome, hdlq, if_false, Prog.wp_bind, hnop]
  refine (wp_gmtime_iff _).trans (forall_congr' fun now => ?_)
  rw [wp_outcome (by simp) husable]
  simp only [outcome, hnop]
  rw [wp_outcome (by simp) husable]
  simp only [outcome]
  rw [wp_outcome (by simp) (hstays _ (.inr ⟨_, _, rfl⟩))]
  simp only [outcome, hnop]
  rw [wp_outcome (by simp) (hstays _ (.inr ⟨_, _, rfl⟩))]
  rfl

/-! ### One turn -/

theorem wp_turn_iff (husable : s.conn.usable = true) (Q : Unit → World → Prop) :
    (turn pack args).wp (succeedingEnv deadq req) (fun _ => True) Q E s ↔
      (serveOne pack args req).wp (succeedingEnv deadq req) (fun _ => True) Q E (s.act (.took args.inQueue req)) := by
  rw [turn, Prog.wp_bind, getRequest, wp_exceptMqi, Prog.wp_bind, wp_outcome (by simp) husable]
  rfl

theorem wp_serveOne_aside_iff {exc : NotDRv1Error} (hexc : splitFramed req.body = .error exc)
    (husable : s.conn.usable = true) (hdlq : mqchar deadq ≠ []) (Q : Unit → World → Prop) :
    (serveOne pack args req).wp (succeedingEnv deadq req) (fun _ => True) Q E s ↔
      ∀ now, Q () ((s.act (.gave (aside pack args deadq req now).1 (aside pack args deadq req now).2)).act
        (.land true)) := by
  simp only [serveOne, hexc, Prog.wp_bind, wp_reject_iff pack args husable hdlq, Prog.wp_pure]

theorem wp_serveOne_reply_iff {body : Bytes} {msg : WireMessage} {header : Str}
    (hsplit : splitFramed req.body = .ok (body, msg)) (husable : s.conn.usable = true)
    (hheader : packHeader "pw".toList "SVC".toList "APP01".toList msg.sessionDate = .ok header)
    (Q : Unit → World → Prop) :
    (serveOne pack args req).wp (succeedingEnv deadq req) (fun _ => True) Q E s ↔
      ∀ t₁ t₂, Q () { (s.act (.gave args.outQueue (replyMsg header body req.md))).act (.land true) with
        ledger := answered msg t₁ t₂ s.ledger } := by
  simp only [serveOne, hsplit, Prog.wp_bind, wp_reply_iff args husable hheader, if_true, wp_record_iff]
  rfl

theorem wp_serveOne_raises_iff {body : Bytes} {msg : WireMessage} {e : Str}
    (hsplit : splitFramed req.body = .ok (body, msg))
    (hheader : packHeader "pw".toList "SVC".toList "APP01".toList msg.sessionDate = .error e)
    (Q : Unit → World → Prop) :
    (serveOne pack args req).wp (succeedingEnv deadq req) (fun _ => True) Q E s ↔ E (.value e) s := by
  simp only [serveOne, hsplit, Prog.wp_bind, reply, hheader, Prog.wp_throw]

end

/-! ### Every message -/

/-- Answered with a reply that says what `req` says, or moved aside as it is. -/
inductive Handled (req : Msg) : Str × Msg → Prop
  | reply {header : Str} {body : Bytes} {msg : WireMessage} : splitFramed req.body = .ok (body, msg) →
      splitFramed (replyMsg header body req.md).body = .ok (body, msg) →
      Handled req (args.outQueue, replyMsg header body req.md)
  | aside {exc : NotDRv1Error} (now : Str × Str) : splitFramed req.body = .error exc →
      Handled req (aside pack args deadq req now)

/-- Between two turns: connected, and nothing in the unit of work. -/
def Idle (s : World) : Prop := s.conn.usable = true ∧ s.conn.uow = .empty

/-- A turn that gets `req` ends, and however it goes, `req` is handled in one
unit of work, nothing is raised, and the loop is where the turn began. -/
def Serves (req : Msg) : Prop :=
  ∀ s, Idle s →
    (∃ y, Prog.Reach (succeedingEnv deadq req) (turn pack args, s) (.ret (), y)) ∧
      (turn pack args).wp (succeedingEnv deadq req) (fun _ => True)
        (fun _ s' => Idle s' ∧ ∃ p, Handled pack deadq args req p ∧
          s'.conn.log = s.conn.log ++ [⟨[(args.inQueue, req)], [p]⟩])
        (fun _ _ => False) s

/-- The body that was found is found again behind the header of the reply. -/
theorem reply_reads_back {raw body : Bytes} {msg : WireMessage} (hsplit : splitFramed raw = .ok (body, msg))
    (hlen : msg.sessionDate.length ≤ headerField) :
    ∃ header, packHeader "pw".toList "SVC".toList "APP01".toList msg.sessionDate = .ok header ∧
      splitFramed (encode header ++ body) = .ok (body, msg) := by
  rw [splitFramed] at hsplit
  cases hfind : find marker raw with
  | none => simp [hfind] at hsplit
  | some idx =>
    cases hparse : parseBody (raw.drop idx) with
    | error e =>
      simp only [hfind, hparse] at hsplit
      cases hsplit
    | ok m =>
      simp only [hfind, hparse] at hsplit
      cases hsplit
      obtain ⟨-, -, -, -, hd, -⟩ := parseBody_eq_ok_iff.mp hparse
      obtain ⟨header, hheader, hmark⟩ := replyHeader_unmarked hd hlen
      obtain ⟨r, hr⟩ := drop_of_find hfind
      refine ⟨header, hheader, ?_⟩
      have hfind' : find marker (encode header ++ raw.drop idx) = some (encode header).length := by
        rw [hr]
        exact find_append_of_not marker r _ fun l₁ l₂ hl hne => not_marker_prefix hmark hl hne
      simp only [splitFramed, hfind', List.drop_left, hparse]
      rfl

theorem packHeader_of_long {password sender receiver sessionDate : Str} (hd : headerField < sessionDate.length) :
    ∃ e, packHeader password sender receiver sessionDate = .error e := by
  have hlong : checkField "session_date" sessionDate = .error _ := if_pos hd
  rw [packHeader, hlong]
  cases checkField "password" password <;> cases checkField "sender" sender <;>
    cases checkField "receiver" receiver <;> exact ⟨_, rfl⟩

/-- **Which messages the responder serves**: those without a session date that
its header has no room for. -/
theorem serves_iff (hdlq : mqchar deadq ≠ []) (req : Msg) : Serves pack deadq args req ↔
    ∀ body msg, splitFramed req.body = .ok (body, msg) → msg.sessionDate.length ≤ headerField := by
  constructor
  · intro h body msg hsplit
    by_contra hlong
    obtain ⟨e, he⟩ : ∃ e, packHeader "pw".toList "SVC".toList "APP01".toList msg.sessionDate = .error e :=
      packHeader_of_long (Nat.lt_of_not_le hlong)
    have hturn := (h ⟨⟨true, .empty, []⟩, ⟨[]⟩, []⟩ ⟨rfl, rfl⟩).2
    rw [wp_turn_iff pack args rfl, wp_serveOne_raises_iff pack args hsplit he] at hturn
    exact hturn
  · rintro h s ⟨husable, huow⟩
    have htook : (s.act (.took args.inQueue req)).conn.usable = true := husable
    have hgot : s.conn.uow.got ++ [(args.inQueue, req)] = [(args.inQueue, req)] := by rw [huow]; rfl
    have hput : ∀ p, s.conn.uow.put ++ [p] = [p] := fun p => by rw [huow]; rfl
    cases hsplit : splitFramed req.body with
    | error exc =>
      have hiff : ∀ E Q, (turn pack args).wp (succeedingEnv deadq req) (fun _ => True) Q E s ↔ _ := fun E Q =>
        (wp_turn_iff pack args husable Q).trans (wp_serveOne_aside_iff pack args hsplit htook hdlq Q)
      constructor
      · obtain ⟨⟨⟩, hy⟩ := Prog.reach_ret_of_not_wp _ (mt (hiff _ _).mp fun hno => hno ([], []))
        exact hy
      · refine (hiff _ _).mpr fun now => ⟨⟨rfl, rfl⟩, _, .aside now hsplit, ?_⟩
        show s.conn.log ++ [⟨s.conn.uow.got ++ _, s.conn.uow.put ++ _⟩] = _
        rw [hgot, hput]
    | ok found =>
      obtain ⟨body, msg⟩ := found
      obtain ⟨header, hheader, hback⟩ := reply_reads_back hsplit (h body msg hsplit)
      have hiff : ∀ E Q, (turn pack args).wp (succeedingEnv deadq req) (fun _ => True) Q E s ↔ _ := fun E Q =>
        (wp_turn_iff pack args husable Q).trans (wp_serveOne_reply_iff pack args hsplit htook hheader Q)
      constructor
      · obtain ⟨⟨⟩, hy⟩ := Prog.reach_ret_of_not_wp _ (mt (hiff _ _).mp fun hno => hno .nan .nan)
        exact hy
      · refine (hiff _ _).mpr fun t₁ t₂ => ⟨⟨rfl, rfl⟩, _, .reply hsplit hback, ?_⟩
        show s.conn.log ++ [⟨s.conn.uow.got ++ _, s.conn.uow.put ++ _⟩] = _
        rw [hgot, hput]

/-- A message of another application is served. -/
theorem serves_foreign_message : mqchar (encode "SYSTEM.DEAD.LETTER.QUEUE".toList) ≠ [] ∧
    Serves (fun _ => []) (encode "SYSTEM.DEAD.LETTER.QUEUE".toList) ⟨"QM".toList, "IN".toList, "OUT".toList⟩
      ⟨{}, encode "hello".toList⟩ := by
  have hdlq : mqchar (encode "SYSTEM.DEAD.LETTER.QUEUE".toList) ≠ [] := by decide +kernel
  refine ⟨hdlq, (serves_iff (fun _ => []) _ ⟨"QM".toList, "IN".toList, "OUT".toList⟩ hdlq _).mpr ?_⟩
  intro body msg hsplit
  have hforeign : find marker (encode "hello".toList) = none := by decide
  rw [splitFramed, hforeign] at hsplit
  cases hsplit

/-- A date of nine characters is parsed, and raises. -/
theorem long_date_stops_responder : (splitFramed (encode "DRv1|1|u|123456789|p".toList)).isOk ∧
    ¬ Serves (fun _ => []) (encode "SYSTEM.DEAD.LETTER.QUEUE".toList) ⟨"QM".toList, "IN".toList, "OUT".toList⟩
      ⟨{}, encode "DRv1|1|u|123456789|p".toList⟩ := by
  have hsplit : splitFramed (encode "DRv1|1|u|123456789|p".toList) =
      .ok (encode "DRv1|1|u|123456789|p".toList, ⟨1, ['u'], "123456789".toList, ['p']⟩) := by
    have hbuilt : buildBody 1 ['u'] "123456789".toList ['p'] = some (encode "DRv1|1|u|123456789|p".toList) := by
      decide +kernel
    exact @splitFramed_of_unmarked [] (by decide) _ _ _ _ _ (by decide) (by decide) hbuilt
  obtain ⟨e, he⟩ : ∃ e, packHeader "pw".toList "SVC".toList "APP01".toList "123456789".toList = .error e :=
    packHeader_of_long (by decide)
  refine ⟨by rw [hsplit]; rfl, fun h => ?_⟩
  have hturn := (h ⟨⟨true, .empty, []⟩, ⟨[]⟩, []⟩ ⟨rfl, rfl⟩).2
  rw [wp_turn_iff _ _ rfl, wp_serveOne_raises_iff _ _ hsplit he] at hturn
  exact hturn

end Responder
end Dr
end MqResiliency
