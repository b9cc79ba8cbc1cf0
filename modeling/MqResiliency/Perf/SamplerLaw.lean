/-
# The notes account for every outage

The failures of one probe come in runs, each ended by a success or by the stop.
A run has its notes together: what was unavailable, without a message twice in a
row, and one closing note with the length of the run. The source's own queue of
messages is no probe: each time it fails there is one note, and no other
(`accounted`).
-/
import Mathlib.Data.List.Destutter
import Mathlib.Data.List.Forall2
import MqResiliency.Perf.Sampler

namespace MqResiliency
namespace Perf

open Py

/-! ### Runs of failures -/

/-- The failures so far: the runs that are over, and the one that is not. -/
structure Course : Type where
  past : List (List Str)
  now : List Str

/-- One more outcome: a success, or the message of a failure. -/
def Course.add (c : Course) : Option Str → Course
  | some m => { c with now := c.now ++ [m] }
  | none => if c.now = [] then c else ⟨c.past ++ [c.now], []⟩

def course (h : List (Option Str)) : Course := h.foldl Course.add ⟨[], []⟩

/-- A maximal run of failures, and whether a success followed. -/
structure Run : Type where
  errors : List Str
  recovered : Bool
deriving DecidableEq

def Course.runs (c : Course) : List Run :=
  c.past.map (⟨·, true⟩) ++ if c.now = [] then [] else [⟨c.now, false⟩]

/-- The maximal runs of failures in a history. -/
def runs (h : List (Option Str)) : List Run := (course h).runs

/-- The messages, without one twice in a row. -/
def changes (errors : List Str) : List Str := errors.destutter (· ≠ ·)

theorem destutter'_concat (m : Str) : ∀ (errors : List Str) (a : Str), List.destutter' (· ≠ ·) a (errors ++ [m]) =
    if (a :: errors).getLast? = some m then List.destutter' (· ≠ ·) a errors
    else List.destutter' (· ≠ ·) a errors ++ [m]
  | [], a => by
    rw [List.nil_append, List.destutter'_singleton, List.destutter'_nil]
    by_cases h : a = m
    · simp [h]
    · simp [h]
  | b :: errors, a => by
    have ih := destutter'_concat m errors
    have hlast : (a :: b :: errors).getLast? = (b :: errors).getLast? := List.getLast?_cons_cons
    rw [List.cons_append, hlast]
    by_cases hab : a ≠ b
    · rw [List.destutter'_cons_pos _ hab, List.destutter'_cons_pos _ hab, ih b]
      split <;> rfl
    · obtain rfl : a = b := not_not.mp hab
      rw [List.destutter'_cons_neg _ hab, List.destutter'_cons_neg _ hab, ih a]

theorem changes_concat (errors : List Str) (m : Str) : changes (errors ++ [m]) =
    if errors.getLast? = some m then changes errors else changes errors ++ [m] := by
  cases errors with
  | nil => simp [changes]
  | cons a errors => exact destutter'_concat m errors a

theorem changes_eq_nil {errors : List Str} : changes errors = [] ↔ errors = [] := List.destutter_eq_nil _

theorem changes_of_all {errors : List Str} {m : Str} (hne : errors ≠ []) (h : ∀ e ∈ errors, e = m) :
    changes errors = [m] := by
  induction errors using List.reverseRecOn with
  | nil => exact absurd rfl hne
  | append_singleton errors e ih =>
    obtain rfl : e = m := h e (by simp)
    rw [changes_concat]
    rcases List.eq_nil_or_concat errors with rfl | ⟨init, e', heq⟩
    · rfl
    · have hlast : errors.getLast? = some e := by
        rw [heq, List.concat_eq_append, List.getLast?_concat, h e' (by simp [heq])]
      rw [if_pos hlast]
      exact ih (by simp [heq]) fun e' he' => h e' (by simp [he'])

/-! ### The notes of one key -/

def Note.About (key : Str) (n : Note) : Prop := n.key? = some key

instance (key : Str) (n : Note) : Decidable (n.About key) := inferInstanceAs (Decidable (_ = _))

def unavailables (key : Str) (errors : List Str) : List Note := (changes errors).map (.unavailable key)

def Run.closing (key : Str) (r : Run) : Note :=
  if r.recovered then .recovered key r.errors.length else .atStop key r.errors.length

def Run.notes (key : Str) (r : Run) : List Note := unavailables key r.errors ++ [r.closing key]

/-- What the sampler keeps of a key, and has noted of it, after this course. -/
structure Tracks (s : Sampler) (key : Str) (c : Course) : Prop where
  failCount : s.failCount.get? key = if c.now = [] then none else some c.now.length
  lastError : s.lastError.get? key = c.now.getLast?
  notes : s.notes.filter (·.About key) =
    c.past.flatMap (fun errors => Run.notes key ⟨errors, true⟩) ++ unavailables key c.now

theorem filter_note (s : Sampler) (n : Note) (key : Str) : (s.note n).notes.filter (·.About key) =
    s.notes.filter (·.About key) ++ if n.About key then [n] else [] := by
  unfold Sampler.note
  rw [List.filter_append]
  by_cases h : n.About key
  · simp [h]
  · simp [h]

theorem unavailables_concat (key : Str) (errors : List Str) (m : Str) : unavailables key (errors ++ [m]) =
    unavailables key errors ++ if errors.getLast? = some m then [] else [.unavailable key m] := by
  unfold unavailables
  rw [changes_concat]
  split
  · simp
  · simp

section
variable {s : Sampler} {key : Str} {c : Course}

/-- A failure. -/
theorem Tracks.failed (h : Tracks s key c) (m : Str) : Tracks (s.failed key m) key (c.add (some m)) := by
  have hcount : (s.failCount.get? key).getD 0 + 1 = (c.now ++ [m]).length := by
    rw [h.failCount, List.length_append]
    split
    · rename_i hnow
      simp [hnow]
    · rfl
  have hnew : c.now ++ [m] ≠ [] := by simp
  unfold Sampler.failed
  dsimp only
  split
  · -- another message than the last
    rename_i hmsg
    rw [h.lastError] at hmsg
    refine ⟨?_, ?_, ?_⟩
    · rw [Sampler.note, Dict.get?_set, if_pos rfl, Course.add, if_neg hnew, hcount]
    · rw [Sampler.note, Dict.get?_set, if_pos rfl, Course.add, List.getLast?_concat]
    · have hkey : (Note.unavailable key m).About key := rfl
      rw [filter_note, if_pos hkey, Course.add, unavailables_concat, if_neg hmsg, ← List.append_assoc, ← h.notes]
  · rename_i hmsg
    rw [not_not, h.lastError] at hmsg
    refine ⟨?_, ?_, ?_⟩
    · rw [Dict.get?_set, if_pos rfl, Course.add, if_neg hnew, hcount]
    · rw [h.lastError, Course.add, List.getLast?_concat, hmsg]
    · rw [h.notes, Course.add, unavailables_concat, if_pos hmsg, List.append_nil]

/-- A success. -/
theorem Tracks.succeeded (h : Tracks s key c) : Tracks (s.succeeded key) key (c.add none) := by
  unfold Sampler.succeeded
  split
  · rename_i hkey
    have hnow : c.now ≠ [] := by
      rw [← Dict.get?_isSome, h.lastError] at hkey
      intro hnil
      rw [hnil] at hkey
      cases hkey
    have hcount : (s.failCount.get? key).getD 0 = c.now.length := by rw [h.failCount, if_neg hnow, Option.getD_some]
    have hadd : c.add none = ⟨c.past ++ [c.now], []⟩ := if_neg hnow
    rw [hadd]
    dsimp only
    refine ⟨?_, ?_, ?_⟩
    · rw [Sampler.note, Dict.get?_erase, if_pos rfl, if_pos rfl]
    · rw [Sampler.note, Dict.get?_erase, if_pos rfl]
      rfl
    · have habout : (Note.recovered key ((s.failCount.get? key).getD 0)).About key := rfl
      rw [filter_note, if_pos habout, hcount, h.notes]
      simp [Run.notes, Run.closing, unavailables, changes]
  · rename_i hkey
    have hnow : c.now = [] := by
      rw [← Dict.get?_isSome, h.lastError] at hkey
      simpa using hkey
    have hadd : c.add none = c := if_pos hnow
    rw [hadd]
    exact h

/-- What the sampler keeps of another key, and has noted of it, stays. -/
theorem Tracks.of_eq {s' : Sampler} (h : Tracks s key c) (hcount : s'.failCount.get? key = s.failCount.get? key)
    (herror : s'.lastError.get? key = s.lastError.get? key)
    (hnotes : s'.notes.filter (·.About key) = s.notes.filter (·.About key)) : Tracks s' key c :=
  ⟨hcount.trans h.failCount, herror.trans h.lastError, hnotes.trans h.notes⟩

theorem Tracks.note (h : Tracks s key c) {n : Note} (hn : n.key? = none) : Tracks (s.note n) key c := by
  have habout : ¬ n.About key := by
    simp [Note.About, hn]
  exact h.of_eq rfl rfl (by rw [filter_note, if_neg habout, List.append_nil])

theorem Tracks.failed_of_ne (h : Tracks s key c) {key' : Str} (hne : key ≠ key') (m : Str) :
    Tracks (s.failed key' m) key c := by
  have habout : ¬ (Note.unavailable key' m).About key := fun heq => hne (Option.some.inj heq).symm
  unfold Sampler.failed
  dsimp only
  split
  · refine h.of_eq ?_ ?_ ?_
    · rw [Sampler.note, Dict.get?_set, if_neg hne]
    · rw [Sampler.note, Dict.get?_set, if_neg hne]
    · rw [filter_note, if_neg habout, List.append_nil]
  · exact h.of_eq (by rw [Dict.get?_set, if_neg hne]) rfl rfl

theorem Tracks.succeeded_of_ne (h : Tracks s key c) {key' : Str} (hne : key ≠ key') : Tracks (s.succeeded key') key c := by
  unfold Sampler.succeeded
  split
  · have habout : ¬ (Note.recovered key' ((s.failCount.get? key').getD 0)).About key :=
      fun heq => hne (Option.some.inj heq).symm
    dsimp only
    refine h.of_eq ?_ ?_ ?_
    · rw [Sampler.note, Dict.get?_erase, if_neg hne]
    · rw [Sampler.note, Dict.get?_erase, if_neg hne]
    · rw [filter_note, if_neg habout, List.append_nil]
  · exact h

end

/-! ### Events -/

/-- What a probe came to: no message, or that of the failure. -/
abbrev Event : Type := Probe × Option Str

def outcome {α : Type} : Except Exc α → Option Str
  | .error e => some e.msg
  | .ok _ => none

/-- A probe, by what it came to. -/
def Sampler.event (s : Sampler) (e : Event) : Sampler :=
  match e.2 with
  | some m => s.failed e.1.key m
  | none => s.succeeded e.1.key

theorem probed_eq {α : Type} (s : Sampler) (p : Probe) (r : Except Exc α) : s.probed p r = s.event (p, outcome r) := by
  cases r <;> rfl

/-- The outcomes of a key among events. -/
def outcomesOf (key : Str) (events : List Event) : List (Option Str) :=
  (events.filter fun e => e.1.key = key).map Prod.snd

theorem Tracks.events {key : Str} : ∀ (events : List Event) {s : Sampler} {c : Course}, Tracks s key c →
    Tracks (events.foldl Sampler.event s) key ((outcomesOf key events).foldl Course.add c)
  | [], _, _, h => h
  | e :: events, s, c, h => by
    rw [List.foldl_cons, outcomesOf]
    by_cases hkey : e.1.key = key
    · rw [List.filter_cons_of_pos (by simpa using hkey), List.map_cons, List.foldl_cons]
      refine Tracks.events events ?_
      unfold Sampler.event
      rw [hkey]
      cases hout : e.2 with
      | some m => exact h.failed m
      | none => exact h.succeeded
    · rw [List.filter_cons_of_neg (by simpa using hkey)]
      refine Tracks.events events ?_
      unfold Sampler.event
      cases hout : e.2 with
      | some m => exact h.failed_of_ne (Ne.symm hkey) m
      | none => exact h.succeeded_of_ne (Ne.symm hkey)

/-- The probes of a tick, in order. -/
def Tick.events (guests : List Str) (k : Tick) : List Event :=
  match k.clock with
  | .error _ => []
  | .ok _ => [(.host, outcome k.host), (.vergilVm, outcome k.localVm)] ++
      if guests ≠ [] ∧ k.pool.isSome then [] else guests.map fun name => (.guest name, outcome (k.guest name))

/-- The tick takes its sample, at this time of the clock. -/
def Tick.completes (guests : List Str) (k : Tick) : Option ℚ :=
  if guests ≠ [] ∧ k.pool.isSome then none else k.clock.toOption

/-- The message of a note that the source's queue failed. -/
def Note.source? : Note → Option Str
  | sourceNotes msg => some msg
  | _ => none

/-- What a round leaves as it is, and that it notes nothing of the source's queue. -/
structure Kept (s s' : Sampler) : Prop where
  guests : s'.guests = s.guests
  startedAt : s'.startedAt = s.startedAt
  samples : s'.samples = s.samples
  notes : s'.notes.filterMap Note.source? = s.notes.filterMap Note.source?

theorem Kept.refl (s : Sampler) : Kept s s := ⟨rfl, rfl, rfl, rfl⟩

theorem Kept.trans {s s' s'' : Sampler} (h : Kept s s') (h' : Kept s' s'') : Kept s s'' where
  guests := h'.guests.trans h.guests
  startedAt := h'.startedAt.trans h.startedAt
  samples := h'.samples.trans h.samples
  notes := h'.notes.trans h.notes

theorem filterMap_note (s : Sampler) (n : Note) : (s.note n).notes.filterMap Note.source? =
    s.notes.filterMap Note.source? ++ n.source?.toList := by
  rw [Sampler.note, List.filterMap_append]
  cases h : n.source? with
  | none => simp [h]
  | some m => simp [h]

theorem Kept.note {s s' : Sampler} (h : Kept s s') {n : Note} (hn : n.source? = none) : Kept s (s'.note n) where
  guests := h.guests
  startedAt := h.startedAt
  samples := h.samples
  notes := by rw [filterMap_note, hn, Option.toList_none, List.append_nil, h.notes]

theorem kept_event (s : Sampler) (e : Event) : Kept s (s.event e) := by
  unfold Sampler.event
  split
  · unfold Sampler.failed
    dsimp only
    split
    · refine Kept.note ?_ rfl
      exact ⟨rfl, rfl, rfl, rfl⟩
    · exact ⟨rfl, rfl, rfl, rfl⟩
  · unfold Sampler.succeeded
    split
    · refine Kept.note ?_ rfl
      exact ⟨rfl, rfl, rfl, rfl⟩
    · exact .refl s

theorem kept_events : ∀ (events : List Event) (s : Sampler), Kept s (events.foldl Sampler.event s)
  | [], s => .refl s
  | e :: events, s => (kept_event s e).trans (kept_events events (s.event e))

/-- What a note, or several, leave as they are. -/
theorem foldl_message : ∀ (messages : List Str) (s : Sampler),
    Kept s (messages.foldl (fun s m => s.note (.message m)) s)
  | [], s => .refl s
  | m :: messages, s => (Kept.note (.refl s) rfl).trans (foldl_message messages (s.note (.message m)))

theorem drain_eq (s : Sampler) (r : Except Exc (List Str)) : (s.drain r).guests = s.guests ∧
    (s.drain r).startedAt = s.startedAt ∧ (s.drain r).samples = s.samples ∧
    (s.drain r).notes.filterMap Note.source? = s.notes.filterMap Note.source? ++ (outcome r).toList := by
  cases r with
  | error e => exact ⟨rfl, rfl, rfl, filterMap_note s (.sourceNotes e.msg)⟩
  | ok messages =>
    have h := foldl_message messages s
    refine ⟨h.guests, h.startedAt, h.samples, ?_⟩
    rw [outcome, Option.toList_none, List.append_nil]
    exact h.notes

theorem foldl_guests (k : Tick) : ∀ (names : List Str) (s : Sampler),
    names.foldl (fun s name => s.probed (.guest name) (k.guest name)) s =
      (names.map fun name => ((.guest name, outcome (k.guest name)) : Event)).foldl Sampler.event s
  | [], _ => rfl
  | name :: names, s => by rw [List.foldl_cons, List.map_cons, List.foldl_cons, foldl_guests k names, probed_eq]

/-- A round, by its events. -/
theorem round_eq (s : Sampler) (k : Tick) : ∃ s', s' = (k.events s.guests).foldl Sampler.event s ∧
    (k.completes s.guests = none → ∃ msg, s.round k = s'.note (.tickFailed msg)) ∧
    ∀ now, k.completes s.guests = some now → s.round k =
      { s'.drain k.notes with samples := s.samples ++ [Sampler.sample s.guests (now - s.startedAt) k] } := by
  refine ⟨_, rfl, ?_⟩
  unfold Sampler.round Sampler.tick Tick.events Tick.completes
  cases k.clock with
  | error e => exact ⟨fun _ => ⟨e.msg, rfl⟩, fun now h => by split at h <;> cases h⟩
  | ok now =>
    dsimp only
    rw [probed_eq, probed_eq]
    set s₁ := (s.event (.host, outcome k.host)).event (.vergilVm, outcome k.localVm) with hs₁
    have hkept : Kept s s₁ := (kept_event s _).trans (kept_event _ _)
    rw [hkept.guests]
    by_cases hpool : s.guests ≠ [] ∧ k.pool.isSome
    · obtain ⟨hne, hsome⟩ := hpool
      obtain ⟨e, he⟩ := Option.isSome_iff_exists.mp hsome
      rw [if_neg hne, he]
      simp only [ne_eq, hne, not_false_eq_true, Option.isSome_some, and_self, if_true]
      exact ⟨fun _ => ⟨e.msg, rfl⟩, fun now h => by cases h⟩
    · have hnone : (if s.guests = [] then none else k.pool) = none := by
        split
        · rfl
        · rename_i hne
          simpa [hne] using hpool
      rw [hnone, if_neg hpool, if_neg hpool, foldl_guests, List.foldl_append]
      dsimp only
      refine ⟨?_, fun now' h => ?_⟩
      · intro h
        cases h
      · obtain rfl : now = now' := Option.some.inj h
        set s₂ := (s.guests.map fun name => ((.guest name, outcome (k.guest name)) : Event)).foldl Sampler.event s₁ with hs₂
        have hall : Kept s s₂ := hkept.trans (kept_events _ s₁)
        obtain ⟨hguests, hstart, hsamples, -⟩ := drain_eq s₂ k.notes
        have hsample : (s₂.drain k.notes).samples ++
            [Sampler.sample (s₂.drain k.notes).guests (now - (s₂.drain k.notes).startedAt) k] =
              s.samples ++ [Sampler.sample s.guests (now - s.startedAt) k] := by
          rw [hguests, hstart, hsamples, hall.guests, hall.startedAt, hall.samples]
        exact congrArg (fun l => { s₂.drain k.notes with samples := l }) hsample

/-- The outcome of the source's queue in a tick that gets there. -/
def Tick.drained (guests : List Str) (k : Tick) : Option Str := (k.completes guests).bind fun _ => outcome k.notes

/-- The sample of a tick that takes one. -/
def Tick.taken (guests : List Str) (startedAt : ℚ) (k : Tick) : Option HostContentionSample :=
  (k.completes guests).map fun now => Sampler.sample guests (now - startedAt) k

/-- What a round does to the rest of the sampler. -/
theorem round_rest (s : Sampler) (k : Tick) : (s.round k).guests = s.guests ∧ (s.round k).startedAt = s.startedAt ∧
    (s.round k).samples = s.samples ++ (k.taken s.guests s.startedAt).toList ∧
    (s.round k).notes.filterMap Note.source? = s.notes.filterMap Note.source? ++ (k.drained s.guests).toList := by
  obtain ⟨s', hs', hnone, hsome⟩ := round_eq s k
  have hkept : Kept s s' := hs' ▸ kept_events _ s
  unfold Tick.taken Tick.drained
  cases hc : k.completes s.guests with
  | none =>
    obtain ⟨msg, heq⟩ := hnone hc
    have h : Kept s (s.round k) := heq ▸ hkept.note rfl
    exact ⟨h.guests, h.startedAt, by simp [h.samples], by simp [h.notes]⟩
  | some now =>
    obtain ⟨hguests, hstart, -, hnotes⟩ := drain_eq s' k.notes
    rw [hsome now hc]
    exact ⟨hguests.trans hkept.guests, hstart.trans hkept.startedAt, rfl, by rw [hnotes, hkept.notes]; rfl⟩

theorem Tracks.messages {key : Str} : ∀ (messages : List Str) {s : Sampler} {c : Course}, Tracks s key c →
    Tracks (messages.foldl (fun s m => s.note (.message m)) s) key c
  | [], _, _, h => h
  | _ :: messages, _, _, h => Tracks.messages messages (h.note rfl)

/-- **What a round does to a key.** -/
theorem Tracks.round {s : Sampler} {key : Str} {c : Course} (h : Tracks s key c) (k : Tick) :
    Tracks (s.round k) key ((outcomesOf key (k.events s.guests)).foldl Course.add c) := by
  obtain ⟨s', hs', hnone, hsome⟩ := round_eq s k
  have h' : Tracks s' key ((outcomesOf key (k.events s.guests)).foldl Course.add c) := hs' ▸ h.events (k.events s.guests)
  cases hc : k.completes s.guests with
  | none =>
    obtain ⟨msg, heq⟩ := hnone hc
    exact heq ▸ h'.note rfl
  | some now =>
    rw [hsome now hc]
    refine Tracks.of_eq (s := s'.drain k.notes) ?_ rfl rfl rfl
    unfold Sampler.drain
    split
    · exact h'.note rfl
    · exact h'.messages _

/-- What the rounds do. -/
theorem foldl_round : ∀ (ticks : List Tick) (s : Sampler), (ticks.foldl Sampler.round s).guests = s.guests ∧
    (ticks.foldl Sampler.round s).samples = s.samples ++ ticks.filterMap (Tick.taken s.guests s.startedAt) ∧
    (ticks.foldl Sampler.round s).notes.filterMap Note.source? =
      s.notes.filterMap Note.source? ++ ticks.filterMap (Tick.drained s.guests) ∧
    ∀ key c, Tracks s key c → Tracks (ticks.foldl Sampler.round s) key
      ((outcomesOf key (ticks.flatMap (Tick.events s.guests))).foldl Course.add c)
  | [], s => by
    refine ⟨rfl, by simp, by simp, fun key c h => ?_⟩
    exact h
  | k :: ticks, s => by
    obtain ⟨hguests, hstart, hsamples, hnotes⟩ := round_rest s k
    obtain ⟨ihguests, ihsamples, ihnotes, ihtracks⟩ := foldl_round ticks (s.round k)
    have hcons : ∀ {β : Type} (f : Tick → Option β), (k :: ticks).filterMap f = (f k).toList ++ ticks.filterMap f := by
      intro β f
      cases h : f k with
      | none => simp [h]
      | some b => simp [h]
    rw [List.foldl_cons]
    refine ⟨ihguests.trans hguests, ?_, ?_, fun key c h => ?_⟩
    · rw [ihsamples, hsamples, hguests, hstart, hcons, List.append_assoc]
    · rw [ihnotes, hnotes, hguests, hcons, List.append_assoc]
    · have h' := ihtracks key _ (h.round k)
      rw [hguests] at h'
      rw [List.flatMap_cons, outcomesOf, List.filter_append, List.map_append, List.foldl_append]
      exact h'

/-! ### The stop -/

theorem foldl_atStop : ∀ (ps : List (Str × ℕ)) (s : Sampler),
    (ps.foldl (fun s p => s.note (.atStop p.1 p.2)) s).samples = s.samples ∧
    (ps.foldl (fun s p => s.note (.atStop p.1 p.2)) s).notes = s.notes ++ ps.map fun p => .atStop p.1 p.2
  | [], s => ⟨rfl, by simp⟩
  | p :: ps, s => by
    obtain ⟨hsamples, hnotes⟩ := foldl_atStop ps (s.note (.atStop p.1 p.2))
    refine ⟨hsamples, hnotes.trans ?_⟩
    simp [Sampler.note]

theorem filter_atStop (key : Str) (ps : List (Str × ℕ)) :
    ((ps.map fun p => Note.atStop p.1 p.2).filter (·.About key)) =
      (ps.filter (·.1 = key)).map fun p => .atStop p.1 p.2 := by
  rw [List.filter_map]
  congr 2
  funext p
  simp [Note.About, Note.key?]

theorem filter_messages (key : Str) : ∀ (messages : List Str) (s : Sampler),
    (messages.foldl (fun s m => s.note (.message m)) s).notes.filter (·.About key) = s.notes.filter (·.About key)
  | [], _ => rfl
  | m :: messages, s => by
    have hm : ¬ (Note.message m).About key := by simp [Note.About, Note.key?]
    rw [List.foldl_cons, filter_messages key messages, filter_note, if_neg hm, List.append_nil]

/-- **What the stop leaves noted of a key**: its runs. -/
theorem Tracks.stop {s : Sampler} {key : Str} {c : Course} (h : Tracks s key c) (hung : Option Str)
    (problems : Except Exc (List Str)) :
    (s.stop hung problems).notes.filter (·.About key) = c.runs.flatMap (Run.notes key) := by
  have hhung : Tracks (hung.elim s fun timeout => s.note (.hung timeout)) key c := by
    cases hung with
    | none => exact h
    | some timeout => exact h.note rfl
  unfold Sampler.stop
  set s₁ := hung.elim s fun timeout => s.note (.hung timeout) with hs₁
  dsimp only
  set s₂ : Sampler := s₁.failCount.items.foldl (fun s p => s.note (.atStop p.1 p.2))
    { s₁ with failCount := .empty, lastError := .empty } with hs₂
  have hnotes : s₂.notes.filter (·.About key) = c.runs.flatMap (Run.notes key) := by
    rw [hs₂, (foldl_atStop _ _).2, List.filter_append, filter_atStop, Dict.filter_items, hhung.notes, hhung.failCount,
      Course.runs, List.flatMap_append, List.flatMap_map]
    by_cases hnow : c.now = []
    · simp [hnow, unavailables, changes]
    · simp [hnow, Run.notes, Run.closing]
  cases problems with
  | error e =>
    have he : ¬ (Note.cleanupFailed e.msg).About key := by simp [Note.About, Note.key?]
    rw [filter_note, if_neg he, List.append_nil, hnotes]
  | ok messages => rw [filter_messages, hnotes]

theorem stop_rest (s : Sampler) (hung : Option Str) (problems : Except Exc (List Str)) :
    (s.stop hung problems).samples = s.samples ∧
      (s.stop hung problems).notes.filterMap Note.source? = s.notes.filterMap Note.source? := by
  have hhung : Kept s (hung.elim s fun timeout => s.note (.hung timeout)) := by
    cases hung with
    | none => exact .refl s
    | some timeout => exact Kept.note (.refl s) rfl
  unfold Sampler.stop
  set s₁ := hung.elim s fun timeout => s.note (.hung timeout) with hs₁
  dsimp only
  set s₂ : Sampler := s₁.failCount.items.foldl (fun s p => s.note (.atStop p.1 p.2))
    { s₁ with failCount := .empty, lastError := .empty } with hs₂
  obtain ⟨hsamples, hnotes⟩ := foldl_atStop s₁.failCount.items { s₁ with failCount := .empty, lastError := .empty }
  have hsource : s₂.notes.filterMap Note.source? = s.notes.filterMap Note.source? := by
    rw [hs₂, hnotes, List.filterMap_append, hhung.notes, List.filterMap_map]
    have hnone : (Note.source? ∘ fun p : Str × ℕ => Note.atStop p.1 p.2) = fun _ => none := rfl
    rw [hnone, List.filterMap_none, List.append_nil]
  cases problems with
  | error e => exact ⟨hsamples.trans hhung.samples, by rw [filterMap_note, hsource]; simp [Note.source?]⟩
  | ok messages =>
    have hmessages := foldl_message messages s₂
    exact ⟨hmessages.samples.trans (hsamples.trans hhung.samples), hmessages.notes.trans hsource⟩

/-! ### Main result -/

/-- The probes of a run. -/
def probes (guests : List Str) : List Probe := .host :: .vergilVm :: guests.map .guest

/-- What a probe came to in a tick, if it was made. -/
def Tick.outcome (guests : List Str) (p : Probe) (k : Tick) : Option (Option Str) :=
  match p with
  | .host => k.clock.toOption.map fun _ => Perf.outcome k.host
  | .vergilVm => k.clock.toOption.map fun _ => Perf.outcome k.localVm
  | .guest name => (k.completes guests).map fun _ => Perf.outcome (k.guest name)

/-- The outcomes of a probe in a run. -/
def history (guests : List Str) (p : Probe) (ticks : List Tick) : List (Option Str) :=
  ticks.filterMap (Tick.outcome guests p)

/-- The notes of a run of failures: at least one that it is unavailable, of its
messages, only one if they are one message; then the closing one. -/
def RunNoted (key : Str) (r : Run) (notes : List Note) : Prop :=
  ∃ msgs, notes = msgs.map (.unavailable key) ++ [r.closing key] ∧ msgs ≠ [] ∧ msgs.Sublist r.errors ∧
    ∀ m, (∀ e ∈ r.errors, e = m) → msgs = [m]

/-- A sample that holds the readings of a tick. -/
structure Holds (guests : List Str) (k : Tick) (s : HostContentionSample) : Prop where
  hostCpu : s.hostCpu = k.host.toOption.map (·.cpuPct)
  hostIowait : s.hostIowait = k.host.toOption.map (·.iowaitPct)
  hostCpus : s.hostCpus = k.host.toOption.bind (·.cpus)
  localSample : s.localSample = k.localVm.toOption
  guests : ∀ name, s.guests.get? name = if name ∈ guests then (k.guest name).toOption else none

/-- What a run leaves in its record. -/
structure Accounted (guests : List Str) (ticks : List Tick) (s : Sampler) : Prop where
  samples : List.Forall₂ (Holds guests) (ticks.filter fun k => (k.completes guests).isSome) s.samples
  runs : ∀ p ∈ probes guests, ∃ segments, s.notes.filter (·.About p.key) = segments.flatten ∧
    List.Forall₂ (RunNoted p.key) (runs (history guests p ticks)) segments
  named : ∀ n ∈ s.notes, ∀ key, n.About key → ∃ p ∈ probes guests, p.key = key ∧ ∃ m, some m ∈ history guests p ticks
  queue : s.notes.filterMap Note.source? = ticks.filterMap (Tick.drained guests)

theorem key_injective : Function.Injective Probe.key := by
  have hhost : Probe.host.key.head? = some 'h' := rfl
  have hvergil : Probe.vergilVm.key.head? = some 'v' := rfl
  have hguest : ∀ name, (Probe.guest name).key.head? = some 'g' := fun name => rfl
  intro p q h
  have hhead := congrArg List.head? h
  cases p with
  | host =>
    cases q with
    | host => rfl
    | vergilVm =>
      rw [hhost, hvergil] at hhead
      exact absurd hhead (by decide)
    | guest name =>
      rw [hhost, hguest] at hhead
      exact absurd hhead (by decide)
  | vergilVm =>
    cases q with
    | host =>
      rw [hhost, hvergil] at hhead
      exact absurd hhead (by decide)
    | vergilVm => rfl
    | guest name =>
      rw [hvergil, hguest] at hhead
      exact absurd hhead (by decide)
  | guest name =>
    cases q with
    | host =>
      rw [hhost, hguest] at hhead
      exact absurd hhead (by decide)
    | vergilVm =>
      rw [hvergil, hguest] at hhead
      exact absurd hhead (by decide)
    | guest name' => exact congrArg Probe.guest (List.append_cancel_left h)

/-- The outcomes of a key are those of its probe. -/
theorem outcomesOf_key (p : Probe) (events : List Event) :
    outcomesOf p.key events = (events.filter fun e => e.1 = p).map Prod.snd := by
  unfold outcomesOf
  congr 2
  funext e
  exact decide_eq_decide.mpr key_injective.eq_iff

theorem filter_guests (f : Str → Option Str) {guests : List Str} (h : guests.Nodup) {name : Str} (hname : name ∈ guests) :
    ((guests.map fun n => ((.guest n, f n) : Event)).filter fun e => e.1 = .guest name).map Prod.snd = [f name] := by
  have hp : ((fun e : Event => decide (e.1 = .guest name)) ∘ fun n => ((.guest n, f n) : Event)) = fun n => decide (n = name) := by
    funext n
    simp
  rw [List.filter_map, hp, List.filter_eq, List.count_eq_one_of_mem h hname]
  rfl

/-- A tick has one event of each probe that is made. -/
theorem outcomesOf_events {guests : List Str} (h : guests.Nodup) {p : Probe} (hp : p ∈ probes guests) (k : Tick) :
    outcomesOf p.key (k.events guests) = (k.outcome guests p).toList := by
  rw [outcomesOf_key]
  have hother : ∀ q : Probe, (∀ name, q ≠ .guest name) → ∀ names : List Str,
      (names.map fun n => ((.guest n, outcome (k.guest n)) : Event)).filter (fun e => e.1 = q) = [] := by
    intro q hq names
    refine List.filter_eq_nil_iff.mpr fun e he => ?_
    obtain ⟨n, -, rfl⟩ := List.mem_map.mp he
    simpa using (hq n).symm
  unfold Tick.events Tick.outcome Tick.completes
  cases k.clock with
  | error e => cases p <;> simp [Except.toOption]
  | ok now =>
    dsimp only
    rw [List.filter_append]
    cases p with
    | host =>
      split
      · simp [Except.toOption]
      · rw [hother _ (by simp)]
        simp [Except.toOption]
    | vergilVm =>
      split
      · simp [Except.toOption]
      · rw [hother _ (by simp)]
        simp [Except.toOption]
    | guest name =>
      have hname : name ∈ guests := by simpa [probes] using hp
      split
      · simp
      · rw [List.map_append, filter_guests _ h hname]
        simp [Except.toOption]

/-- The events of a run, by probe. -/
theorem outcomesOf_run {guests : List Str} (h : guests.Nodup) {p : Probe} (hp : p ∈ probes guests) : ∀ ticks : List Tick,
    outcomesOf p.key (ticks.flatMap (Tick.events guests)) = history guests p ticks
  | [] => rfl
  | k :: ticks => by
    have ih := outcomesOf_run h hp ticks
    have hk := outcomesOf_events h hp k
    unfold outcomesOf at ih hk ⊢
    rw [List.flatMap_cons, List.filter_append, List.map_append, ih, hk, history, history]
    cases hout : k.outcome guests p with
    | none => simp [hout]
    | some o => simp [hout]

theorem runNoted (key : Str) {r : Run} (h : r.errors ≠ []) : RunNoted key r (r.notes key) :=
  ⟨changes r.errors, rfl, fun hnil => h (changes_eq_nil.mp hnil), List.destutter_sublist _ _,
    fun _ hall => changes_of_all h hall⟩

theorem course_mem (h : List (Option Str)) : (∀ errors ∈ (course h).past, errors ≠ [] ∧ ∀ m ∈ errors, some m ∈ h) ∧
    ∀ m ∈ (course h).now, some m ∈ h := by
  induction h using List.reverseRecOn with
  | nil => simp [course]
  | append_singleton h o ih =>
    obtain ⟨ihpast, ihnow⟩ := ih
    have hmem : ∀ m, some m ∈ h → some m ∈ h ++ [o] := fun m hm => List.mem_append_left [o] hm
    have hcourse : course (h ++ [o]) = (course h).add o := by simp [course]
    rw [hcourse]
    cases o with
    | some m =>
      refine ⟨fun errors he => ⟨(ihpast errors he).1, fun x hx => hmem x ((ihpast errors he).2 x hx)⟩, fun x hx => ?_⟩
      rcases List.mem_append.mp hx with hx | hx
      · exact hmem x (ihnow x hx)
      · rw [List.mem_singleton.mp hx]
        simp
    | none =>
      unfold Course.add
      dsimp only
      split
      · exact ⟨fun errors he => ⟨(ihpast errors he).1, fun x hx => hmem x ((ihpast errors he).2 x hx)⟩,
          fun x hx => hmem x (ihnow x hx)⟩
      · rename_i hnow
        refine ⟨fun errors he => ?_, by simp⟩
        rcases List.mem_append.mp he with he | he
        · exact ⟨(ihpast errors he).1, fun x hx => hmem x ((ihpast errors he).2 x hx)⟩
        · rw [List.mem_singleton.mp he]
          exact ⟨hnow, fun x hx => hmem x (ihnow x hx)⟩

/-- A run has failures, and they are in the history. -/
theorem mem_runs {h : List (Option Str)} {r : Run} (hr : r ∈ runs h) :
    r.errors ≠ [] ∧ ∀ m ∈ r.errors, some m ∈ h := by
  obtain ⟨hpast, hnow⟩ := course_mem h
  rcases List.mem_append.mp hr with hr | hr
  · obtain ⟨errors, he, rfl⟩ := List.mem_map.mp hr
    exact hpast errors he
  · split at hr
    · cases hr
    · rename_i hne
      rw [List.mem_singleton.mp hr]
      exact ⟨hne, hnow⟩

/-- The readings of the guests. -/
theorem get?_readings {α : Type} (f : Str → Option α) (guests : List Str) (name : Str) :
    (Dict.ofList (guests.filterMap fun n => (f n).map fun r => (n, r))).get? name =
      if name ∈ guests then f name else none := by
  have hof : ∀ v, (Dict.ofList (guests.filterMap fun n => (f n).map fun r => (n, r))).get? name = some v →
      name ∈ guests ∧ f name = some v := by
    intro v hv
    obtain ⟨before, after, heq, -⟩ := (Dict.get?_ofList_eq_some _).mp hv
    have hmem : (name, v) ∈ guests.filterMap fun n => (f n).map fun r => (n, r) := heq ▸ by simp
    obtain ⟨n, hn, hr⟩ := List.mem_filterMap.mp hmem
    obtain ⟨r, hf, heq⟩ := Option.map_eq_some_iff.mp hr
    obtain ⟨rfl, rfl⟩ := Prod.mk.inj heq
    exact ⟨hn, hf⟩
  cases hget : (Dict.ofList (guests.filterMap fun n => (f n).map fun r => (n, r))).get? name with
  | some v =>
    obtain ⟨hname, hf⟩ := hof v hget
    rw [if_pos hname, hf]
  | none =>
    split
    · rename_i hname
      cases hf : f name with
      | none => rfl
      | some v =>
        have hkey := Dict.get?_eq_none.mp hget
        rw [Dict.mem_keys_ofList] at hkey
        refine absurd (List.mem_map.mpr ⟨(name, v), List.mem_filterMap.mpr ⟨name, hname, ?_⟩, rfl⟩) hkey
        rw [hf]
        rfl
    · rfl

theorem holds_sample (guests : List Str) (t : ℚ) (k : Tick) : Holds guests k (Sampler.sample guests t k) :=
  ⟨rfl, rfl, rfl, rfl, get?_readings _ guests⟩

theorem holds_taken (guests : List Str) (startedAt : ℚ) : ∀ ticks : List Tick,
    List.Forall₂ (Holds guests) (ticks.filter fun k => (k.completes guests).isSome)
      (ticks.filterMap (Tick.taken guests startedAt))
  | [] => .nil
  | k :: ticks => by
    have ih := holds_taken guests startedAt ticks
    cases hc : k.completes guests with
    | none =>
      have ht : k.taken guests startedAt = none := by rw [Tick.taken, hc, Option.map_none]
      rw [List.filter_cons_of_neg (by simp [hc]), List.filterMap_cons_none ht]
      exact ih
    | some now =>
      have ht : k.taken guests startedAt = some (Sampler.sample guests (now - startedAt) k) := by
        rw [Tick.taken, hc, Option.map_some]
      rw [List.filter_cons_of_pos (by simp [hc]), List.filterMap_cons_some ht]
      exact .cons (holds_sample guests _ k) ih

/-- **The notes account for every outage.** Each tick that completes has one
sample with the readings that succeeded; each maximal run of failures of a probe
has its notes; no other probe is named; and the source's queue has one note each
time it fails. -/
theorem accounted {guests : List Str} (h : guests.Nodup) (startedAt : ℚ) (ticks : List Tick) (hung : Option Str)
    (problems : Except Exc (List Str)) :
    Accounted guests ticks (Sampler.run guests startedAt ticks hung problems) := by
  set s := ticks.foldl Sampler.round (.start guests startedAt) with hs
  obtain ⟨-, hsamples, hqueue, htracks⟩ := foldl_round ticks (.start guests startedAt)
  obtain ⟨hstop, hsource⟩ := stop_rest s hung problems
  have hkey : ∀ key, (s.stop hung problems).notes.filter (·.About key) =
      (runs (outcomesOf key (ticks.flatMap (Tick.events guests)))).flatMap (Run.notes key) := fun key =>
    (htracks key ⟨[], []⟩ ⟨rfl, rfl, rfl⟩).stop hung problems
  refine ⟨?_, fun p hp => ?_, fun n hn key hkeyn => ?_, ?_⟩
  · rw [Sampler.run, ← hs, hstop, hs, hsamples]
    exact holds_taken guests startedAt ticks
  · refine ⟨(runs (history guests p ticks)).map (Run.notes p.key), ?_, ?_⟩
    · rw [Sampler.run, ← hs, hkey, outcomesOf_run h hp, List.flatMap_def]
    · rw [List.forall₂_map_right_iff, List.forall₂_same]
      exact fun r hr => runNoted p.key (mem_runs hr).1
  · have hmem : n ∈ (s.stop hung problems).notes.filter (·.About key) := List.mem_filter.mpr ⟨hn, by simpa using hkeyn⟩
    rw [hkey] at hmem
    obtain ⟨r, hr, -⟩ := List.mem_flatMap.mp hmem
    obtain ⟨hne, hfail⟩ := mem_runs hr
    obtain ⟨m, ms, hms⟩ := List.exists_cons_of_ne_nil hne
    have hm := hfail m (hms ▸ List.mem_cons_self)
    obtain ⟨e, he, heq⟩ := List.mem_map.mp hm
    obtain ⟨hevent, hekey⟩ := List.mem_filter.mp he
    obtain rfl : e.1.key = key := by simpa using hekey
    have hprobe : e.1 ∈ probes guests := by
      obtain ⟨k, -, hk⟩ := List.mem_flatMap.mp hevent
      unfold Tick.events at hk
      split at hk
      · cases hk
      · rcases List.mem_append.mp hk with hk | hk
        · rcases List.mem_pair.mp hk with rfl | rfl <;> simp [probes]
        · split at hk
          · cases hk
          · obtain ⟨name, hname, rfl⟩ := List.mem_map.mp hk
            simp [probes, hname]
    rw [outcomesOf_run h hprobe] at hm
    exact ⟨e.1, hprobe, rfl, m, hm⟩
  · rw [Sampler.run, ← hs, hsource, hs, hqueue]
    rfl

/-- The outcomes of the source's queue in a run. -/
def queueHistory (guests : List Str) (ticks : List Tick) : List (Option Str) :=
  ticks.filterMap fun k => (k.completes guests).map fun _ => outcome k.notes

/-- A tick of no guests in which the queue alone fails. -/
def queueGone : Tick where
  clock := .ok 0
  host := .ok ⟨0, 0, none⟩
  localVm := .ok ⟨none, none, none⟩
  pool := none
  guest := fun _ => .error ⟨"LookupError".toList, []⟩
  notes := .error ⟨"OSError".toList, "queue gone".toList⟩

theorem accounted_queueGone :
    Accounted [] [queueGone, queueGone] (Sampler.run [] 0 [queueGone, queueGone] none (.ok [])) :=
  accounted List.nodup_nil 0 [queueGone, queueGone] none (.ok [])

/-- Two failures of the queue, and no closing note. -/
theorem queue_never_closed : ¬ ∀ (guests : List Str) (startedAt : ℚ) (ticks : List Tick) (hung : Option Str)
    (problems : Except Exc (List Str)), guests.Nodup → ∀ r ∈ runs (queueHistory guests ticks),
      ∃ n ∈ (Sampler.run guests startedAt ticks hung problems).notes, n.closing? = some r.errors.length := by
  intro hall
  have hnotes : (Sampler.run [] 0 [queueGone, queueGone] none (.ok [])).notes =
      [.sourceNotes "OSError: queue gone".toList, .sourceNotes "OSError: queue gone".toList] := by decide +kernel
  have hruns : runs (queueHistory [] [queueGone, queueGone]) =
      [⟨["OSError: queue gone".toList, "OSError: queue gone".toList], false⟩] := by decide +kernel
  obtain ⟨n, hn, hclosing⟩ := hall [] 0 [queueGone, queueGone] none (.ok []) List.nodup_nil _ (hruns ▸ List.mem_cons_self)
  rw [hnotes] at hn
  rcases List.mem_pair.mp hn with rfl | rfl <;> cases hclosing

end Perf
end MqResiliency
