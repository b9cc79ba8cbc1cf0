/-
# The ledger of message events

The append-only ledger (`dr/ledger.py`). The app's records SENT (put and
committed) and CONFIRMED (reply matched), the SVC Watcher's RECEIVED (one for
every receive) and REPLIED. Its folds are what the reconciler reads.
-/
import Mathlib.Algebra.Order.Ring.Rat
import Mathlib.Data.Finset.Basic
import MqResiliency.Lib.Text

namespace MqResiliency
namespace Dr

open Py

/-! ### Timestamps -/

/-- A Python `float`, as far as `<=` goes. -/
inductive Ts where
  | nan
  | negInf
  | fin (t : ℚ)
  | posInf
deriving DecidableEq

/-- `<=`: false of a NaN on either side. -/
def Ts.le : Ts → Ts → Bool
  | .nan, _ => false
  | _, .nan => false
  | .negInf, _ => true
  | _, .posInf => true
  | .fin s, .fin t => s ≤ t
  | _, _ => false

/-- Every timestamp but a NaN is at or before `float("inf")`. -/
@[simp] theorem Ts.le_posInf (t : Ts) : t.le .posInf = decide (t ≠ .nan) := by
  cases t <;> rfl

/-! ### Entries -/

inductive Event where
  | sent
  | confirmed
  | received
  | replied
deriving DecidableEq

structure LedgerEntry where
  event : Event
  seq : ℤ
  uuid : Str
  ts : Ts
deriving DecidableEq

structure Ledger where
  entries : List LedgerEntry

namespace Ledger

/-- The entries of one kind of event, in order. -/
def ofEvent (e : Event) (l : Ledger) : List LedgerEntry := l.entries.filter (·.event = e)

/-- `l.append(entry)`. -/
def append (l : Ledger) (entry : LedgerEntry) : Ledger := ⟨l.entries ++ [entry]⟩

def sentSeqs (l : Ledger) : Finset ℤ := ((l.ofEvent .sent).map (·.seq)).toFinset

/-- `confirmed_seqs(at_ts)`; `none` is all of them. -/
def confirmedSeqs (l : Ledger) (atTs : Option Ts) : Finset ℤ :=
  (((l.ofEvent .confirmed).filter fun e => atTs.all e.ts.le).map (·.seq)).toFinset

/-- The uuid of the last entry of each seq. -/
def uuidOf (l : Ledger) : ℤ → Option Str :=
  l.entries.foldl (fun d e => Function.update d e.seq (some e.uuid)) fun _ => none

/-- How often each seq was received. -/
def svcReceiveCounts (l : Ledger) : ℤ → ℕ :=
  (l.ofEvent .received).foldl (fun counts e => Function.update counts e.seq (counts e.seq + 1))
    fun _ => 0

def svcReplied (l : Ledger) : Finset ℤ := ((l.ofEvent .replied).map (·.seq)).toFinset

/-! ### What the folds hold -/

theorem mem_ofEvent {l : Ledger} {k : Event} {e : LedgerEntry} :
    e ∈ l.ofEvent k ↔ e ∈ l.entries ∧ e.event = k := by
  simp [ofEvent]

theorem mem_sentSeqs {l : Ledger} {n : ℤ} :
    n ∈ l.sentSeqs ↔ ∃ e ∈ l.entries, e.event = .sent ∧ e.seq = n := by
  simp [sentSeqs, mem_ofEvent, and_assoc]

theorem mem_confirmedSeqs {l : Ledger} {atTs : Option Ts} {n : ℤ} :
    n ∈ l.confirmedSeqs atTs ↔
      ∃ e ∈ l.entries, e.event = .confirmed ∧ e.seq = n ∧ atTs.all e.ts.le := by
  simp only [confirmedSeqs, List.mem_toFinset, List.mem_map, List.mem_filter, mem_ofEvent]
  constructor
  · rintro ⟨e, ⟨⟨he, hk⟩, ht⟩, hn⟩
    exact ⟨e, he, hk, hn, ht⟩
  · rintro ⟨e, he, hk, hn, ht⟩
    exact ⟨e, ⟨⟨he, hk⟩, ht⟩, hn⟩

theorem foldl_counts (es : List LedgerEntry) (n : ℤ) : ∀ counts : ℤ → ℕ,
    es.foldl (fun counts e => Function.update counts e.seq (counts e.seq + 1)) counts n =
      counts n + es.countP (·.seq = n) := by
  induction es with
  | nil => simp
  | cons e es ih =>
    intro counts
    rw [List.foldl_cons, ih, List.countP_cons]
    by_cases hn : e.seq = n
    · subst hn
      simp only [Function.update_self, decide_true, if_true]
      omega
    · have hn' : n ≠ e.seq := fun h => hn h.symm
      simp [hn, Function.update_of_ne hn']

/-- The fold counts the RECEIVED entries of each seq. -/
theorem svcReceiveCounts_eq (l : Ledger) (n : ℤ) :
    l.svcReceiveCounts n = (l.ofEvent .received).countP (·.seq = n) := by
  rw [svcReceiveCounts, foldl_counts]
  simp

end Ledger
end Dr
end MqResiliency
