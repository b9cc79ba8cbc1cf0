/-
# Header and message body

The fixed-format header of a message (`header.py`) and the self-identifying
`DRv1` body behind it (`dr/wire.py`):

  DRv1|<seq>|<uuid>|<session_date>|<payload...>

Key theorem: `splitFramed_append`, a body is found again behind any header
that has no `D` in it, with the fields it was built from.
-/
import MqResiliency.Lib.Text

namespace MqResiliency
namespace Dr

open Py

/-! ### The header -/

/-- `FIELD`. -/
def headerField : ℕ := 8

/-- A field that is too long raises. -/
def checkField (name : String) (value : Str) : Except Str Unit :=
  if value.length > headerField then .error (name ++ " exceeds 8 chars").toList else .ok ()

/-- The four fields, left-justified. -/
def packHeader (password sender receiver sessionDate : Str) : Except Str Str := do
  checkField "password" password
  checkField "sender" sender
  checkField "receiver" receiver
  checkField "session_date" sessionDate
  return ljust 8 password ++ ljust 8 sender ++ ljust 8 receiver ++ ljust 8 sessionDate

/-! ### The body -/

/-- `_PREFIX`. -/
def bodyPrefix : Str := "DRv1".toList

/-- `_MARKER`. -/
def marker : Bytes := encode (bodyPrefix ++ ['|'])

/-- The bytes carry no well-formed body. -/
structure NotDRv1Error where
  why : Str
deriving DecidableEq

structure WireMessage where
  seq : ℤ
  uuid : Str
  sessionDate : Str
  payload : Str
deriving DecidableEq

/-- `none` where `str(seq)` raises `ValueError`. -/
def buildBody (seq : ℤ) (uuid sessionDate payload : Str) : Option Bytes :=
  (str seq).map fun s => encode (['|'].intercalate [bodyPrefix, s, uuid, sessionDate, payload])

def parseBody (body : Bytes) : Except NotDRv1Error WireMessage :=
  let reason : NotDRv1Error := ⟨"not a DRv1 body: ".toList ++ bytesRepr body⟩
  match (decode body).map (split '|' 4) with
  | some [p, seq, uuid, sessionDate, payload] =>
    if p = bodyPrefix then
      match int seq with
      | some seq => .ok ⟨seq, uuid, sessionDate, payload⟩
      | none => .error reason
    else .error reason
  | _ => .error reason

/-- The body from its marker on, and what it says. -/
def splitFramed (raw : Bytes) : Except NotDRv1Error (Bytes × WireMessage) :=
  match find marker raw with
  | none => .error ⟨"no DRv1 body in message: ".toList ++ bytesRepr (raw.take 64)⟩
  | some idx => do
    let body := raw.drop idx
    return (body, ← parseBody body)

/-! ### Reading back -/

theorem marker_eq : marker = [68, 82, 118, 49, 124] := by decide

theorem bar_not_mem_str {n : ℤ} {s : Str} (h : str n = some s) : '|' ∉ s := by
  intro hm
  rcases mem_str h _ hm with h | h
  · exact absurd h (by decide)
  · exact absurd h (by decide)

theorem parseBody_buildBody {seq : ℤ} {uuid sessionDate payload : Str} {body : Bytes}
    (hu : '|' ∉ uuid) (hd : '|' ∉ sessionDate)
    (h : buildBody seq uuid sessionDate payload = some body) :
    parseBody body = .ok ⟨seq, uuid, sessionDate, payload⟩ := by
  obtain ⟨s, hs, rfl⟩ := Option.map_eq_some_iff.mp h
  have hp : '|' ∉ bodyPrefix := by decide
  have hsplit : split '|' 4 (['|'].intercalate [bodyPrefix, s, uuid, sessionDate, payload]) =
      [bodyPrefix, s, uuid, sessionDate, payload] := by
    calc split '|' 4 (['|'].intercalate [bodyPrefix, s, uuid, sessionDate, payload])
        = split '|' 4 (bodyPrefix ++ '|' :: (s ++ '|' :: (uuid ++ '|' ::
            (sessionDate ++ '|' :: payload)))) := by simp [List.intercalate]
      _ = [bodyPrefix, s, uuid, sessionDate, payload] := by
          rw [split_cons _ _ _ hp, split_cons _ _ _ (bar_not_mem_str hs), split_cons _ _ _ hu,
            split_cons _ _ _ hd, split]
  simp only [parseBody, decode_encode, Option.map_some, hsplit, if_true, int_str hs]

/-- A body starts with its marker. -/
theorem marker_isPrefix {seq : ℤ} {uuid sessionDate payload : Str} {body : Bytes}
    (h : buildBody seq uuid sessionDate payload = some body) : ∃ r, body = marker ++ r := by
  obtain ⟨s, -, rfl⟩ := Option.map_eq_some_iff.mp h
  refine ⟨encode (s ++ '|' :: (uuid ++ '|' :: (sessionDate ++ '|' :: payload))), ?_⟩
  rw [marker, ← encode_append]
  simp [List.intercalate]

/-- **A framed body reads back**: what stands before it has no `D`. -/
theorem splitFramed_append {header : Bytes} {seq : ℤ} {uuid sessionDate payload : Str}
    {body : Bytes} (hh : (68 : UInt8) ∉ header) (hu : '|' ∉ uuid) (hd : '|' ∉ sessionDate)
    (h : buildBody seq uuid sessionDate payload = some body) :
    splitFramed (header ++ body) = .ok (body, ⟨seq, uuid, sessionDate, payload⟩) := by
  obtain ⟨r, rfl⟩ := marker_isPrefix h
  have hfind : find marker (header ++ (marker ++ r)) = some header.length := by
    rw [marker_eq]
    exact find_append 68 [82, 118, 49, 124] r header hh
  have hparse := parseBody_buildBody hu hd h
  simp only [splitFramed, hfind, List.drop_left, hparse]
  rfl

end Dr
end MqResiliency
