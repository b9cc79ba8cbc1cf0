/-
# The ledger on disk

`write_jsonl` and `read_jsonl` of `dr/ledger.py`, and the reader that
`mq-dr-forced` has of its own, `_sent_ts` (`dr_forced.py`). A file is its text
in UTF-8, `none` where it is missing; both readers open it as text, with
`\n` for each line end. `none` of a function is an exception.

The texts that Python gives finite floats, and values that are no text, are
parameters (`Texts`). A float that is read is the double nearest to its text.
-/
import MqResiliency.Dr.Ledger
import MqResiliency.Lib.Dict
import MqResiliency.Lib.Double
import MqResiliency.Lib.Json
import MqResiliency.Lib.Lines

namespace MqResiliency
namespace Dr

open Py

/-! ### Values -/

/-- A float, as far as `<=` goes. -/
def tsOf : Double → Ts
  | .nan => .nan
  | .negInf => .negInf
  | .fin q _ => .fin q
  | .posInf => .posInf

/-- A float in JSON is `float` of its text. -/
def floats : Floats Double := ⟨fun t => (Double.parse t).getD .nan, .nan, .posInf, .negInf⟩

/-- `repr(x)` of a finite float, and `str(v)` of a value that is no text. -/
structure Texts where
  repr : ℚ → Str
  str : Json Double → Str

/-- `event.value`. -/
def Event.value : Event → Str
  | .sent => "sent".toList
  | .confirmed => "confirmed".toList
  | .received => "received".toList
  | .replied => "replied".toList

/-- `Event(v)`. -/
def eventOf : Json Double → Option Event
  | .str s => [Event.sent, .confirmed, .received, .replied].find? (·.value = s)
  | _ => none

/-- `int(v)`. -/
def intOf : Json Double → Option ℤ
  | .int n => some n
  | .bool b => some b.toInt
  | .float (.fin q _) => some (Double.truncate q)
  | .str s => int s
  | _ => none

/-- `float(v)`. -/
def floatOf : Json Double → Option Ts
  | .int n => (Double.ofInt n).map tsOf
  | .bool b => (Double.ofInt b.toInt).map tsOf
  | .float x => some (tsOf x)
  | .str s => (Double.parse s).map tsOf
  | _ => none

/-- `str(v)`. -/
def strOf (py : Texts) : Json Double → Str
  | .str s => s
  | v => py.str v

/-- `json.loads(line)`, of a line with an object. -/
def rowOf (line : Str) : Option (Dict Str (Json Double)) :=
  match loads floats line with
  | .ok (.obj ps) => some (Dict.ofList ps)
  | _ => none

/-! ### Writing -/

/-- A float as `json.dumps` writes it. -/
def tsText (py : Texts) : Ts → Str
  | .nan => "NaN".toList
  | .negInf => "-Infinity".toList
  | .posInf => "Infinity".toList
  | .fin q => py.repr q

/-- `json.dumps(row)`. -/
def rowText (py : Texts) (e : LedgerEntry) : Option Str := do
  let seq ← str e.seq
  return objText [] [' '] []
    [("event".toList, quoted e.event.value), ("seq".toList, seq), ("uuid".toList, quoted e.uuid),
      ("ts".toList, tsText py e.ts)]

/-- The text that `l.write_jsonl(path)` leaves. -/
def Ledger.writeJsonl (py : Texts) (l : Ledger) : Option Str := do
  let rows ← l.entries.mapM (rowText py)
  return rows.flatMap fun row => row ++ ['\n']

/-! ### Reading -/

/-- The entry of a row. -/
def entryOf (py : Texts) (row : Dict Str (Json Double)) : Option LedgerEntry := do
  let event ← row.get? "event".toList
  let event ← eventOf event
  let seq ← row.get? "seq".toList
  let seq ← intOf seq
  let uuid ← row.get? "uuid".toList
  let ts ← row.get? "ts".toList
  let ts ← floatOf ts
  return ⟨event, seq, strOf py uuid, ts⟩

/-- `Ledger.read_jsonl(path)`. -/
def readJsonl (py : Texts) : Option Str → Option Ledger
  | none => some ⟨[]⟩
  | some text => do
    let lines := (splitlines (newlines text)).filter fun line => trim line ≠ []
    let entries ← lines.mapM fun line => (rowOf line).bind (entryOf py)
    return ⟨entries⟩

/-! ### The reader of `mq-dr-forced` -/

/-- A key of a `dict`: numbers of one value are one key. -/
inductive Key where
  | num (q : ℚ)
  | posInf
  | negInf
  | nan
  | str (s : Str)
  | null
deriving DecidableEq

/-- A value as a key; lists and dicts have no hash. -/
def keyOf : Json Double → Option Key
  | .int n => some (.num n)
  | .bool b => some (.num b.toInt)
  | .float (.fin q _) => some (.num q)
  | .float .posInf => some .posInf
  | .float .negInf => some .negInf
  | .float .nan => some .nan
  | .str s => some (.str s)
  | .null => some .null
  | .arr _ | .obj _ => none

/-- `v == "sent"`. -/
def isSent : Option (Json Double) → Bool
  | some (.str s) => s = "sent".toList
  | _ => false

/-- One line of `_sent_ts`. -/
def sentStep (out : Dict Key (Json Double)) (line : Str) : Option (Dict Key (Json Double)) := do
  let row ← rowOf line
  if isSent (row.get? "event".toList) then
    let ts ← row.get? "ts".toList
    let seq ← row.get? "seq".toList
    let key ← keyOf seq
    return out.set key ts
  else return out

/-- `_sent_ts(path)`. -/
def sentTs : Option Str → Option (Dict Key (Json Double))
  | none => none
  | some text => (fileLines (newlines text)).foldlM sentStep .empty

end Dr
end MqResiliency
