/-
# Probes and samples

A collector runs its probes, parses what they printed and renders samples. A
probe comes to a text, or to `None` if the command failed or ran out of time.
A sample is a line of the textfile, formatted by `_m`, which escapes nothing.

What Python's runtime brings, its XML parser and its Unicode tables, is a
parameter (`Runtime`).
-/
import MqResiliency.Lib.Exposition
import MqResiliency.Lib.Regex
import MqResiliency.Lib.Xml

namespace MqResiliency
namespace Obs

open Py

/-- The runtime: `ET.fromstring` (`none` where it raises), the alphanumerics
beyond ASCII, and `str.lower`. -/
structure Runtime : Type where
  fromstring : Str → Option Xml.Element
  alnum : Char → Bool
  lower : Str → Str

/-- What a command printed; no text of Python has more characters. -/
structure Output : Type where
  text : Str
  length_lt : text.length < 2 ^ 63

/-- `int(time.time())`. -/
structure Clock : Type where
  seconds : ℤ
  isDouble : IsDouble seconds

/-- What is probed. -/
inductive Source : Type where
  | crm
  | stonith
  | iscsi
  | daemons
  | drbd
  | rdqmstatus
  | nativehaX
  | nativehaG
deriving DecidableEq

/-- The name of a source. -/
def Source.name : Source → Str
  | crm => "crm".toList
  | stonith => "stonith".toList
  | iscsi => "iscsi".toList
  | daemons => "daemons".toList
  | drbd => "drbd".toList
  | rdqmstatus => "rdqmstatus".toList
  | nativehaX => "nativeha_x".toList
  | nativehaG => "nativeha_g".toList

/-- What the probes came to. -/
abbrev Probes : Type := Source → Option Output

/-- A text is parsed, if there is one. -/
def whenRead {α : Type} (out : Option Output) (parse : Str → Option α) : Option (Option α) :=
  match out with
  | none => some none
  | some raw => (parse raw.text).map some

/-- The sources that were read, in the order of the probes. -/
def freshSources (probes : Probes) (order : List Source) : List Source :=
  order.filter fun source => (probes source).isSome

/-! ### Samples -/

/-- The value of a sample. -/
inductive Value : Type where
  | int (n : ℤ)
  | float (x : PyFloat)

/-- `1 if b else 0`. -/
def flag (b : Bool) : Value := .int (if b then 1 else 0)

/-- What is formatted; `none` where Python raises, for it prints no integer of
more than 4300 digits. -/
def Value.text : Value → Option Str
  | int n => str n
  | float x => some x.repr

/-- The arguments of `_m`. -/
structure Sample : Type where
  name : Str
  labels : List (Str × Str)
  value : Value

/-- A sample with the text of its value. -/
def Sample.shown (s : Sample) : Option Exposition.Sample := s.value.text.map fun value => ⟨s.name, s.labels, value⟩

/-- The textfile of these samples. -/
def body (samples : List Sample) : Option Str :=
  (samples.mapM Sample.shown).map fun shown => ['\n'].intercalate (shown.map (·.line)) ++ ['\n']

/-- The label that every sample has. -/
def nodeLabel (node : Str) : Str × Str := ("node".toList, node)

/-- The stamps of the sources that were read. -/
def stamps (node : Str) (now : Clock) (fresh : List Source) : List Sample :=
  fresh.map fun source =>
    ⟨"cluster_state_last_write_timestamp".toList, [nodeLabel node, ("source".toList, source.name)], .int now.seconds⟩

/-! ### Texts -/

/-- `s.split(sep, 1)` of a text that has the separator. -/
def cut (sep : Char) (s : Str) : Str × Str := (s.takeWhile (· ≠ sep), (s.dropWhile (· ≠ sep)).drop 1)

end Obs
end MqResiliency
