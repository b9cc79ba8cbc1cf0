/-
# The heartbeat timeout in corosync.conf

`rdqm_corosync_heartbeat.py`: an edit of a text that another tool owns. The
text is read into sections (`parse`), one missing edit is made (`nextEdit`),
and the lines are read again, until nothing is missing or the passes are used
up (`applyHeartbeat`).

A section here has its subsections in it. The source keeps one list of all
sections in the order of their opening, and a section in it is the same object
as the child of its parent; that list is read off at the end (`Section.allOf`).

A line holds no line break, so that `$` is its end.
-/
import Mathlib.Data.List.Dedup
import Mathlib.Data.List.Sort
import MqResiliency.Lib.Conv
import MqResiliency.Lib.Dict
import MqResiliency.Lib.Lines

namespace MqResiliency
namespace Heartbeat

open Py (Str Dict)

def tokenMin : ℤ := 3000

def tokenMax : ℤ := 120000

def defaultIndent : Str := "    ".toList

/-- `CorosyncConfError`, and the `ValueError` of a number that is too long to be read. -/
inductive Err : Type where
  | closesNone (line : ℕ)
  | neverClosed (name : Str)
  | totems (found : ℕ)
  | outOfRange (token : ℤ)
  | notConverged
  | valueError
deriving DecidableEq

/-- The text of the exception; of a `ValueError` it is the interpreter's. -/
def Err.message : Err → Option Str
  | closesNone line => some ("line ".toList ++ Py.Conv.textOf line ++ ": '\x7d' closes no section".toList)
  | neverClosed name => some ("section '".toList ++ name ++ "' is never closed".toList)
  | totems found => some ("expected one totem section, found ".toList ++ Py.Conv.textOf found)
  | outOfRange token => some ("token ".toList ++ Py.Conv.textOf token ++ " ms is outside IBM's range ".toList ++
      Py.Conv.textOf tokenMin ++ ['-'] ++ Py.Conv.textOf tokenMax ++ " ms".toList)
  | notConverged => some "the edit did not converge".toList
  | valueError => none

/-! ### Lines -/

/-- `[A-Za-z0-9_.-]`. -/
def isNameChar (c : Char) : Bool := c.isAlphanum ∨ c = '_' ∨ c = '.' ∨ c = '-'

/-- The name that a line starts with, and what follows it. -/
def named (line : Str) : Str × Str := (line.dropWhile Re.isSpace).span isNameChar

/-- `_OPEN.match(line)`, its group. -/
def opened (line : Str) : Option Str :=
  let (name, rest) := named line
  if name ≠ [] ∧ Py.trim rest = ['{'] then some name else none

/-- `_CLOSE.match(line)`. -/
def closed (line : Str) : Bool := Py.trim line = ['}']

/-- `_KEY.match(line)`, its second and third group. -/
def keyed (line : Str) : Option (Str × Str) :=
  let (name, rest) := named line
  match rest.dropWhile Re.isSpace with
  | ':' :: value => if name ≠ [] then some (name, Py.trim value) else none
  | _ => none

/-- What `parse` takes a line for. -/
inductive Kind : Type where
  | opening (name : Str)
  | closing
  | key (name value : Str)
  /-- A blank line, a comment, or none of these. -/
  | other
deriving DecidableEq

def kindOf (line : Str) : Kind :=
  let stripped := Py.trim line
  if stripped = [] ∨ stripped.head? = some '#' then .other
  else match opened line with
    | some name => .opening name
    | none =>
      if closed line then .closing
      else match keyed line with
        | some (name, value) => .key name value
        | none => .other

/-! ### Sections -/

/-- `Section`, when it is closed. -/
structure Section : Type where
  name : Str
  path : List Str
  start : ℕ
  stop : ℕ
  keys : Dict Str (ℕ × Str)
  children : List Section

/-- `Section`, while it is open. -/
structure Opened : Type where
  name : Str
  path : List Str
  start : ℕ
  keys : Dict Str (ℕ × Str)
  children : List Section

def Opened.close (s : Opened) (stop : ℕ) : Section := ⟨s.name, s.path, s.start, stop, s.keys, s.children⟩

mutual

/-- The section, and those inside it in the order of their opening. -/
def Section.all : Section → List Section
  | ⟨name, path, start, stop, keys, children⟩ => ⟨name, path, start, stop, keys, children⟩ :: Section.allOf children

/-- All sections in the order of their opening. -/
def Section.allOf : List Section → List Section
  | [] => []
  | s :: ss => s.all ++ Section.allOf ss

end

/-- The state of `parse`: the open sections, the innermost first, and the
closed ones that are in no other. -/
structure Parsing : Type where
  stack : List Opened
  roots : List Section

namespace Parsing

/-- `stack[-1].path if stack else ()`. -/
def path (p : Parsing) : List Str :=
  match p.stack with
  | [] => []
  | s :: _ => s.path

def push (p : Parsing) (name : Str) (index : ℕ) : Parsing :=
  { p with stack := ⟨name, p.path ++ [name], index, .empty, []⟩ :: p.stack }

/-- A section that is closed now is in the innermost that is still open. -/
def add (p : Parsing) (s : Section) : Parsing :=
  match p.stack with
  | [] => { p with roots := p.roots ++ [s] }
  | parent :: stack => { p with stack := { parent with children := parent.children ++ [s] } :: stack }

def pop (p : Parsing) (index : ℕ) : Except Err Parsing :=
  match p.stack with
  | [] => .error (.closesNone (index + 1))
  | s :: stack => .ok ({ p with stack := stack }.add (s.close index))

/-- `stack[-1].keys.setdefault(key, (index, value))`, if there is one. -/
def note (p : Parsing) (key : Str) (index : ℕ) (value : Str) : Parsing :=
  match p.stack with
  | [] => p
  | s :: stack => { p with stack := { s with keys := s.keys.setdefault key (index, value) } :: stack }

def line (p : Parsing) (index : ℕ) (line : Str) : Except Err Parsing :=
  match kindOf line with
  | .opening name => .ok (p.push name index)
  | .closing => p.pop index
  | .key name value => .ok (p.note name index value)
  | .other => .ok p

/-- The lines from `index` on. -/
def lines : ℕ → List Str → Parsing → Except Err Parsing
  | _, [], p => .ok p
  | index, l :: ls, p => (p.line index l).bind (lines (index + 1) ls)

end Parsing

def parse (lines : List Str) : Except Err (List Section) := do
  let p ← Parsing.lines 0 lines ⟨[], []⟩
  match p.stack with
  | [] => .ok (Section.allOf p.roots)
  | s :: _ => .error (.neverClosed s.name)

/-! ### Edits -/

def indentOf (line : Str) : Str := line.takeWhile Re.isSpace

/-- `f"{indent}{key}: {value}"`. -/
def keyLine (indent key value : Str) : Str := indent ++ key ++ ':' :: ' ' :: value

/-- The indent of the first inner line that is not blank, or one step past the
section's own. -/
def childIndent (lines : List Str) (s : Section) : Str :=
  let inner := (lines.drop (s.start + 1)).take (s.stop - (s.start + 1))
  match inner.find? fun line => Py.trim line ≠ [] with
  | some line => indentOf line
  | none => indentOf (lines.getD s.start []) ++ defaultIndent

/-- `_set_key`: the lines after it, if one changed. -/
def setKey (lines : List Str) (s : Section) (key value : Str) : Option (List Str) :=
  match s.keys.get? key with
  | some (index, current) =>
    if current = value then none
    else some (lines.set index (keyLine (indentOf (lines.getD index [])) key value))
  | none => some (lines.insertIdx s.stop (keyLine (childIndent lines s) key value))

/-- `_RING.match(key)`, its group. -/
def ringOf (key : Str) : Option Str :=
  match key.dropPrefix? "ring".toList with
  | none => none
  | some rest =>
    let (digits, tail) := rest.span fun c => (Py.decimal c).isSome
    if digits ≠ [] ∧ tail = "_addr".toList then some digits else none

/-- The keys of the nodelist's nodes. -/
def nodeKeys (sections : List Section) : List Str :=
  (sections.filter fun s => s.path = ["nodelist".toList, "node".toList]).flatMap fun s => s.keys.keys

def heartbeatLinks (sections : List Section) : Except Err (List ℕ) :=
  -- the group is of ASCII digits, since a key has no others
  match ((nodeKeys sections).filterMap ringOf).mapM Py.natOf with
  | none => .error .valueError
  | some links => .ok (if links = [] then [0] else links.dedup.insertionSort (· ≤ ·))

def totemOf (sections : List Section) : Except Err Section :=
  match sections.filter fun s => s.path = ["totem".toList] with
  | [totem] => .ok totem
  | totems => .error (.totems totems.length)

/-- `str(link)`; a link was read from text, so it is short enough. -/
def linkText (link : ℕ) : Str := Nat.toDigits 10 link

def interfaceOf (totem : Section) (link : ℕ) : Option Section :=
  totem.children.find? fun child =>
    child.name = "interface".toList ∧
      ((child.keys.get? "linknumber".toList).getD (0, "0".toList)).2 = linkText link

def heartbeatValues (token : ℤ) : List (Str × Str) :=
  [("knet_ping_timeout".toList, Py.Conv.textOf (token / 2)),
   ("knet_ping_interval".toList, Py.Conv.textOf (token / 20)),
   ("knet_pong_count".toList, "2".toList)]

/-- The lines of a new block, for the end of the totem section. -/
def interfaceBlock (inner : Str) (link : ℕ) : List Str :=
  [inner ++ "interface \x7b".toList,
   inner ++ defaultIndent ++ "linknumber: ".toList ++ linkText link,
   inner ++ ['}']]

/-- What `_next_edit` does about one link. -/
def editLink (lines : List Str) (totem : Section) (token : ℤ) (link : ℕ) : Option (List Str) :=
  match interfaceOf totem link with
  | none =>
    let inner := childIndent lines totem
    some (lines.take totem.stop ++ interfaceBlock inner link ++ lines.drop totem.stop)
  | some interface => (heartbeatValues token).findSome? fun kv => setKey lines interface kv.1 kv.2

/-- `_next_edit`: the lines after the first missing edit, if there is one. -/
def nextEdit (lines : List Str) (token : ℤ) : Except Err (Option (List Str)) := do
  let sections ← parse lines
  let totem ← totemOf sections
  match setKey lines totem "token".toList (Py.Conv.textOf token) with
  | some edited => .ok (some edited)
  | none =>
    let links ← heartbeatLinks sections
    .ok (links.findSome? (editLink lines totem token))

/-- The loop of `apply_heartbeat`, with so many passes left. -/
def passes (token : ℤ) : ℕ → List Str → Except Err (List Str)
  | 0, _ => .error .notConverged
  | n + 1, lines => do
    match ← nextEdit lines token with
    | none => .ok lines
    | some edited => passes token n edited

def applyHeartbeat (text : Str) (token : ℤ) : Except Err Str := do
  if ¬ (tokenMin ≤ token ∧ token ≤ tokenMax) then .error (.outOfRange token)
  let lines := Py.splitlines text
  let links ← heartbeatLinks (← parse lines)
  let edited ← passes token (2 + 4 * links.length) lines
  .ok (['\n'].intercalate edited ++ ['\n'])

end Heartbeat
end MqResiliency
