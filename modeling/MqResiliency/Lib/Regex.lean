/-
# Regular expressions

Python's `re` over a text of characters, on the constructs that patterns for
status output use: characters by a predicate, `^` at line starts, greedy and
lazy repetition, one group. `ends` lists where a match may end, in the
order the backtracking engine tries them, so its head is the engine's match;
`findall` takes the matches from left to right, each after the one before.
-/
import MqResiliency.Lib.Text

namespace MqResiliency
open Py (Str)

/-- A pattern. -/
inductive Re : Type where
  | eps
  | char (p : Char → Bool)
  /-- `^` under `(?m)`. -/
  | bol
  | seq (a b : Re)
  | alt (a b : Re)
  /-- `a*`, or `a*?` if not `greedy`. -/
  | star (greedy : Bool) (a : Re)
  /-- `(a)`. -/
  | group (a : Re)

namespace Re

/-- A place in the text: the character before it, the text from it on, and
what the group holds. -/
structure At : Type where
  prev : Option Char
  rest : Str
  held : Option Str
deriving DecidableEq

/-- The ends of up to `n` repetitions that each consume something. -/
def iter (greedy : Bool) (ends : At → List At) : ℕ → At → List At
  | 0, s => [s]
  | n + 1, s =>
    let more := ((ends s).filter (·.rest.length < s.rest.length)).flatMap (iter greedy ends n)
    if greedy then more ++ [s] else s :: more

/-- Where a match from `s` may end, the engine's own choice first. -/
def ends : Re → At → List At
  | eps, s => [s]
  | char p, s =>
    match s.rest with
    | c :: t => if p c then [{ s with prev := some c, rest := t }] else []
    | [] => []
  | bol, s => if s.prev = none ∨ s.prev = some '\n' then [s] else []
  | seq a b, s => (a.ends s).flatMap b.ends
  | alt a b, s => a.ends s ++ b.ends s
  | star greedy a, s => iter greedy a.ends s.rest.length s
  | group a, s => (a.ends s).map fun e =>
      { e with held := some (s.rest.take (s.rest.length - e.rest.length)) }

/-! ### Patterns built from these -/

/-- A literal text. -/
def lit (s : Str) : Re := s.foldr (fun c r => seq (char (· == c)) r) eps

/-- Patterns one after the other. -/
def seqs (rs : List Re) : Re := rs.foldr seq eps

/-- `a+`. -/
def plus (a : Re) : Re := seq a (star true a)

/-- `a+?`. -/
def plusLazy (a : Re) : Re := seq a (star false a)

/-- `a?`. -/
def opt (a : Re) : Re := alt a eps

/-- `[^…]`. -/
def noneOf (cs : Str) : Re := char fun c => !cs.contains c

/-- `.`. -/
def dot : Re := char (· != '\n')

/-- `\d`. -/
def digit : Re := char fun c => (Py.decimal c).isSome

/-- `\s`, and what `str.split()` splits at. -/
def isSpace (c : Char) : Bool :=
  Py.isAsciiSpace c ∨ (28 ≤ c.toNat ∧ c.toNat ≤ 31) ∨ Py.isWideSpace c

/-- `\S`. -/
def nonSpace : Re := char fun c => !isSpace c

/-- `\w`, for a table `alnum` of the alphanumerics beyond ASCII. -/
def word (alnum : Char → Bool) : Re :=
  char fun c => c.isAlphanum ∨ c = '_' ∨ (128 ≤ c.toNat ∧ alnum c)

/-! ### Searching -/

/-- The match at this place; a `strict` one has to consume something. -/
def matchAt (r : Re) (strict : Bool) (prev : Option Char) (s : Str) : Option At :=
  (r.ends ⟨prev, s, none⟩).find? fun e => !strict ∨ e.rest.length < s.length

/-- The first match from here on: where it starts, and its end. -/
def searchFrom (r : Re) : Bool → Option Char → Str → Option (Str × At)
  | strict, prev, [] => (r.matchAt strict prev []).map ([], ·)
  | strict, prev, c :: t =>
    match r.matchAt strict prev (c :: t) with
    | some e => some (c :: t, e)
    | none => r.searchFrom false (some c) t

/-- `re.search(r, s)` finds a match. -/
def search (r : Re) (s : Str) : Bool := (r.searchFrom false none s).isSome

/-- The group of each match from here on; after an empty match the next one
here is not empty. -/
def groupsFrom (r : Re) : ℕ → Bool → Option Char → Str → List Str
  | 0, _, _, _ => []
  | n + 1, strict, prev, s =>
    match r.searchFrom strict prev s with
    | none => []
    | some (start, e) =>
      e.held.getD [] :: r.groupsFrom n (e.rest.length == start.length) e.prev e.rest

/-- `re.findall(r, s)` of a pattern with one group. -/
def findall (r : Re) (s : Str) : List Str := r.groupsFrom (2 * s.length + 2) false none s

end Re

namespace Py

/-- `s.split()`. -/
def words (s : Str) : List Str := (s.splitOnP Re.isSpace).filter (· ≠ [])

/-- `s.strip()`. -/
def trim (s : Str) : Str := (s.dropWhile Re.isSpace).rdropWhile Re.isSpace

/-- Where `str.splitlines` ends a line. -/
def isLineBreak (c : Char) : Bool :=
  c = '\n' ∨ c = '\r' ∨ (11 ≤ c.toNat ∧ c.toNat ≤ 12) ∨ (28 ≤ c.toNat ∧ c.toNat ≤ 30) ∨
    c.toNat = 0x85 ∨ c.toNat = 0x2028 ∨ c.toNat = 0x2029

/-- The lines of a text that goes on with `s` after `cur`; after a `\r` (`cr`)
a `\n` belongs to the same line break. -/
def linesFrom : (cr : Bool) → (cur : Str) → Str → List Str
  | _, cur, [] => if cur = [] then [] else [cur]
  | cr, cur, c :: s =>
    if cr ∧ c = '\n' then linesFrom false cur s
    else if isLineBreak c then cur :: linesFrom (c = '\r') [] s
    else linesFrom false (cur ++ [c]) s

/-- `s.splitlines()`. -/
def splitlines (s : Str) : List Str := linesFrom false [] s

end Py
end MqResiliency
