/-
# JSON text

What `json.loads` makes of a text, and what `json.dumps` writes. The reader is
an automaton over the characters: a stack of the containers that wait for a
value (`Ctx`), and what is being read (`Mode`). So what it makes of a text
that goes on is what it makes of the rest, from where it stands.

A float is what `Floats` makes of its text. A text that is no JSON and an
integer with too many digits are refused apart (`Fault`), as Python raises
`JSONDecodeError` for the one and a plain `ValueError` for the other. The
escape of half a surrogate pair, which is no character, reads as U+FFFD.
-/
import MqResiliency.Lib.Conv
import MqResiliency.Lib.Regex

namespace MqResiliency
namespace Py

/-! ### Values -/

/-- A value; an object has its members as they stand in the text. -/
inductive Json (F : Type) : Type where
  | null
  | bool (b : Bool)
  | int (n : ℤ)
  | float (x : F)
  | str (s : Str)
  | arr (vs : List (Json F))
  | obj (ps : List (Str × Json F))

/-- What Python makes of the text of a float, and of `NaN`, `Infinity` and `-Infinity`. -/
structure Floats (F : Type) : Type where
  ofText : Str → F
  nan : F
  posInf : F
  negInf : F

/-- Why a text is refused: it is no JSON, or an integer in it is too long. -/
inductive Fault : Type where
  | decode
  | limit
deriving DecidableEq

variable {F : Type}

/-! ### Numbers -/

/-- How far a number is read; `afterFrac` says that it has a fraction. -/
inductive NumPhase : Type where
  | minus
  | zero
  | int
  | dot
  | frac
  | exp (afterFrac : Bool)
  | expSign (afterFrac : Bool)
  | expDigits
deriving DecidableEq

/-- One of `123456789`. -/
def isNonZeroDigit (c : Char) : Bool := c.isDigit ∧ c ≠ '0'

/-- A character that a number goes on with. -/
def numStep : NumPhase → Char → Option NumPhase
  | .minus, c => if c = '0' then some .zero else if isNonZeroDigit c then some .int else none
  | .zero, c => if c = '.' then some .dot else if c = 'e' ∨ c = 'E' then some (.exp false) else none
  | .int, c =>
    if c.isDigit then some .int
    else if c = '.' then some .dot
    else if c = 'e' ∨ c = 'E' then some (.exp false)
    else none
  | .dot, c => if c.isDigit then some .frac else none
  | .frac, c => if c.isDigit then some .frac else if c = 'e' ∨ c = 'E' then some (.exp true) else none
  | .exp b, c => if c.isDigit then some .expDigits else if c = '+' ∨ c = '-' then some (.expSign b) else none
  | .expSign _, c => if c.isDigit then some .expDigits else none
  | .expDigits, c => if c.isDigit then some .expDigits else none

/-- The integer that a text of digits and a sign is. -/
def intOf : Str → Except Fault ℤ
  | '-' :: ds => if ds.length ≤ maxStrDigits then .ok (-(Nat.ofDigitChars 10 ds 0 : ℤ)) else .error .limit
  | ds => if ds.length ≤ maxStrDigits then .ok (Nat.ofDigitChars 10 ds 0 : ℤ) else .error .limit

/-- The number that ends there. What follows an integer and is no fraction or
exponent after all comes after that integer was converted. -/
def numEnd (fl : Floats F) (text : Str) : NumPhase → Except Fault (Json F)
  | .zero | .int => (intOf text).map .int
  | .frac | .expDigits => .ok (.float (fl.ofText text))
  | .dot | .exp false | .expSign false =>
    (intOf (text.takeWhile fun c => c = '-' ∨ c.isDigit)).bind fun _ => .error .decode
  | .minus | .exp true | .expSign true => .error .decode

/-! ### Strings -/

/-- How far an escape in a string is read: the value and the digits missing of
a `\u`, after the first half of a pair or not. -/
inductive TextPhase : Type where
  | plain
  | esc
  | hex (acc missing : ℕ)
  | high (hi : ℕ)
  | highEsc (hi : ℕ)
  | highHex (hi acc missing : ℕ)

/-- Half of a pair stands for no character. -/
def replacement : Char := Char.ofNat 0xfffd

/-- A character by its code point. -/
def charOf (n : ℕ) : Char := if n.isValidChar then Char.ofNat n else replacement

/-- The value of a hexadecimal digit. -/
def hexValue (c : Char) : Option ℕ :=
  if c.isDigit then some (c.toNat - 48)
  else if 'a' ≤ c ∧ c ≤ 'f' then some (c.toNat - 87)
  else if 'A' ≤ c ∧ c ≤ 'F' then some (c.toNat - 55)
  else none

/-- What stands for itself or for a control character after a backslash. -/
def escaped (c : Char) : Option Char :=
  match c with
  | '"' => some '"'
  | '\\' => some '\\'
  | '/' => some '/'
  | 'b' => some (Char.ofNat 8)
  | 'f' => some (Char.ofNat 12)
  | 'n' => some '\n'
  | 'r' => some '\r'
  | 't' => some '\t'
  | _ => none

/-- A string so far: it is closed, or goes on. -/
inductive TextStep : Type where
  | close (s : Str)
  | more (buf : Str) (phase : TextPhase)

/-- What comes of either. -/
def TextStep.elim {α : Type} (close : Str → α) (more : Str → TextPhase → α) : TextStep → α
  | .close s => close s
  | .more buf phase => more buf phase

/-- A `\u` with all its digits. -/
def unicodeEnd (buf : Str) (n : ℕ) : TextStep :=
  if 0xd800 ≤ n ∧ n ≤ 0xdbff then .more buf (.high n) else .more (buf ++ [charOf n]) .plain

/-- A character of a string. -/
def plainStep (buf : Str) (c : Char) : Except Fault TextStep :=
  if c = '"' then .ok (.close buf)
  else if c = '\\' then .ok (.more buf .esc)
  else if c.toNat < 32 then .error .decode
  else .ok (.more (buf ++ [c]) .plain)

/-- A character after a backslash. -/
def escStep (buf : Str) (c : Char) : Except Fault TextStep :=
  if c = 'u' then .ok (.more buf (.hex 0 4))
  else
    match escaped c with
    | some d => .ok (.more (buf ++ [d]) .plain)
    | none => .error .decode

/-- A digit of the second `\u` of a pair, which may be none after all. -/
def pairEnd (buf : Str) (hi n : ℕ) : TextStep :=
  if 0xdc00 ≤ n ∧ n ≤ 0xdfff then .more (buf ++ [charOf (0x10000 + (hi - 0xd800) * 0x400 + (n - 0xdc00))]) .plain
  else unicodeEnd (buf ++ [replacement]) n

/-- A character of a string, wherever it stands in it. -/
def textStep (buf : Str) (phase : TextPhase) (c : Char) : Except Fault TextStep :=
  match phase with
  | .plain => plainStep buf c
  | .esc => escStep buf c
  | .hex acc missing =>
    match hexValue c with
    | none => .error .decode
    | some d => .ok (if missing ≤ 1 then unicodeEnd buf (acc * 16 + d) else .more buf (.hex (acc * 16 + d) (missing - 1)))
  | .high hi => if c = '\\' then .ok (.more buf (.highEsc hi)) else plainStep (buf ++ [replacement]) c
  | .highEsc hi => if c = 'u' then .ok (.more buf (.highHex hi 0 4)) else escStep (buf ++ [replacement]) c
  | .highHex hi acc missing =>
    match hexValue c with
    | none => .error .decode
    | some d =>
      .ok (if missing ≤ 1 then pairEnd buf hi (acc * 16 + d) else .more buf (.highHex hi (acc * 16 + d) (missing - 1)))

/-! ### The automaton -/

/-- A container that waits for a value. -/
inductive Ctx (F : Type) : Type where
  | item (before : List (Json F))
  | member (before : List (Str × Json F)) (key : Str)

/-- A literal. -/
inductive Word : Type where
  | null
  | true
  | false
  | nan
  | infinity
  | negInfinity

def Word.text : Word → Str
  | .null => "null".toList
  | .true => "true".toList
  | .false => "false".toList
  | .nan => "NaN".toList
  | .infinity => "Infinity".toList
  | .negInfinity => "-Infinity".toList

def Word.value (fl : Floats F) : Word → Json F
  | .null => .null
  | .true => .bool Bool.true
  | .false => .bool Bool.false
  | .nan => .float fl.nan
  | .infinity => .float fl.posInf
  | .negInfinity => .float fl.negInf

/-- What is being read in the innermost container; of a literal `seen`
characters are. -/
inductive Mode (F : Type) : Type where
  | value
  | arrOpen
  | afterItem (vs : List (Json F))
  | objOpen
  | nextKey (ps : List (Str × Json F))
  | colon (ps : List (Str × Json F)) (key : Str)
  | afterMember (ps : List (Str × Json F))
  | done (v : Json F)
  | word (w : Word) (seen : ℕ)
  | num (text : Str) (phase : NumPhase)
  | text (buf : Str) (phase : TextPhase)
  | keyText (ps : List (Str × Json F)) (buf : Str) (phase : TextPhase)

structure Reader (F : Type) : Type where
  stack : List (Ctx F)
  mode : Mode F

/-- A value is complete. -/
def complete (stack : List (Ctx F)) (v : Json F) : Reader F :=
  match stack with
  | [] => ⟨[], .done v⟩
  | .item vs :: more => ⟨more, .afterItem (vs ++ [v])⟩
  | .member ps key :: more => ⟨more, .afterMember (ps ++ [(key, v)])⟩

/-- JSON's white space. -/
def isJsonSpace (c : Char) : Bool := c = ' ' ∨ c = '\t' ∨ c = '\n' ∨ c = '\r'

/-- The first character of a value. -/
def startValue (stack : List (Ctx F)) (c : Char) : Except Fault (Reader F) :=
  if c = '"' then .ok ⟨stack, .text [] .plain⟩
  else if c = '{' then .ok ⟨stack, .objOpen⟩
  else if c = '[' then .ok ⟨stack, .arrOpen⟩
  else if c = 'n' then .ok ⟨stack, .word .null 1⟩
  else if c = 't' then .ok ⟨stack, .word .true 1⟩
  else if c = 'f' then .ok ⟨stack, .word .false 1⟩
  else if c = 'N' then .ok ⟨stack, .word .nan 1⟩
  else if c = 'I' then .ok ⟨stack, .word .infinity 1⟩
  else if c = '-' then .ok ⟨stack, .num [c] .minus⟩
  else if c = '0' then .ok ⟨stack, .num [c] .zero⟩
  else if isNonZeroDigit c then .ok ⟨stack, .num [c] .int⟩
  else .error .decode

/-- A character between the tokens. -/
def between (r : Reader F) (c : Char) : Except Fault (Reader F) :=
  if isJsonSpace c then .ok r
  else
    match r.mode with
    | .value => startValue r.stack c
    | .arrOpen => if c = ']' then .ok (complete r.stack (.arr [])) else startValue (.item [] :: r.stack) c
    | .afterItem vs =>
      if c = ',' then .ok ⟨.item vs :: r.stack, .value⟩
      else if c = ']' then .ok (complete r.stack (.arr vs))
      else .error .decode
    | .objOpen =>
      if c = '"' then .ok ⟨r.stack, .keyText [] [] .plain⟩
      else if c = '}' then .ok (complete r.stack (.obj []))
      else .error .decode
    | .nextKey ps => if c = '"' then .ok ⟨r.stack, .keyText ps [] .plain⟩ else .error .decode
    | .colon ps key => if c = ':' then .ok ⟨.member ps key :: r.stack, .value⟩ else .error .decode
    | .afterMember ps =>
      if c = ',' then .ok ⟨r.stack, .nextKey ps⟩
      else if c = '}' then .ok (complete r.stack (.obj ps))
      else .error .decode
    | _ => .error .decode

/-- One character. -/
def Reader.step (fl : Floats F) (r : Reader F) (c : Char) : Except Fault (Reader F) :=
  match r.mode with
  | .word w seen =>
    if w.text[seen]? = some c then
      .ok (if seen + 1 = w.text.length then complete r.stack (w.value fl) else ⟨r.stack, .word w (seen + 1)⟩)
    else .error .decode
  | .num text phase =>
    if phase = .minus ∧ c = 'I' then .ok ⟨r.stack, .word .negInfinity 2⟩
    else
      match numStep phase c with
      | some phase' => .ok ⟨r.stack, .num (text ++ [c]) phase'⟩
      | none => (numEnd fl text phase).bind fun v => between (complete r.stack v) c
  | .text buf phase =>
    (textStep buf phase c).map (TextStep.elim (fun s => complete r.stack (.str s)) fun b p => ⟨r.stack, .text b p⟩)
  | .keyText ps buf phase =>
    (textStep buf phase c).map (TextStep.elim (fun s => ⟨r.stack, .colon ps s⟩) fun b p => ⟨r.stack, .keyText ps b p⟩)
  | _ => between r c

/-- Some characters. -/
def Reader.run (fl : Floats F) (r : Reader F) (s : Str) : Except Fault (Reader F) := s.foldlM (Reader.step fl) r

/-- The text ends there. -/
def Reader.finish (fl : Floats F) (r : Reader F) : Except Fault (Json F) :=
  match r.mode with
  | .done v => .ok v
  | .num text phase => (numEnd fl text phase).bind fun v => if r.stack.isEmpty then .ok v else .error .decode
  | _ => .error .decode

/-- `json.loads(s)`. -/
def loads (fl : Floats F) (s : Str) : Except Fault (Json F) :=
  (Reader.run fl ⟨[], .value⟩ s).bind (Reader.finish fl)

/-- The containers that are open. -/
def Reader.nesting (r : Reader F) : ℕ := r.stack.length + match r.mode with
  | .arrOpen | .afterItem _ | .objOpen | .nextKey _ | .colon _ _ | .afterMember _ | .keyText _ _ _ => 1
  | _ => 0

/-- The most of them at once, up to where the text is refused. -/
def Reader.deepest (fl : Floats F) (r : Reader F) : Str → ℕ
  | [] => r.nesting
  | c :: s => max r.nesting (match r.step fl c with
    | .ok r' => r'.deepest fl s
    | .error _ => 0)

/-! ### Writing -/

/-- `'{0:04x}'`. -/
def hex4 (n : ℕ) : Str :=
  [Nat.digitChar (n / 4096 % 16), Nat.digitChar (n / 256 % 16), Nat.digitChar (n / 16 % 16), Nat.digitChar (n % 16)]

/-- A `\u` escape. -/
def unicodeEscape (n : ℕ) : Str := '\\' :: 'u' :: hex4 n

/-- A character as `json.dumps` writes it, in ASCII. -/
def quotedChar (c : Char) : Str :=
  match c with
  | '"' => ['\\', '"']
  | '\\' => ['\\', '\\']
  | '\n' => ['\\', 'n']
  | '\r' => ['\\', 'r']
  | '\t' => ['\\', 't']
  | _ =>
    if c.toNat = 12 then ['\\', 'f']
    else if c.toNat = 8 then ['\\', 'b']
    else if 32 ≤ c.toNat ∧ c.toNat ≤ 126 then [c]
    else if c.toNat < 0x10000 then unicodeEscape c.toNat
    else
      unicodeEscape (0xd800 + (c.toNat - 0x10000) / 0x400) ++ unicodeEscape (0xdc00 + (c.toNat - 0x10000) % 0x400)

/-- A string as `json.dumps` writes it. -/
def quoted (s : Str) : Str := '"' :: s.flatMap quotedChar ++ ['"']

/-- A member of an object: its key, and the text of its value. -/
def memberText (m : Str × Str) : Str := quoted m.1 ++ ": ".toList ++ m.2

/-- An object as `json.dumps` writes it: `indent` stands before each member,
`sep` between two after the comma, `closing` before the brace. -/
def objText (indent sep closing : Str) (ms : List (Str × Str)) : Str :=
  '{' :: indent ++ (',' :: sep).intercalate (ms.map memberText) ++ closing ++ ['}']

end Py
end MqResiliency
