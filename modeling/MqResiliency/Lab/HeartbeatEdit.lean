/-
# The heartbeat edits as repairs of trees

`_set_key` and the new interface block as changes of what the totem section
holds (`put`, `ensure`), and the checks that a pass makes, in its order
(`places`), each with its change (`repairs`).
-/
import MqResiliency.Lab.HeartbeatForest
import MqResiliency.Lib.Repairs

namespace MqResiliency
namespace Heartbeat

open Item
open Py (Str Dict)

/-! ### Lines that the edit writes -/

/-- Only spaces. -/
def Blank (s : Str) : Prop := ∀ c ∈ s, Re.isSpace c

/-- `[A-Za-z0-9_.-]+`. -/
def IsName (s : Str) : Prop := s ≠ [] ∧ ∀ c ∈ s, isNameChar c

/-- No line break is in the text. -/
def Unbroken (s : Str) : Prop := ∀ c ∈ s, Py.isLineBreak c = false

theorem isSpace_of_isNameChar {c : Char} (h : isNameChar c) : Re.isSpace c = false := by
  have hrange : 45 ≤ c.toNat ∧ c.toNat ≤ 122 := by
    have hkind : c.isAlphanum ∨ c = '_' ∨ c = '.' ∨ c = '-' := of_decide_eq_true h
    rcases hkind with hkind | rfl | rfl | rfl
    · exact (Py.isAlphanum_range hkind).imp_left (le_trans (by decide))
    all_goals decide
  have hspace : c ≠ ' ' := by
    rintro rfl
    exact absurd hrange.1 (by decide)
  simp only [Re.isSpace, Py.isAsciiSpace, Py.isWideSpace, List.mem_cons, List.not_mem_nil, or_false, hspace, false_or,
    Bool.decide_or, Bool.or_eq_false_iff, decide_eq_false_iff_not]
  simp
  omega

theorem isSpace_of_isLineBreak {c : Char} (h : Py.isLineBreak c) : Re.isSpace c := by
  simp only [Py.isLineBreak, decide_eq_true_eq] at h
  simp only [Re.isSpace, Py.isAsciiSpace, Py.isWideSpace, List.mem_cons, List.not_mem_nil, or_false, Bool.decide_or,
    Bool.or_eq_true, decide_eq_true_eq]
  rcases h with rfl | rfl | h | h | h | h | h
  · decide
  · decide
  all_goals omega

theorem unbroken_of_isName {s : Str} (h : ∀ c ∈ s, isNameChar c) : Unbroken s := by
  intro c hc
  by_contra hbreak
  rw [Bool.not_eq_false] at hbreak
  exact absurd (isSpace_of_isLineBreak hbreak) (by rw [isSpace_of_isNameChar (h c hc)]; simp)

theorem trim_of_isName {s : Str} (h : ∀ c ∈ s, isNameChar c) : Py.trim s = s := by
  have hdrop : s.dropWhile Re.isSpace = s := by
    refine List.dropWhile_eq_self_iff.mpr fun hs => ?_
    rw [isSpace_of_isNameChar (h _ (List.getElem_mem hs))]
    simp
  rw [Py.trim, hdrop]
  refine List.rdropWhile_eq_self_iff.mpr fun hs => ?_
  rw [isSpace_of_isNameChar (h _ (List.getLast_mem hs))]
  simp

theorem trim_append_of_blank {indent : Str} (h : Blank indent) (s : Str) : Py.trim (indent ++ s) = Py.trim s := by
  rw [Py.trim, List.dropWhile_append_of_pos h, Py.trim]

theorem kindOf_append_of_blank {indent : Str} (h : Blank indent) (s : Str) : kindOf (indent ++ s) = kindOf s := by
  have hnamed : named (indent ++ s) = named s := by rw [named, List.dropWhile_append_of_pos h, named]
  have hopened : opened (indent ++ s) = opened s := by simp only [opened, hnamed]
  have hclosed : closed (indent ++ s) = closed s := by simp only [closed, trim_append_of_blank h]
  have hkeyed : keyed (indent ++ s) = keyed s := by simp only [keyed, hnamed]
  rw [kindOf, trim_append_of_blank h, hopened, hclosed, hkeyed, kindOf]

/-- What a line starts with stays when it is stripped. -/
theorem head?_trim {c : Char} (hc : Re.isSpace c = false) (s : Str) : (Py.trim (c :: s)).head? = some c := by
  have hdrop : (c :: s).dropWhile Re.isSpace = c :: s := List.dropWhile_cons_of_neg (by simp [hc])
  have hne : Py.trim (c :: s) ≠ [] := fun h => by
    rw [Py.trim_eq_nil.mp h c List.mem_cons_self] at hc
    cases hc
  obtain ⟨t, ht⟩ : Py.trim (c :: s) <+: c :: s := by
    rw [Py.trim, hdrop]
    exact List.rdropWhile_prefix _ _
  cases htrim : Py.trim (c :: s) with
  | nil => exact absurd htrim hne
  | cons d u =>
    rw [htrim] at ht
    rw [List.head?_cons, (List.cons.inj ht).1]

theorem named_append {name rest : Str} (hname : IsName name) (hrest : ∀ c t, rest = c :: t → isNameChar c = false) :
    named (name ++ rest) = (name, rest) := by
  have hspace : (name ++ rest).dropWhile Re.isSpace = name ++ rest := by
    obtain ⟨c, t, rfl⟩ := List.exists_cons_of_ne_nil hname.1
    have hc := isSpace_of_isNameChar (hname.2 c List.mem_cons_self)
    exact List.dropWhile_cons_of_neg (by simp [hc])
  have hstop : rest.takeWhile isNameChar = [] ∧ rest.dropWhile isNameChar = rest := by
    cases rest with
    | nil => exact ⟨rfl, rfl⟩
    | cons c t => simp [hrest c t rfl]
  rw [named, hspace, List.span_eq_takeWhile_dropWhile, List.takeWhile_append_of_pos hname.2,
    List.dropWhile_append_of_pos hname.2, hstop.1, hstop.2, List.append_nil]

/-- A line that is written is read as what was written. -/
theorem kindOf_keyLine {indent key value : Str} (hindent : Blank indent) (hkey : IsName key)
    (hvalue : ∀ c ∈ value, isNameChar c) : kindOf (keyLine indent key value) = .key key value := by
  have hnamed : named (key ++ ':' :: ' ' :: value) = (key, ':' :: ' ' :: value) := by
    refine named_append hkey fun c t h => ?_
    rw [← (List.cons.inj h).1]
    rfl
  obtain ⟨d, t, hd⟩ := List.exists_cons_of_ne_nil hkey.1
  have hname : isNameChar d := hkey.2 d (hd ▸ List.mem_cons_self)
  have hhead : (Py.trim (key ++ ':' :: ' ' :: value)).head? = some d := by
    rw [hd]
    exact head?_trim (isSpace_of_isNameChar hname) _
  have hopened : opened (key ++ ':' :: ' ' :: value) = none := by
    have hrest : Py.trim (':' :: ' ' :: value) ≠ ['{'] := fun h => by
      have hcolon := head?_trim (c := ':') rfl (' ' :: value)
      rw [h] at hcolon
      exact absurd hcolon (by decide)
    simp [opened, hnamed, hrest]
  have hclosed : closed (key ++ ':' :: ' ' :: value) = false := by
    refine decide_eq_false fun h => ?_
    rw [h] at hhead
    obtain rfl : '}' = d := Option.some.inj hhead
    exact absurd hname (by decide)
  have hkeyed : keyed (key ++ ':' :: ' ' :: value) = some (key, value) := by
    have hspace : Blank [' '] := by simp [Blank, Re.isSpace, Py.isAsciiSpace]
    have htrim : Py.trim (' ' :: value) = value := by
      rw [← List.singleton_append, trim_append_of_blank hspace, trim_of_isName hvalue]
    have hcolon : (':' :: ' ' :: value).dropWhile Re.isSpace = ':' :: ' ' :: value :=
      List.dropWhile_cons_of_neg (by decide)
    simp only [keyed, hnamed, hcolon, htrim]
    rw [if_pos hkey.1]
  have hfirst : ¬ (Py.trim (key ++ ':' :: ' ' :: value) = [] ∨
      (Py.trim (key ++ ':' :: ' ' :: value)).head? = some '#') := by
    rintro (h | h)
    · simp [h] at hhead
    · rw [hhead] at h
      obtain rfl : d = '#' := Option.some.inj h
      exact absurd hname (by decide)
  rw [keyLine, List.append_assoc, kindOf_append_of_blank hindent, kindOf]
  simp only [hfirst, if_false, hopened, hclosed, hkeyed]
  simp

theorem blank_indentOf (line : Str) : Blank (indentOf line) := fun _ hc => List.mem_takeWhile_imp hc

/-- The indent of a line that is written is the one it was written with. -/
theorem indentOf_keyLine {indent key : Str} (hindent : Blank indent) (hkey : IsName key) (value : Str) :
    indentOf (keyLine indent key value) = indent := by
  obtain ⟨d, t, rfl⟩ := List.exists_cons_of_ne_nil hkey.1
  have hd := isSpace_of_isNameChar (hkey.2 d List.mem_cons_self)
  rw [indentOf, keyLine, List.append_assoc, List.takeWhile_append_of_pos hindent]
  simp [hd]

theorem unbroken_keyLine {indent key value : Str} (hindent : Unbroken indent) (hkey : IsName key)
    (hvalue : ∀ c ∈ value, isNameChar c) : Unbroken (keyLine indent key value) := by
  intro c hc
  simp only [keyLine, List.mem_append, List.mem_cons] at hc
  rcases hc with (hc | hc) | rfl | rfl | hc
  · exact hindent c hc
  · exact unbroken_of_isName hkey.2 c hc
  · rfl
  · rfl
  · exact unbroken_of_isName hvalue c hc

theorem unbroken_indentOf {line : Str} (h : Unbroken line) : Unbroken (indentOf line) :=
  fun c hc => h c ((List.takeWhile_sublist _).mem hc)

/-! ### Setting a key -/

/-- The indent of the first line inside that is not blank, or one step past the opening line's. -/
def indentIn (opening : Str) (inner : List (Item Str)) : Str :=
  match (flat inner).find? fun line => Py.trim line ≠ [] with
  | some line => indentOf line
  | none => indentOf opening ++ defaultIndent

def itemValue : Item Str → Str
  | leaf line => lineValue line
  | node .. => []

/-- The value of a key among the items. -/
def valueIn (key : Str) (inner : List (Item Str)) : Option Str := (inner.find? (isKey key)).map itemValue

/-- The line of a key with the value. -/
def respell (key value : Str) : Item Str → Item Str
  | leaf line => leaf (if lineValue line = value then line else keyLine (indentOf line) key value)
  | x => x

/-- What a section holds when the key is set in it. -/
def put (opening key value : Str) (inner : List (Item Str)) : List (Item Str) :=
  if (inner.find? (isKey key)).isSome then modifyFirst (isKey key) (respell key value) inner
  else inner ++ [leaf (keyLine (indentIn opening inner) key value)]

theorem insertIdx_length_append {α : Type} (a : α) (ys : List α) : ∀ xs : List α,
    (xs ++ ys).insertIdx xs.length a = xs ++ a :: ys
  | [] => rfl
  | x :: xs => by
    rw [List.cons_append, List.length_cons, List.insertIdx_succ_cons, insertIdx_length_append a ys xs, List.cons_append]

/-- Where the key's first line is. -/
theorem exists_keyLine {key : Str} {inner : List (Item Str)} {x : Item Str} (h : inner.find? (isKey key) = some x) :
    ∃ pre line post, inner = pre ++ leaf line :: post ∧ x = leaf line ∧ isKey key (leaf line) ∧
      pre.find? (isKey key) = none := by
  obtain ⟨hx, pre, post, heq, hpre⟩ := List.find?_eq_some_iff_append.mp h
  cases x with
  | leaf line => exact ⟨pre, line, post, heq, rfl, hx, List.find?_eq_none.mpr fun y hy => by simpa using hpre y hy⟩
  | node o is c => cases hx

section
variable (before after : List Str) (path : List Str) (o c : Str) (inner : List (Item Str))

theorem childIndent_nodeSection :
    childIndent (before ++ o :: (flat inner ++ c :: after)) (nodeSection path before.length o inner) =
      indentIn o inner := by
  have hinner : ((before ++ o :: (flat inner ++ c :: after)).drop (before.length + 1)).take
      (before.length + 1 + (flat inner).length - (before.length + 1)) = flat inner := by
    have hdrop : (before ++ o :: (flat inner ++ c :: after)).drop (before.length + 1) = flat inner ++ c :: after := by
      rw [List.append_cons, List.drop_left' (by simp)]
    rw [hdrop, Nat.add_sub_cancel_left]
    simp
  have hstart : (before ++ o :: (flat inner ++ c :: after)).getD before.length [] = o := by simp
  unfold childIndent
  simp only [nodeSection]
  rw [hinner, hstart]
  rfl

/-- **`_set_key` sets the key in the section.** -/
theorem setKey_nodeSection (key value : Str) :
    setKey (before ++ o :: (flat inner ++ c :: after)) (nodeSection path before.length o inner) key value =
      if valueIn key inner = some value then none
      else some (before ++ o :: (flat (put o key value inner) ++ c :: after)) := by
  cases hfind : inner.find? (isKey key) with
  | none =>
    have hget : (nodeSection path before.length o inner).keys.get? key = none :=
      get?_keysFrom_of_find? _ _ hfind
    have hvalue : valueIn key inner = none := by rw [valueIn, hfind, Option.map_none]
    have hstop : (nodeSection path before.length o inner).stop = (before ++ o :: flat inner).length := by
      simp only [nodeSection, List.length_append, List.length_cons]
      omega
    have hassoc : before ++ o :: (flat inner ++ c :: after) = (before ++ o :: flat inner) ++ c :: after := by simp
    unfold setKey
    rw [hget, hvalue, if_neg (by simp), childIndent_nodeSection before after path o c inner, hstop, hassoc,
      insertIdx_length_append, put, hfind]
    simp
  | some x =>
    obtain ⟨pre, line, post, rfl, rfl, hline, hpre⟩ := exists_keyLine hfind
    have hget : (nodeSection path before.length o (pre ++ leaf line :: post)).keys.get? key =
        some ((before ++ o :: flat pre).length, lineValue line) := by
      have hfound : (keysFrom (before.length + 1) (pre ++ leaf line :: post) .empty).get? key =
          some (before.length + 1 + (flat pre).length, lineValue line) :=
        get?_keysFrom hpre hline (Dict.get?_empty key)
      rw [List.length_append, List.length_cons, nodeSection, hfound]
      congr 2
      omega
    have hvalue : valueIn key (pre ++ leaf line :: post) = some (lineValue line) := by
      rw [valueIn, hfind, Option.map_some, itemValue]
    have hassoc : before ++ o :: (flat (pre ++ leaf line :: post) ++ c :: after) =
        (before ++ o :: flat pre) ++ line :: (flat post ++ c :: after) := by simp
    have hline' : (before ++ o :: (flat (pre ++ leaf line :: post) ++ c :: after)).getD
        (before ++ o :: flat pre).length [] = line := by
      rw [hassoc, List.getD_eq_getElem?_getD, List.getElem?_append_right le_rfl, Nat.sub_self]
      rfl
    have hmodify : modifyFirst (isKey key) (respell key value) (pre ++ leaf line :: post) =
        pre ++ respell key value (leaf line) :: post := by
      rw [modifyFirst_append _ hpre, modifyFirst, if_pos hline]
    unfold setKey
    rw [hget, hvalue]
    simp only [Option.some.injEq]
    split
    · rfl
    · rename_i hne
      rw [hline', put, hfind, Option.isSome_some, if_pos rfl, hmodify, respell, if_neg hne, hassoc,
        List.set_append_right _ _ le_rfl, Nat.sub_self, List.set_cons_zero]
      simp

end

/-! ### What setting a key keeps -/

section
variable {key value : Str}

theorem find?_append_leaf {key' : Str} {inner : List (Item Str)} {line : Str} :
    (inner ++ [leaf line]).find? (isKey key') =
      (inner.find? (isKey key')).or (if isKey key' (leaf line) then some (leaf line) else none) := by
  rw [List.find?_append, List.find?_singleton]

theorem isKey_keyLine {indent : Str} (hindent : Blank indent) (hkey : IsName key) (hvalue : ∀ c ∈ value, isNameChar c)
    (key' : Str) : isKey key' (leaf (keyLine indent key value)) ↔ key = key' := by
  have hread : keyOf (keyLine indent key value) = some (key, value) :=
    keyOf_eq_some.mpr (kindOf_keyLine hindent hkey hvalue)
  simp [isKey, hread]

theorem lineValue_keyLine {indent : Str} (hindent : Blank indent) (hkey : IsName key)
    (hvalue : ∀ c ∈ value, isNameChar c) : lineValue (keyLine indent key value) = value := by
  have hread : keyOf (keyLine indent key value) = some (key, value) :=
    keyOf_eq_some.mpr (kindOf_keyLine hindent hkey hvalue)
  simp [lineValue, hread]

theorem blank_indentIn (o : Str) (inner : List (Item Str)) : Blank (indentIn o inner) := by
  unfold indentIn
  split
  · exact blank_indentOf _
  · intro c hc
    rcases List.mem_append.mp hc with hc | hc
    · exact blank_indentOf _ c hc
    · have hspace : ∀ c ∈ defaultIndent, Re.isSpace c := by decide
      exact hspace c hc

/-- A line of another key is not one of this. -/
theorem isKey_of_ne {key' : Str} (hne : key ≠ key') {x : Item Str} (h : isKey key x) : isKey key' x = false := by
  cases x with
  | node o is c => rfl
  | leaf line => simp [isKey, isKey_leaf.mp h, hne]

theorem isKey_respell (hkey : IsName key) (hvalue : ∀ c ∈ value, isNameChar c) {x : Item Str} (h : isKey key x) :
    isKey key (respell key value x) ∧ itemValue (respell key value x) = value := by
  cases x with
  | node o is c => cases h
  | leaf line =>
    rw [respell]
    split
    · rename_i heq
      exact ⟨h, heq⟩
    · exact ⟨(isKey_keyLine (blank_indentOf line) hkey hvalue key).mpr rfl,
        lineValue_keyLine (blank_indentOf line) hkey hvalue⟩

/-- **A key that was set has its value.** -/
theorem valueIn_put (hkey : IsName key) (hvalue : ∀ c ∈ value, isNameChar c) (o : Str) (inner : List (Item Str)) :
    valueIn key (put o key value inner) = some value := by
  unfold put
  split
  · rename_i hfind
    obtain ⟨x, hx⟩ := Option.isSome_iff_exists.mp hfind
    have hkeep : ∀ y, isKey key y → isKey key (respell key value y) := fun y hy => (isKey_respell hkey hvalue hy).1
    rw [valueIn, find?_modifyFirst hkeep, hx, Option.map_some, Option.map_some,
      (isKey_respell hkey hvalue (List.find?_some hx)).2]
  · rename_i hfind
    have hblank := blank_indentIn o inner
    have hnone : inner.find? (isKey key) = none := by simpa using hfind
    rw [valueIn, find?_append_leaf, hnone, Option.none_or, if_pos ((isKey_keyLine hblank hkey hvalue key).mpr rfl),
      Option.map_some, itemValue, lineValue_keyLine hblank hkey hvalue]

/-- What is not a line of the key is not touched. -/
theorem find?_put {p : Item Str → Bool} (hkey : IsName key) (hvalue : ∀ c ∈ value, isNameChar c)
    (hp : ∀ x, isKey key x → p x = false) (o : Str) (inner : List (Item Str)) :
    (put o key value inner).find? p = inner.find? p := by
  have hnew : ∀ {indent : Str}, Blank indent → p (leaf (keyLine indent key value)) = false := fun hindent =>
    hp _ ((isKey_keyLine hindent hkey hvalue key).mpr rfl)
  unfold put
  split
  · refine find?_modifyFirst_of_disjoint (fun x hx => ⟨hp x hx, ?_⟩) inner
    exact hp _ (isKey_respell hkey hvalue hx).1
  · rw [List.find?_append, List.find?_singleton, if_neg (by simp [hnew (blank_indentIn o inner)]), Option.or_none]

theorem put_of_valueIn {o : Str} {inner : List (Item Str)} (h : valueIn key inner = some value) :
    put o key value inner = inner := by
  obtain ⟨x, hx, hval⟩ := Option.map_eq_some_iff.mp h
  rw [put, hx, Option.isSome_some, if_pos rfl]
  refine modifyFirst_eq_self fun y hy => ?_
  obtain rfl : x = y := Option.some.inj (hx.symm.trans hy)
  cases x with
  | node o is c => rfl
  | leaf line =>
    have hval' : lineValue line = value := hval
    rw [respell, if_pos hval']

end

/-! ### Interface blocks -/

/-- What a section holds. -/
def itemInner : Item Str → List (Item Str)
  | leaf _ => []
  | node _ inner _ => inner

/-- The item is an interface block of the link. -/
def isInterface (link : ℕ) : Item Str → Bool
  | leaf _ => false
  | node o inner _ => nameOf o = some "interface".toList ∧
      (valueIn "linknumber".toList inner).getD "0".toList = linkText link

/-- A new interface block. -/
def newInterface (indent : Str) (link : ℕ) : Item Str :=
  node (indent ++ "interface \x7b".toList)
    [leaf (keyLine (indent ++ defaultIndent) "linknumber".toList (linkText link))] (indent ++ ['}'])

/-- What the totem section holds when the link has a block in it. -/
def ensure (o : Str) (link : ℕ) (inner : List (Item Str)) : List (Item Str) :=
  if (inner.find? (isInterface link)).isSome then inner else inner ++ [newInterface (indentIn o inner) link]

/-- The key set in a block. -/
def putIn (key value : Str) : Item Str → Item Str
  | node o inner c => node o (put o key value inner) c
  | x => x

theorem isNameChar_of_isDigit {c : Char} (h : c.isDigit) : isNameChar c := by
  simp [isNameChar, Char.isAlphanum, h]

theorem isNameChar_linkText (link : ℕ) : ∀ c ∈ linkText link, isNameChar c :=
  fun c hc => isNameChar_of_isDigit (Py.isDigit_toDigits link c hc)

theorem isNameChar_textOf (n : ℤ) : ∀ c ∈ Py.Conv.textOf n, isNameChar c := by
  intro c hc
  unfold Py.Conv.textOf at hc
  split at hc
  · rcases List.mem_cons.mp hc with rfl | hc
    · decide
    · exact isNameChar_of_isDigit (Py.isDigit_toDigits _ c hc)
  · exact isNameChar_of_isDigit (Py.isDigit_toDigits _ c hc)

theorem linkText_injective {a b : ℕ} (h : linkText a = linkText b) : a = b := by
  have hread := congrArg (fun s => Nat.ofDigitChars 10 s 0) h
  simpa [linkText, Nat.ofDigitChars_ten_toDigits] using hread

theorem isName_linknumber : IsName "linknumber".toList := ⟨by decide, by decide⟩

section
variable {indent : Str} (hindent : Blank indent)
include hindent

theorem kindOf_interface : kindOf (indent ++ "interface \x7b".toList) = .opening "interface".toList := by
  rw [kindOf_append_of_blank hindent]
  decide +kernel

theorem kindOf_end : kindOf (indent ++ ['}']) = .closing := by
  rw [kindOf_append_of_blank hindent]
  decide +kernel

theorem blank_deeper : Blank (indent ++ defaultIndent) := by
  intro c hc
  rcases List.mem_append.mp hc with hc | hc
  · exact hindent c hc
  · have hspace : ∀ c ∈ defaultIndent, Re.isSpace c := by decide
    exact hspace c hc

theorem isInterface_newInterface (link link' : ℕ) : isInterface link' (newInterface indent link) ↔ link = link' := by
  have hname := nameOf_eq_some.mpr (kindOf_interface hindent)
  have hblank := blank_deeper hindent
  have hkey : isKey "linknumber".toList
      (leaf (keyLine (indent ++ defaultIndent) "linknumber".toList (linkText link))) :=
    (isKey_keyLine hblank isName_linknumber (isNameChar_linkText link) _).mpr rfl
  have hvalue : valueIn "linknumber".toList
      [leaf (keyLine (indent ++ defaultIndent) "linknumber".toList (linkText link))] = some (linkText link) := by
    rw [valueIn, List.find?_singleton, if_pos hkey, Option.map_some, itemValue,
      lineValue_keyLine hblank isName_linknumber (isNameChar_linkText link)]
  simp only [isInterface, newInterface, hname, hvalue, Option.getD_some, true_and, decide_eq_true_eq]
  exact ⟨linkText_injective, fun h => h ▸ rfl⟩

/-- In a new block there is no other key. -/
theorem find?_newInterface {key : Str} (hne : "linknumber".toList ≠ key) (link : ℕ) :
    (itemInner (newInterface indent link)).find? (isKey key) = none := by
  have hkey := isKey_keyLine (blank_deeper hindent) isName_linknumber (isNameChar_linkText link) key
  refine List.find?_eq_none.mpr fun x hx => ?_
  rw [List.mem_singleton.mp hx, hkey]
  exact hne

omit hindent in
theorem flat_newInterface (link : ℕ) : flat [newInterface indent link] = interfaceBlock indent link := by
  simp [newInterface, interfaceBlock, keyLine]

end

theorem isInterface_of_ne {a b : ℕ} (hne : a ≠ b) {x : Item Str} (h : isInterface a x) : isInterface b x = false := by
  cases x with
  | leaf line => rfl
  | node o inner c =>
    simp only [isInterface, decide_eq_true_eq] at h
    refine decide_eq_false fun h' => hne (linkText_injective ?_)
    rw [← h.2, h'.2]

/-- Setting another key does not change whose block it is. -/
theorem isInterface_putIn {key value : Str} (hkey : IsName key) (hvalue : ∀ c ∈ value, isNameChar c)
    (hne : key ≠ "linknumber".toList) (link : ℕ) (x : Item Str) : isInterface link (putIn key value x) = isInterface link x := by
  cases x with
  | leaf line => rfl
  | node o inner c =>
    have hsame : (put o key value inner).find? (isKey "linknumber".toList) = inner.find? (isKey "linknumber".toList) :=
      find?_put hkey hvalue (fun y hy => isKey_of_ne hne hy) o inner
    have hvalue : valueIn "linknumber".toList (put o key value inner) = valueIn "linknumber".toList inner := by
      rw [valueIn, hsame, valueIn]
    rw [putIn]
    refine decide_eq_decide.mpr ?_
    rw [hvalue]

/-! ### The blocks as sections -/

theorem valueIn_eq (key : Str) (i : ℕ) (inner : List (Item Str)) :
    ((keysFrom i inner .empty).get? key).map Prod.snd = valueIn key inner := by
  cases hfind : inner.find? (isKey key) with
  | none => rw [get?_keysFrom_of_find? i .empty hfind, valueIn, hfind, Dict.get?_empty, Option.map_none, Option.map_none]
  | some x =>
    obtain ⟨pre, line, post, rfl, rfl, hline, hpre⟩ := exists_keyLine hfind
    rw [get?_keysFrom hpre hline (Dict.get?_empty key), valueIn, hfind, Option.map_some, Option.map_some, itemValue]

/-- The section is an interface block of the link. -/
def linkSection (link : ℕ) (child : Section) : Bool :=
  child.name = "interface".toList ∧
    ((child.keys.get? "linknumber".toList).getD (0, "0".toList)).2 = linkText link

theorem interfaceOf_eq (totem : Section) (link : ℕ) : interfaceOf totem link = totem.children.find? (linkSection link) :=
  rfl

theorem linkSection_nodeSection (path : List Str) (i : ℕ) (o c : Str) (inner : List (Item Str)) (link : ℕ) :
    linkSection link (nodeSection path i o inner) = isInterface link (node o inner c) := by
  have hvalue := valueIn_eq "linknumber".toList (i + 1) inner
  have hname : (nameOf o).getD [] = "interface".toList ↔ nameOf o = some "interface".toList := by
    cases nameOf o with
    | none => simp
    | some name => simp
  have hnumber : (((nodeSection path i o inner).keys.get? "linknumber".toList).getD (0, "0".toList)).2 =
      (valueIn "linknumber".toList inner).getD "0".toList := by
    rw [← hvalue, nodeSection]
    cases (keysFrom (i + 1) inner .empty).get? "linknumber".toList <;> rfl
  rw [linkSection, hnumber]
  simp only [isInterface, nodeSection, hname]

/-- **`_interface` finds the first block of the link.** -/
theorem find?_sectionsFrom (path : List Str) (link : ℕ) : ∀ (inner : List (Item Str)) (i : ℕ),
    (sectionsFrom path i inner).find? (linkSection link) = none ∧ inner.find? (isInterface link) = none ∨
    ∃ pre o is c post, inner = pre ++ node o is c :: post ∧ inner.find? (isInterface link) = some (node o is c) ∧
      pre.find? (isInterface link) = none ∧
      (sectionsFrom path i inner).find? (linkSection link) = some (nodeSection path (i + (flat pre).length) o is)
  | [], _ => .inl ⟨rfl, rfl⟩
  | leaf line :: inner, i => by
    rcases find?_sectionsFrom path link inner (i + 1) with h | ⟨pre, o, is, c, post, rfl, hfind, hpre, hsec⟩
    · exact .inl h
    · refine .inr ⟨leaf line :: pre, o, is, c, post, rfl, hfind, hpre, ?_⟩
      have hi : i + (flat (leaf line :: pre)).length = i + 1 + (flat pre).length := by
        rw [flat_leaf, List.length_cons]
        omega
      rw [sectionsFrom_leaf, hsec, hi]
  | node o is c :: inner, i => by
    have hsame := linkSection_nodeSection path i o c is link
    by_cases hnode : isInterface link (node o is c)
    · refine .inr ⟨[], o, is, c, inner, rfl, List.find?_cons_of_pos hnode, rfl, ?_⟩
      rw [sectionsFrom_node, List.find?_cons_of_pos (hsame.trans hnode)]
      rfl
    · have hsection : ¬ linkSection link (nodeSection path i o is) := by rwa [hsame]
      rw [sectionsFrom_node, List.find?_cons_of_neg hsection, List.find?_cons_of_neg hnode]
      rcases find?_sectionsFrom path link inner (i + (elems (node o is c)).length) with
        h | ⟨pre, o', is', c', post, rfl, hfind, hpre, hsec⟩
      · exact .inl h
      · refine .inr ⟨node o is c :: pre, o', is', c', post, rfl, hfind, ?_, ?_⟩
        · rw [List.find?_cons_of_neg hnode, hpre]
        · rw [hsec, length_flat_cons, Nat.add_assoc]

section
variable (before after : List Str) (path : List Str) (o c : Str) (inner : List (Item Str))

/-- **What a pass does about a link.** -/
theorem editLink_nodeSection (token : ℤ) (link : ℕ) :
    editLink (before ++ o :: (flat inner ++ c :: after)) (nodeSection path before.length o inner) token link =
      match inner.find? (isInterface link) with
      | none => some (before ++ o :: (flat (ensure o link inner) ++ c :: after))
      | some x => (heartbeatValues token).findSome? fun kv =>
          if valueIn kv.1 (itemInner x) = some kv.2 then none
          else some (before ++ o :: (flat (modifyFirst (isInterface link) (putIn kv.1 kv.2) inner) ++ c :: after)) := by
  have hchildren : (nodeSection path before.length o inner).children =
      sectionsFrom (path ++ [(nameOf o).getD []]) (before.length + 1) inner := rfl
  rcases find?_sectionsFrom (path ++ [(nameOf o).getD []]) link inner (before.length + 1) with
    ⟨hsec, hfind⟩ | ⟨pre, o', is, c', post, rfl, hfind, hpre, hsec⟩
  · have hstop : (nodeSection path before.length o inner).stop = (before ++ o :: flat inner).length := by
      simp only [nodeSection, List.length_append, List.length_cons]
      omega
    have hassoc : before ++ o :: (flat inner ++ c :: after) = (before ++ o :: flat inner) ++ c :: after := by simp
    have hblock : flat [newInterface (indentIn o inner) link] = interfaceBlock (indentIn o inner) link :=
      flat_newInterface link
    unfold editLink
    rw [interfaceOf_eq, hchildren, hsec, hfind]
    simp only
    rw [childIndent_nodeSection before after path o c inner, hstop, hassoc, List.take_left, List.drop_left, ensure, hfind,
      if_neg (by simp), flat_append, hblock]
    simp
  · have hassoc : ∀ items, before ++ o :: (flat (pre ++ node o' items c' :: post) ++ c :: after) =
        (before ++ o :: flat pre) ++ o' :: (flat items ++ c' :: (flat post ++ c :: after)) := by
      intro items
      simp
    have hposition : before.length + 1 + (flat pre).length = (before ++ o :: flat pre).length := by
      simp only [List.length_append, List.length_cons]
      omega
    have hnode : isInterface link (node o' is c') := List.find?_some hfind
    unfold editLink
    rw [interfaceOf_eq, hchildren, hsec, hfind, hposition, hassoc is]
    simp only
    congr 1
    funext kv
    have hmodify : modifyFirst (isInterface link) (putIn kv.1 kv.2) (pre ++ node o' is c' :: post) =
        pre ++ node o' (put o' kv.1 kv.2 is) c' :: post := by
      rw [modifyFirst_append _ hpre, modifyFirst, if_pos hnode, putIn]
    rw [setKey_nodeSection, hmodify, hassoc, itemInner]

end

end Heartbeat
end MqResiliency
