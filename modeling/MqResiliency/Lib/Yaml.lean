/-
# Values of a YAML text

What `yaml.safe_load` returns (`Yaml`), and how Python prints it: `str(v)` and
`repr(v)` convert the integers in it, wherever they stand, so both are
computations with conversions (`Conv`).

A value of another type (a float, a date, bytes, a set) is known by its texts;
they are missing where printing it fails. So is a list or a mapping that holds
itself, where it comes again. `printable` tells the printable characters beyond
ASCII.
-/
import Mathlib.Data.List.Lex
import Mathlib.Data.List.Sort
import MqResiliency.Lib.Conv

namespace MqResiliency
namespace Py

/-- A value. -/
inductive Yaml : Type where
  | null
  | bool (b : Bool)
  | int (n : ℤ)
  | str (s : Str)
  | other (text repr : Option Str)
  | list (xs : List Yaml)
  | map (items : List (Yaml × Yaml))

/-- `", ".join(ts)`. -/
def commas (ts : List Str) : Str := [',', ' '].intercalate ts

/-- The order of texts, by code points. -/
def strLe (s t : Str) : Bool := !(List.lt t s : Prop)

/-- `sorted(ts)`. -/
def sortedStrs (ts : List Str) : List Str := ts.insertionSort fun s t => strLe s t = true

theorem mem_sortedStrs {s : Str} {ts : List Str} : s ∈ sortedStrs ts ↔ s ∈ ts := by
  rw [sortedStrs, List.mem_insertionSort]

/-- The order that texts are found in is of no matter. -/
theorem sortedStrs_perm {ss ts : List Str} (h : ss.Perm ts) : sortedStrs ss = sortedStrs ts := by
  have hle : (fun s t : Str => strLe s t = true) = fun s t => s ≤ t := by
    funext s t
    simp [strLe]
  unfold sortedStrs
  simp only [hle]
  exact ((List.perm_insertionSort _ _).trans (h.trans (List.perm_insertionSort _ _).symm)).eq_of_pairwise'
    (List.pairwise_insertionSort _ _) (List.pairwise_insertionSort _ _)

section
variable (printable : Char → Bool)

/-- `n` in hexadecimal, in so many digits. -/
def hex (width n : ℕ) : Str :=
  let ds := Nat.toDigits 16 n
  List.replicate (width - ds.length) '0' ++ ds

/-- A character of a text that is quoted with `quote`. -/
def reprChar (quote c : Char) : Str :=
  if c = quote ∨ c.toNat = 92 then [Char.ofNat 92, c]
  else if c = '\t' then "\\t".toList
  else if c = '\n' then "\\n".toList
  else if c = '\r' then "\\r".toList
  else if c.toNat < 32 ∨ c.toNat = 127 then "\\x".toList ++ hex 2 c.toNat
  else if c.toNat < 127 ∨ printable c then [c]
  else if c.toNat < 256 then "\\x".toList ++ hex 2 c.toNat
  else if c.toNat < 65536 then "\\u".toList ++ hex 4 c.toNat
  else "\\U".toList ++ hex 8 c.toNat

/-- `repr(s)` of a text. -/
def reprStr (s : Str) : Str :=
  let quote := Char.ofNat (if s.any (·.toNat = 39) ∧ ¬ s.any (·.toNat = 34) then 34 else 39)
  quote :: s.flatMap (reprChar printable quote) ++ [quote]

/-- The text of a value of another type; printing it may fail. -/
def textOrFail {ε : Type} : Option Str → Conv ε Str
  | some t => pure t
  | none => .convert (maxStrDigits + 1) (pure [])

namespace Yaml

mutual

/-- `repr(v)`. -/
def repr {ε : Type} : Yaml → Conv ε Str
  | null => pure "None".toList
  | bool b => pure (if b then "True".toList else "False".toList)
  | int n => .ofInt n
  | str s => pure (reprStr printable s)
  | other _ r => textOrFail r
  | list xs => do
    let ts ← reprs xs
    return '[' :: commas ts ++ [']']
  | map items => do
    let ts ← reprItems items
    return Char.ofNat 123 :: commas ts ++ [Char.ofNat 125]

def reprs {ε : Type} : List Yaml → Conv ε (List Str)
  | [] => pure []
  | x :: xs => do
    let t ← x.repr
    let ts ← reprs xs
    return t :: ts

def reprItems {ε : Type} : List (Yaml × Yaml) → Conv ε (List Str)
  | [] => pure []
  | (k, v) :: items => do
    let kt ← k.repr
    let vt ← v.repr
    let ts ← reprItems items
    return (kt ++ ": ".toList ++ vt) :: ts

end

/-- `str(v)`, and `format(v)` in an f-string. -/
def text {ε : Type} : Yaml → Conv ε Str
  | str s => pure s
  | other t _ => textOrFail t
  | v => v.repr printable

end Yaml
end

namespace Yaml

/-- `v` is one of these texts. -/
def isOneOf (ts : List Str) : Yaml → Bool
  | str s => s ∈ ts
  | _ => false

/-- `raw[key]` of a mapping with this key. -/
def lookup (key : Str) : List (Yaml × Yaml) → Option Yaml
  | [] => none
  | (k, v) :: items => if k.isOneOf [key] then some v else lookup key items

/-- `raw.get(key)`. -/
def get (raw : List (Yaml × Yaml)) (key : Str) : Yaml := (lookup key raw).getD null

/-- The texts of a list of texts. -/
def strs : List Yaml → Option (List Str)
  | [] => some []
  | str s :: xs => (strs xs).map (s :: ·)
  | _ => none

/-! ### The values within a value -/

mutual

/-- `P` holds of the value and of all values within it. -/
def All (P : Yaml → Prop) : Yaml → Prop
  | null => P null
  | bool b => P (bool b)
  | int n => P (int n)
  | str s => P (str s)
  | other t r => P (other t r)
  | list xs => P (list xs) ∧ Alls P xs
  | map items => P (map items) ∧ AllItems P items

def Alls (P : Yaml → Prop) : List Yaml → Prop
  | [] => True
  | x :: xs => All P x ∧ Alls P xs

def AllItems (P : Yaml → Prop) : List (Yaml × Yaml) → Prop
  | [] => True
  | (k, v) :: items => All P k ∧ All P v ∧ AllItems P items

end

variable {P : Yaml → Prop}

theorem all_lookup {key : Str} {v : Yaml} : ∀ {raw : List (Yaml × Yaml)}, AllItems P raw →
    lookup key raw = some v → v.All P
  | [], _, h => by simp [lookup] at h
  | (k, w) :: items, hall, h => by
    rw [lookup] at h
    split at h
    · obtain rfl : w = v := by simpa using h
      exact hall.2.1
    · exact all_lookup hall.2.2 h

theorem all_get {key : Str} {raw : List (Yaml × Yaml)} (hall : AllItems P raw) (hnull : P null) :
    (get raw key).All P := by
  unfold get
  cases h : lookup key raw with
  | none => exact hnull
  | some v => exact all_lookup hall h

mutual

theorem all_mono {P' : Yaml → Prop} (h : ∀ v, P v → P' v) : ∀ {v : Yaml}, v.All P → v.All P'
  | null, hv => h _ hv
  | bool _, hv => h _ hv
  | int _, hv => h _ hv
  | str _, hv => h _ hv
  | other _ _, hv => h _ hv
  | list _, hv => ⟨h _ hv.1, alls_mono h hv.2⟩
  | map _, hv => ⟨h _ hv.1, allItems_mono h hv.2⟩

theorem alls_mono {P' : Yaml → Prop} (h : ∀ v, P v → P' v) : ∀ {xs : List Yaml}, Alls P xs → Alls P' xs
  | [], _ => trivial
  | _ :: _, hv => ⟨all_mono h hv.1, alls_mono h hv.2⟩

theorem allItems_mono {P' : Yaml → Prop} (h : ∀ v, P v → P' v) :
    ∀ {items : List (Yaml × Yaml)}, AllItems P items → AllItems P' items
  | [], _ => trivial
  | _ :: _, hv => ⟨all_mono h hv.1, all_mono h hv.2.1, allItems_mono h hv.2.2⟩

end

mutual

theorem all_of_forall (h : ∀ v, P v) : ∀ v : Yaml, v.All P
  | null => h _
  | bool _ => h _
  | int _ => h _
  | str _ => h _
  | other _ _ => h _
  | list xs => ⟨h _, alls_of_forall h xs⟩
  | map items => ⟨h _, allItems_of_forall h items⟩

theorem alls_of_forall (h : ∀ v, P v) : ∀ xs : List Yaml, Alls P xs
  | [] => trivial
  | x :: xs => ⟨all_of_forall h x, alls_of_forall h xs⟩

theorem allItems_of_forall (h : ∀ v, P v) : ∀ items : List (Yaml × Yaml), AllItems P items
  | [] => trivial
  | (k, v) :: items => ⟨all_of_forall h k, all_of_forall h v, allItems_of_forall h items⟩

end

/-! ### Printing -/

/-- The value itself can be printed, unless `L`. -/
def Prints (L : Prop) : Yaml → Prop
  | int n => maxStrDigits < Conv.digitsOf n → L
  | other t r => t = none ∨ r = none → L
  | _ => True

section
variable {ε : Type} {L : Prop} {E : ε → Prop} {printable : Char → Bool}

theorem wp_textOrFail {t : Option Str} {Q : Str → Prop} (h : t = none → L) (hQ : ∀ s, Q s) :
    (textOrFail t : Conv ε Str).wp L Q E := by
  cases t with
  | none => exact ⟨fun hd => absurd hd (by omega), fun _ => h rfl⟩
  | some s => exact hQ s

mutual

theorem wp_repr : ∀ {v : Yaml} {Q : Str → Prop}, v.All (Prints L) → (∀ t, Q t) →
    (v.repr printable : Conv ε Str).wp L Q E
  | null, _, _, hQ => hQ _
  | bool _, _, _, hQ => hQ _
  | str _, _, _, hQ => hQ _
  | int _, _, h, hQ => ⟨fun _ => hQ _, h⟩
  | other _ _, _, h, hQ => wp_textOrFail (fun hr => h (.inr hr)) hQ
  | list xs, Q, h, hQ => by
    rw [repr, Conv.wp_bind]
    exact wp_reprs h.2 fun ts => hQ _
  | map items, Q, h, hQ => by
    rw [repr, Conv.wp_bind]
    exact wp_reprItems h.2 fun ts => hQ _

theorem wp_reprs : ∀ {xs : List Yaml} {Q : List Str → Prop}, Alls (Prints L) xs → (∀ ts, Q ts) →
    (reprs printable xs : Conv ε (List Str)).wp L Q E
  | [], _, _, hQ => hQ _
  | x :: xs, Q, h, hQ => by
    rw [reprs, Conv.wp_bind]
    refine wp_repr h.1 fun t => ?_
    rw [Conv.wp_bind]
    exact wp_reprs h.2 fun ts => hQ _

theorem wp_reprItems : ∀ {items : List (Yaml × Yaml)} {Q : List Str → Prop}, AllItems (Prints L) items →
    (∀ ts, Q ts) → (reprItems printable items : Conv ε (List Str)).wp L Q E
  | [], _, _, hQ => hQ _
  | (k, v) :: items, Q, h, hQ => by
    rw [reprItems, Conv.wp_bind]
    refine wp_repr h.1 fun t => ?_
    rw [Conv.wp_bind]
    refine wp_repr h.2.1 fun t' => ?_
    rw [Conv.wp_bind]
    exact wp_reprItems h.2.2 fun ts => hQ _

end

theorem wp_text {v : Yaml} {Q : Str → Prop} (h : v.All (Prints L)) (hQ : ∀ t, Q t) :
    (v.text printable : Conv ε Str).wp L Q E := by
  cases v with
  | str s => exact hQ s
  | other t r => exact wp_textOrFail (fun ht => h (.inl ht)) hQ
  | null => exact wp_repr h hQ
  | bool b => exact wp_repr h hQ
  | int n => exact wp_repr h hQ
  | list xs => exact wp_repr h hQ
  | map items => exact wp_repr h hQ

end
end Yaml
end Py
end MqResiliency
