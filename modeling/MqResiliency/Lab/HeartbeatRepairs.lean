/-
# The checks of a heartbeat edit

What a pass looks for, in its order (`places`), each with its change of the
totem section (`repairs`): the token, and for each link its block and the three
keys in it. Each makes what it looks for so, keeps the others, and does nothing
where it is so already.

The edits for two tokens stay out of each other's way but in a line that has
the second token's value in another spelling (`Free`): apart from these, the
second edit after the first comes to the second alone (`settle_settle_of_free`).
-/
import MqResiliency.Lab.HeartbeatEdit

namespace MqResiliency
namespace Heartbeat

open Item
open Py (Str Dict)

/-- The keys of an interface block. -/
inductive Knet : Type where
  | timeout
  | interval
  | count
deriving DecidableEq

def Knet.key : Knet → Str
  | timeout => "knet_ping_timeout".toList
  | interval => "knet_ping_interval".toList
  | count => "knet_pong_count".toList

def Knet.value (token : ℤ) : Knet → Str
  | timeout => Py.Conv.textOf (token / 2)
  | interval => Py.Conv.textOf (token / 20)
  | count => "2".toList

theorem heartbeatValues_eq (token : ℤ) :
    heartbeatValues token = [Knet.timeout, .interval, .count].map fun k => (k.key, k.value token) := rfl

theorem Knet.isName_key (k : Knet) : IsName k.key := by
  cases k <;> exact ⟨by decide, by decide⟩

theorem Knet.key_ne (k : Knet) : k.key ≠ "linknumber".toList := by
  cases k <;> decide

theorem Knet.key_injective {a b : Knet} (h : a.key = b.key) : a = b := by
  revert h
  cases a <;> cases b <;> decide

theorem Knet.isNameChar_value (token : ℤ) (k : Knet) : ∀ c ∈ k.value token, isNameChar c := by
  cases k with
  | timeout => exact isNameChar_textOf _
  | interval => exact isNameChar_textOf _
  | count =>
    have hdigit : ∀ c ∈ "2".toList, isNameChar c := by decide
    exact hdigit

theorem isName_token : IsName "token".toList := ⟨by decide, by decide⟩

/-- What a pass looks for. -/
inductive Place : Type where
  | token
  | block (link : ℕ)
  | knet (link : ℕ) (k : Knet)
deriving DecidableEq

/-- In the order of a pass. -/
def linkPlaces (link : ℕ) : List Place := [.block link, .knet link .timeout, .knet link .interval, .knet link .count]

def places (links : List ℕ) : List Place := .token :: links.flatMap linkPlaces

theorem length_places (links : List ℕ) : (places links).length = 1 + 4 * links.length := by
  have hlink : ∀ l : List ℕ, (l.flatMap linkPlaces).length = 4 * l.length := by
    intro l
    induction l with
    | nil => rfl
    | cons link l ih =>
      rw [List.flatMap_cons, List.length_append, ih, List.length_cons]
      simp [linkPlaces]
      omega
  rw [places, List.length_cons, hlink]
  omega

theorem nodup_places {links : List ℕ} (h : links.Nodup) : (places links).Nodup := by
  refine List.nodup_cons.mpr ⟨by simp [linkPlaces], List.nodup_flatMap.mpr ⟨?_, ?_⟩⟩
  · intro link _
    simp [linkPlaces]
  · refine h.imp fun {a b} hab => ?_
    intro p ha hb
    simp only [linkPlaces, List.mem_cons, List.not_mem_nil, or_false] at ha hb
    rcases ha with rfl | rfl | rfl | rfl <;> simp [hab] at hb

/-! ### Blocks that are there -/

section
variable {o : Str} {link : ℕ} {inner : List (Item Str)}

theorem ensure_of_find? {x : Item Str} (h : inner.find? (isInterface link) = some x) : ensure o link inner = inner := by
  rw [ensure, h, Option.isSome_some, if_pos rfl]

theorem ensure_of_none (h : inner.find? (isInterface link) = none) :
    ensure o link inner = inner ++ [newInterface (indentIn o inner) link] := by
  rw [ensure, h]
  rfl

/-- What a block is after it is made sure of. -/
theorem find?_ensure (o : Str) (link : ℕ) (inner : List (Item Str)) :
    (ensure o link inner).find? (isInterface link) =
      some ((inner.find? (isInterface link)).getD (newInterface (indentIn o inner) link)) := by
  cases h : inner.find? (isInterface link) with
  | some x => rw [ensure_of_find? h, h, Option.getD_some]
  | none =>
    have hnew : isInterface link (newInterface (indentIn o inner) link) :=
      (isInterface_newInterface (blank_indentIn o inner) link link).mpr rfl
    rw [ensure_of_none h, List.find?_append, h, Option.none_or, List.find?_singleton, if_pos hnew, Option.getD_none]

/-- What the new block is not is found where it was. -/
theorem find?_ensure_of_not {p : Item Str → Bool} (hp : ∀ x, isInterface link x → p x = false) (o : Str)
    (inner : List (Item Str)) : (ensure o link inner).find? p = inner.find? p := by
  cases h : inner.find? (isInterface link) with
  | some x => rw [ensure_of_find? h]
  | none =>
    have hnew : isInterface link (newInterface (indentIn o inner) link) :=
      (isInterface_newInterface (blank_indentIn o inner) link link).mpr rfl
    rw [ensure_of_none h, List.find?_append, List.find?_singleton, if_neg (by simp [hp _ hnew]), Option.or_none]

theorem isKey_of_isInterface {key : Str} {x : Item Str} (h : isInterface link x) : isKey key x = false := by
  cases x with
  | leaf line => cases h
  | node o inner c => rfl

theorem isInterface_of_isKey {key : Str} {x : Item Str} (h : isKey key x) : isInterface link x = false := by
  cases x with
  | leaf line => rfl
  | node o inner c => cases h

end

/-! ### The repairs -/

/-- The change of one key in the block of a link. -/
def putKnet (token : ℤ) (k : Knet) : Item Str → Item Str := putIn k.key (k.value token)

theorem isInterface_putKnet (token : ℤ) (k : Knet) (link : ℕ) (x : Item Str) :
    isInterface link (putKnet token k x) = isInterface link x :=
  isInterface_putIn k.isName_key (k.isNameChar_value token) k.key_ne link x

theorem itemInner_putKnet {link : ℕ} {x : Item Str} (h : isInterface link x) (token : ℤ) (k : Knet) :
    ∃ o, itemInner (putKnet token k x) = put o k.key (k.value token) (itemInner x) := by
  cases x with
  | leaf line => cases h
  | node o inner c => exact ⟨o, rfl⟩

namespace Place

/-- The check. -/
def Holds (token : ℤ) : Place → List (Item Str) → Prop
  | .token, inner => valueIn "token".toList inner = some (Py.Conv.textOf token)
  | .block link, inner => (inner.find? (isInterface link)).isSome
  | .knet link k, inner =>
    (inner.find? (isInterface link)).bind (fun x => valueIn k.key (itemInner x)) = some (k.value token)

instance (token : ℤ) : ∀ (p : Place) (inner : List (Item Str)), Decidable (p.Holds token inner)
  | .token, _ => inferInstanceAs (Decidable (_ = _))
  | .block _, _ => inferInstanceAs (Decidable (_ = _))
  | .knet _ _, _ => inferInstanceAs (Decidable (_ = _))

/-- The change; a key of a block that is not there comes with the block. -/
def fix (o : Str) (token : ℤ) : Place → List (Item Str) → List (Item Str)
  | .token, inner => put o "token".toList (Py.Conv.textOf token) inner
  | .block link, inner => ensure o link inner
  | .knet link k, inner => modifyFirst (isInterface link) (putKnet token k) (ensure o link inner)

variable (o : Str) (token : ℤ)

theorem find?_knet (link : ℕ) (k : Knet) (inner : List (Item Str)) :
    (Place.fix o token (.knet link k) inner).find? (isInterface link) =
      some (putKnet token k ((inner.find? (isInterface link)).getD (newInterface (indentIn o inner) link))) := by
  have hkeep : ∀ x, isInterface link x → isInterface link (putKnet token k x) := fun x hx => by
    rwa [isInterface_putKnet]
  rw [fix, find?_modifyFirst hkeep, find?_ensure, Option.map_some]

theorem fixed (p : Place) (inner : List (Item Str)) : p.Holds token (p.fix o token inner) := by
  cases p with
  | token => exact valueIn_put isName_token (isNameChar_textOf token) o inner
  | block link =>
    rw [Holds, fix, find?_ensure]
    rfl
  | knet link k =>
    have hfind := find?_knet o token link k inner
    have hiface : isInterface link ((inner.find? (isInterface link)).getD (newInterface (indentIn o inner) link)) := by
      have hfound := List.find?_some (find?_ensure o link inner)
      exact hfound
    obtain ⟨o', ho'⟩ := itemInner_putKnet hiface token k
    rw [Holds, hfind, Option.bind_some, ho']
    exact valueIn_put k.isName_key (k.isNameChar_value token) o' _

/-- What a repair of another place leaves of the token's line. -/
theorem find?_isKey_fix {p : Place} (hp : p ≠ .token) (inner : List (Item Str)) (key : Str) :
    (p.fix o token inner).find? (isKey key) = inner.find? (isKey key) := by
  have hensure : ∀ link, (ensure o link inner).find? (isKey key) = inner.find? (isKey key) := fun link =>
    find?_ensure_of_not (fun x hx => isKey_of_isInterface hx) o inner
  cases p with
  | token => exact absurd rfl hp
  | block link => exact hensure link
  | knet link k =>
    rw [fix, find?_modifyFirst_of_disjoint (fun x hx => ⟨isKey_of_isInterface hx, ?_⟩), hensure]
    exact isKey_of_isInterface (by rwa [isInterface_putKnet])

/-- What a repair makes of the block of a link. -/
theorem find?_isInterface_fix (p : Place) (link : ℕ) (inner : List (Item Str)) :
    (p.fix o token inner).find? (isInterface link) = inner.find? (isInterface link) ∨
      p = .block link ∧ (p.fix o token inner).find? (isInterface link) =
        some ((inner.find? (isInterface link)).getD (newInterface (indentIn o inner) link)) ∨
      ∃ k, p = .knet link k ∧ (p.fix o token inner).find? (isInterface link) =
        some (putKnet token k ((inner.find? (isInterface link)).getD (newInterface (indentIn o inner) link))) := by
  cases p with
  | token =>
    left
    exact find?_put isName_token (isNameChar_textOf token) (fun y hy => isInterface_of_isKey hy) o inner
  | block link' =>
    by_cases hlink : link' = link
    · subst hlink
      exact .inr (.inl ⟨rfl, find?_ensure o link' inner⟩)
    · exact .inl (find?_ensure_of_not (fun y hy => isInterface_of_ne hlink hy) o inner)
  | knet link' k =>
    by_cases hlink : link' = link
    · subst hlink
      exact .inr (.inr ⟨k, rfl, find?_knet o token link' k inner⟩)
    · have hdisjoint : ∀ y, isInterface link' y → isInterface link y = false := fun y hy => isInterface_of_ne hlink hy
      left
      rw [fix, find?_modifyFirst_of_disjoint (fun y hy => ⟨hdisjoint y hy, ?_⟩), find?_ensure_of_not hdisjoint]
      exact hdisjoint _ (by rwa [isInterface_putKnet])

/-- A block that is there is there still, with at most one of its keys set. -/
theorem find?_isInterface_fix_of_some (p : Place) {link : ℕ} {x : Item Str} {inner : List (Item Str)}
    (h : inner.find? (isInterface link) = some x) :
    (p.fix o token inner).find? (isInterface link) = some x ∨
      ∃ k, p = .knet link k ∧ (p.fix o token inner).find? (isInterface link) = some (putKnet token k x) := by
  have hfix := find?_isInterface_fix o token p link inner
  rw [h, Option.getD_some] at hfix
  rcases hfix with hfix | ⟨-, hfix⟩ | hfix
  · exact .inl hfix
  · exact .inl hfix
  · exact .inr hfix

/-- Another key of the block is found where it was. -/
theorem find?_putKnet {link : ℕ} {x : Item Str} (h : isInterface link x) {k k' : Knet} (hne : k' ≠ k) :
    (itemInner (putKnet token k' x)).find? (isKey k.key) = (itemInner x).find? (isKey k.key) := by
  obtain ⟨o', ho'⟩ := itemInner_putKnet h token k'
  have hkey : k'.key ≠ k.key := fun heq => hne (Knet.key_injective heq)
  rw [ho']
  exact find?_put k'.isName_key (k'.isNameChar_value token) (fun y hy => isKey_of_ne hkey hy) o' (itemInner x)

theorem kept {p q : Place} {inner : List (Item Str)} (hne : p ≠ q) (h : q.Holds token inner) :
    q.Holds token (p.fix o token inner) := by
  cases q with
  | token =>
    have hsame := find?_isKey_fix o token hne inner "token".toList
    rw [Holds, valueIn, hsame]
    exact h
  | block link =>
    obtain ⟨x, hx⟩ := Option.isSome_iff_exists.mp h
    rcases find?_isInterface_fix_of_some o token p hx with h' | ⟨k, -, h'⟩ <;> simp [Holds, h']
  | knet link k =>
    obtain ⟨x, hx, hvalue⟩ := Option.bind_eq_some_iff.mp h
    rcases find?_isInterface_fix_of_some o token p hx with h' | ⟨k', rfl, h'⟩
    · simp [Holds, h', hvalue]
    · have hk : k' ≠ k := fun heq => hne (by rw [heq])
      rw [Holds, h', Option.bind_some, valueIn, find?_putKnet token (List.find?_some hx) hk]
      exact hvalue

theorem idle {p : Place} {inner : List (Item Str)} (h : p.Holds token inner) : p.fix o token inner = inner := by
  cases p with
  | token => exact put_of_valueIn h
  | block link => exact if_pos h
  | knet link k =>
    obtain ⟨x, hx, hvalue⟩ := Option.bind_eq_some_iff.mp h
    rw [fix, ensure_of_find? hx]
    refine modifyFirst_eq_self fun y hy => ?_
    obtain rfl : x = y := Option.some.inj (hx.symm.trans hy)
    cases x with
    | leaf line => rfl
    | node o' is c =>
      have hput : put o' k.key (k.value token) is = is := put_of_valueIn hvalue
      rw [putKnet, putIn, hput]

end Place

/-- **The edits for a token, as repairs of what the totem section holds.** -/
def repairs (o : Str) (token : ℤ) : Repairs Place (List (Item Str)) where
  holds := Place.Holds token
  fix := Place.fix o token
  fixed := Place.fixed o token
  kept := Place.kept o token
  idle := Place.idle o token

/-! ### Indents -/

/-- The indent of the first line that is not blank. -/
def firstIndent (items : List (Item Str)) : Option Str :=
  ((flat items).find? fun line => Py.trim line ≠ []).map indentOf

theorem indentIn_eq (o : Str) (inner : List (Item Str)) :
    indentIn o inner = (firstIndent inner).getD (indentOf o ++ defaultIndent) := by
  unfold indentIn firstIndent
  split
  · rename_i line hline
    rw [hline, Option.map_some, Option.getD_some]
  · rename_i hline
    rw [hline, Option.map_none, Option.getD_none]

theorem firstIndent_cons (x : Item Str) (items : List (Item Str)) :
    firstIndent (x :: items) = (firstIndent [x]).or (firstIndent items) := by
  have happend : flat (x :: items) = flat [x] ++ flat items := flat_append [x] items
  rw [firstIndent, happend, List.find?_append, Option.map_or, firstIndent, firstIndent]

theorem firstIndent_modifyFirst {p : Item Str → Bool} {f : Item Str → Item Str}
    (h : ∀ x, p x → firstIndent [f x] = firstIndent [x]) : ∀ items : List (Item Str),
    firstIndent (modifyFirst p f items) = firstIndent items
  | [] => rfl
  | x :: items => by
    by_cases hx : p x
    · rw [modifyFirst, if_pos hx, firstIndent_cons (f x) items, firstIndent_cons x items, h x hx]
    · rw [modifyFirst, if_neg hx, firstIndent_cons x (modifyFirst p f items), firstIndent_modifyFirst h items,
        firstIndent_cons x items]

theorem trim_ne_nil {line : Str} (h : kindOf line ≠ .other) : Py.trim line ≠ [] := by
  intro hblank
  rw [kindOf, if_pos (.inl hblank)] at h
  exact h rfl

theorem firstIndent_leaf {line : Str} (h : kindOf line ≠ .other) : firstIndent [leaf line] = some (indentOf line) := by
  have hline : (flat [leaf line]).find? (fun line => Py.trim line ≠ []) = some line :=
    List.find?_cons_of_pos (by simpa using trim_ne_nil h)
  rw [firstIndent, hline, Option.map_some]

theorem firstIndent_node {o c : Str} {inner : List (Item Str)} (h : kindOf o ≠ .other) :
    firstIndent [node o inner c] = some (indentOf o) := by
  have hline : (flat [node o inner c]).find? (fun line => Py.trim line ≠ []) = some o :=
    List.find?_cons_of_pos (by simpa using trim_ne_nil h)
  rw [firstIndent, hline, Option.map_some]

theorem kindOf_of_isKey {key line : Str} (h : isKey key (leaf line)) : kindOf line ≠ .other := by
  rw [keyOf_eq_some.mp (isKey_leaf.mp h)]
  simp

theorem firstIndent_respell {key value : Str} (hkey : IsName key) (hvalue : ∀ c ∈ value, isNameChar c) {x : Item Str}
    (h : isKey key x) : firstIndent [respell key value x] = firstIndent [x] := by
  cases x with
  | node o inner c => cases h
  | leaf line =>
    rw [respell]
    split
    · rfl
    · have hnew := (isKey_keyLine (blank_indentOf line) hkey hvalue key).mpr rfl
      rw [firstIndent_leaf (kindOf_of_isKey h), firstIndent_leaf (kindOf_of_isKey hnew),
        indentOf_keyLine (blank_indentOf line) hkey]

theorem firstIndent_putIn {link : ℕ} (key value : Str) {x : Item Str} (h : isInterface link x) :
    firstIndent [putIn key value x] = firstIndent [x] := by
  cases x with
  | leaf line => cases h
  | node o inner c =>
    simp only [isInterface, decide_eq_true_eq] at h
    have hkind : kindOf o ≠ .other := by
      rw [nameOf_eq_some.mp h.1]
      simp
    rw [putIn, firstIndent_node hkind, firstIndent_node hkind]

/-! ### Keys that are there -/

section
variable {o key value : Str} {inner : List (Item Str)}

theorem put_of_isSome (h : (inner.find? (isKey key)).isSome) :
    put o key value inner = modifyFirst (isKey key) (respell key value) inner := if_pos h

theorem put_of_none (h : inner.find? (isKey key) = none) :
    put o key value inner = inner ++ [leaf (keyLine (indentIn o inner) key value)] := by
  rw [put, h]
  rfl

theorem indentIn_put (hkey : IsName key) (hvalue : ∀ c ∈ value, isNameChar c)
    (h : (inner.find? (isKey key)).isSome) : indentIn o (put o key value inner) = indentIn o inner := by
  rw [put_of_isSome h, indentIn_eq, indentIn_eq,
    firstIndent_modifyFirst fun x hx => firstIndent_respell hkey hvalue hx]

/-- **Keys are set in either order**, where one of them is there. -/
theorem put_comm {key' value' : Str} (hkey : IsName key) (hvalue : ∀ c ∈ value, isNameChar c) (hkey' : IsName key')
    (hvalue' : ∀ c ∈ value', isNameChar c) (hne : key ≠ key') (h : (inner.find? (isKey key)).isSome) :
    put o key value (put o key' value' inner) = put o key' value' (put o key value inner) := by
  have hthere : ((put o key' value' inner).find? (isKey key)).isSome := by
    rwa [find?_put hkey' hvalue' fun x hx => isKey_of_ne (Ne.symm hne) hx]
  have hsame : (put o key value inner).find? (isKey key') = inner.find? (isKey key') :=
    find?_put hkey hvalue (fun x hx => isKey_of_ne hne hx) o inner
  rw [put_of_isSome hthere]
  cases hfind : inner.find? (isKey key') with
  | some x =>
    have h' : (inner.find? (isKey key')).isSome := by
      rw [hfind]
      rfl
    have hthere' : ((put o key value inner).find? (isKey key')).isSome := by rwa [hsame]
    rw [put_of_isSome hthere', put_of_isSome h', put_of_isSome h]
    refine modifyFirst_comm (fun x hx => ⟨isKey_of_ne hne hx, ?_⟩)
      (fun x hx => ⟨isKey_of_ne (Ne.symm hne) hx, ?_⟩) inner
    · exact isKey_of_ne hne (isKey_respell hkey hvalue hx).1
    · exact isKey_of_ne (Ne.symm hne) (isKey_respell hkey' hvalue' hx).1
  | none =>
    obtain ⟨x, hx⟩ := Option.isSome_iff_exists.mp h
    rw [put_of_none hfind, put_of_none (hsame.trans hfind), indentIn_put hkey hvalue h,
      modifyFirst_append_of_find? _ hx, ← put_of_isSome h]

/-- The line of a key that has the second value has it in the spelling of the
edit, or the first value is the same. -/
def FreeLine (key value₁ value₂ : Str) (inner : List (Item Str)) : Prop :=
  ∀ line, inner.find? (isKey key) = some (leaf line) → lineValue line = value₂ →
    value₂ = value₁ ∨ line = keyLine (indentOf line) key value₂

/-- **Set once and again, a key is as set again.** -/
theorem put_put {value' : Str} (hkey : IsName key) (hvalue : ∀ c ∈ value, isNameChar c)
    (h : FreeLine key value value' inner) : put o key value' (put o key value inner) = put o key value' inner := by
  cases hfind : inner.find? (isKey key) with
  | none =>
    have hblank := blank_indentIn o inner
    have hnew : isKey key (leaf (keyLine (indentIn o inner) key value)) :=
      (isKey_keyLine hblank hkey hvalue key).mpr rfl
    have hthere : (inner ++ [leaf (keyLine (indentIn o inner) key value)]).find? (isKey key) =
        some (leaf (keyLine (indentIn o inner) key value)) := by
      rw [List.find?_append, hfind, Option.none_or, List.find?_singleton, if_pos hnew]
    rw [put_of_none hfind, put_of_none hfind, put_of_isSome (by rw [hthere]; rfl), modifyFirst_append _ hfind,
      modifyFirst, if_pos hnew, respell, lineValue_keyLine hblank hkey hvalue, indentOf_keyLine hblank hkey]
    split
    · rename_i heq
      rw [heq]
    · rfl
  | some x =>
    have hsome : (inner.find? (isKey key)).isSome := by
      rw [hfind]
      rfl
    have hkeep : ∀ y, isKey key y → isKey key (respell key value y) := fun y hy => (isKey_respell hkey hvalue hy).1
    have hthere : ((modifyFirst (isKey key) (respell key value) inner).find? (isKey key)).isSome := by
      rw [find?_modifyFirst hkeep, hfind]
      rfl
    rw [put_of_isSome hsome, put_of_isSome hsome, put_of_isSome hthere, modifyFirst_modifyFirst hkeep]
    refine modifyFirst_congr fun y hy => ?_
    cases y with
    | node o' is c => rfl
    | leaf line =>
      have hblank := blank_indentOf line
      simp only [Function.comp, respell]
      by_cases h₁ : lineValue line = value
      · rw [if_pos h₁]
      · rw [if_neg h₁, lineValue_keyLine hblank hkey hvalue, indentOf_keyLine hblank hkey]
        by_cases h₂ : lineValue line = value'
        · rcases h line hy h₂ with heq | heq
          · exact absurd (h₂.trans heq) h₁
          · have hne : value ≠ value' := fun heq' => h₁ (h₂.trans heq'.symm)
            rw [if_pos h₂, if_neg hne, ← heq]
        · rw [if_neg h₂]
          split
          · rename_i heq
            rw [heq]
          · rfl

end

/-! ### One token after another -/

namespace Place

/-- What a pass looks for is there, whatever its value is. -/
def Placed : Place → List (Item Str) → Prop
  | .token, inner => (inner.find? (isKey "token".toList)).isSome
  | .block link, inner => (inner.find? (isInterface link)).isSome
  | .knet link k, inner =>
    ∃ x, inner.find? (isInterface link) = some x ∧ ((itemInner x).find? (isKey k.key)).isSome

/-- Where it has the second token's value, it has it in the spelling of the
edit, or the first token's value is the same. -/
def Free (token₁ token₂ : ℤ) : Place → List (Item Str) → Prop
  | .token, inner => FreeLine "token".toList (Py.Conv.textOf token₁) (Py.Conv.textOf token₂) inner
  | .block _, _ => True
  | .knet link k, inner => ∀ x, inner.find? (isInterface link) = some x →
      FreeLine k.key (k.value token₁) (k.value token₂) (itemInner x)

variable (o : Str) (token token' : ℤ)

theorem isSome_of_valueIn {key value : Str} {inner : List (Item Str)} (h : valueIn key inner = some value) :
    (inner.find? (isKey key)).isSome := by
  obtain ⟨x, hx, -⟩ := Option.map_eq_some_iff.mp h
  rw [hx]
  rfl

theorem placed_of_holds {p : Place} {inner : List (Item Str)} (h : p.Holds token inner) : p.Placed inner := by
  cases p with
  | token => exact isSome_of_valueIn h
  | block link => exact h
  | knet link k =>
    obtain ⟨x, hx, hvalue⟩ := Option.bind_eq_some_iff.mp h
    exact ⟨x, hx, isSome_of_valueIn hvalue⟩

theorem placed_fix (p q : Place) {inner : List (Item Str)} (h : p.Placed inner) : p.Placed (q.fix o token inner) := by
  by_cases hpq : q = p
  · exact hpq ▸ placed_of_holds token (q.fixed o token inner)
  cases p with
  | token =>
    have hsame := find?_isKey_fix o token hpq inner "token".toList
    rw [Placed, hsame]
    exact h
  | block link =>
    obtain ⟨x, hx⟩ := Option.isSome_iff_exists.mp h
    rcases find?_isInterface_fix_of_some o token q hx with h' | ⟨k, -, h'⟩ <;> simp [Placed, h']
  | knet link k =>
    obtain ⟨x, hx, hkey⟩ := h
    rcases find?_isInterface_fix_of_some o token q hx with h' | ⟨k', rfl, h'⟩
    · exact ⟨x, h', hkey⟩
    · have hk : k' ≠ k := fun heq => hpq (by rw [heq])
      refine ⟨_, h', ?_⟩
      rw [find?_putKnet token (List.find?_some hx) hk]
      exact hkey

theorem put_ensure {link : ℕ} {inner : List (Item Str)} (h : (inner.find? (isKey "token".toList)).isSome) :
    put o "token".toList (Py.Conv.textOf token) (ensure o link inner) =
      ensure o link (put o "token".toList (Py.Conv.textOf token) inner) := by
  have hsame : (put o "token".toList (Py.Conv.textOf token) inner).find? (isInterface link) =
      inner.find? (isInterface link) :=
    find?_put isName_token (isNameChar_textOf token) (fun y hy => isInterface_of_isKey hy) o inner
  cases hfind : inner.find? (isInterface link) with
  | some x => rw [ensure_of_find? hfind, ensure_of_find? (hsame.trans hfind)]
  | none =>
    obtain ⟨x, hx⟩ := Option.isSome_iff_exists.mp h
    have hthere : (inner ++ [newInterface (indentIn o inner) link]).find? (isKey "token".toList) = some x := by
      rw [List.find?_append, hx, Option.some_or]
    rw [ensure_of_none hfind, ensure_of_none (hsame.trans hfind), indentIn_put isName_token (isNameChar_textOf token) h,
      put_of_isSome (by rw [hthere]; rfl), modifyFirst_append_of_find? _ hx, ← put_of_isSome h]

theorem put_modifyFirst {link : ℕ} (k : Knet) {inner : List (Item Str)}
    (h : (inner.find? (isKey "token".toList)).isSome) :
    put o "token".toList (Py.Conv.textOf token) (modifyFirst (isInterface link) (putKnet token' k) inner) =
      modifyFirst (isInterface link) (putKnet token' k) (put o "token".toList (Py.Conv.textOf token) inner) := by
  have hblock : ∀ x, isInterface link x →
      isKey "token".toList x = false ∧ isKey "token".toList (putKnet token' k x) = false := by
    intro x hx
    have hput : isInterface link (putKnet token' k x) := by rwa [isInterface_putKnet]
    exact ⟨isKey_of_isInterface hx, isKey_of_isInterface hput⟩
  have hthere : ((modifyFirst (isInterface link) (putKnet token' k) inner).find? (isKey "token".toList)).isSome := by
    rwa [find?_modifyFirst_of_disjoint hblock]
  rw [put_of_isSome hthere, put_of_isSome h]
  refine modifyFirst_comm (fun x hx => ⟨isInterface_of_isKey hx, ?_⟩) hblock inner
  exact isInterface_of_isKey (isKey_respell isName_token (isNameChar_textOf token) hx).1

theorem indentIn_modifyFirst (link : ℕ) (k : Knet) (inner : List (Item Str)) :
    indentIn o (modifyFirst (isInterface link) (putKnet token k) inner) = indentIn o inner := by
  have hsame : ∀ x, isInterface link x → firstIndent [putKnet token k x] = firstIndent [x] := fun x hx =>
    firstIndent_putIn k.key (k.value token) hx
  rw [indentIn_eq, indentIn_eq, firstIndent_modifyFirst hsame]

theorem modifyFirst_put {link : ℕ} (k : Knet) {x : Item Str} {inner : List (Item Str)}
    (h : inner.find? (isInterface link) = some x) :
    modifyFirst (isInterface link) (putKnet token k) (put o "token".toList (Py.Conv.textOf token') inner) =
      put o "token".toList (Py.Conv.textOf token') (modifyFirst (isInterface link) (putKnet token k) inner) := by
  cases hfind : inner.find? (isKey "token".toList) with
  | some y => exact (put_modifyFirst o token' token k (by rw [hfind]; rfl)).symm
  | none =>
    have hsame : (modifyFirst (isInterface link) (putKnet token k) inner).find? (isKey "token".toList) = none := by
      rw [find?_modifyFirst_of_disjoint (fun x hx => ⟨isKey_of_isInterface hx, ?_⟩), hfind]
      have hput : isInterface link (putKnet token k x) := by rwa [isInterface_putKnet]
      exact isKey_of_isInterface hput
    rw [put_of_none hfind, put_of_none hsame, indentIn_modifyFirst, modifyFirst_append_of_find? _ h]

theorem modifyFirst_ensure {link : ℕ} (k : Knet) (link' : ℕ) {x : Item Str} {inner : List (Item Str)}
    (h : inner.find? (isInterface link) = some x) :
    modifyFirst (isInterface link) (putKnet token k) (ensure o link' inner) =
      ensure o link' (modifyFirst (isInterface link) (putKnet token k) inner) := by
  have hkeep : ∀ y, isInterface link' y → isInterface link' (putKnet token k y) := fun y hy => by
    rwa [isInterface_putKnet]
  by_cases hlink : link = link'
  · subst hlink
    have hthere : (modifyFirst (isInterface link) (putKnet token k) inner).find? (isInterface link) =
        some (putKnet token k x) := by rw [find?_modifyFirst hkeep, h, Option.map_some]
    rw [ensure_of_find? h, ensure_of_find? hthere]
  · have hsame : (modifyFirst (isInterface link) (putKnet token k) inner).find? (isInterface link') =
        inner.find? (isInterface link') := by
      refine find?_modifyFirst_of_disjoint (fun y hy => ⟨isInterface_of_ne hlink hy, ?_⟩) inner
      exact isInterface_of_ne hlink (by rwa [isInterface_putKnet])
    cases hfind : inner.find? (isInterface link') with
    | some y => rw [ensure_of_find? hfind, ensure_of_find? (hsame.trans hfind)]
    | none =>
      rw [ensure_of_none hfind, ensure_of_none (hsame.trans hfind), indentIn_modifyFirst,
        modifyFirst_append_of_find? _ h]

/-- Keys of blocks are set in either order, where one of them is there. -/
theorem modifyFirst_modifyFirst_comm {link link' : ℕ} {k k' : Knet} (hne : ¬ (link = link' ∧ k = k'))
    {inner : List (Item Str)} (h : (Place.knet link k).Placed inner) :
    modifyFirst (isInterface link) (putKnet token k) (modifyFirst (isInterface link') (putKnet token' k') inner) =
      modifyFirst (isInterface link') (putKnet token' k') (modifyFirst (isInterface link) (putKnet token k) inner) := by
  by_cases hlink : link = link'
  · subst hlink
    have hk : k ≠ k' := fun heq => hne ⟨rfl, heq⟩
    obtain ⟨x, hx, hkey⟩ := h
    rw [modifyFirst_modifyFirst fun y hy => by rwa [isInterface_putKnet],
      modifyFirst_modifyFirst fun y hy => by rwa [isInterface_putKnet]]
    refine modifyFirst_congr fun y hy => ?_
    obtain rfl : x = y := Option.some.inj (hx.symm.trans hy)
    cases x with
    | leaf line => rfl
    | node o' is c =>
      have hkeys : k.key ≠ k'.key := fun heq => hk (Knet.key_injective heq)
      have hput : put o' k.key (k.value token) (put o' k'.key (k'.value token') is) =
          put o' k'.key (k'.value token') (put o' k.key (k.value token) is) :=
        put_comm k.isName_key (k.isNameChar_value token) k'.isName_key (k'.isNameChar_value token') hkeys hkey
      simp only [Function.comp, putKnet, putIn, hput]
  · refine modifyFirst_comm (fun y hy => ⟨isInterface_of_ne hlink hy, ?_⟩)
      (fun y hy => ⟨isInterface_of_ne (Ne.symm hlink) hy, ?_⟩) inner
    · exact isInterface_of_ne hlink (by rwa [isInterface_putKnet])
    · exact isInterface_of_ne (Ne.symm hlink) (by rwa [isInterface_putKnet])

/-- **A repair of what is there commutes with those of other places.** -/
theorem fix_comm {p q : Place} {inner : List (Item Str)} (hne : p ≠ q) (h : p.Placed inner) :
    p.fix o token (q.fix o token' inner) = q.fix o token' (p.fix o token inner) := by
  cases p with
  | token =>
    cases q with
    | token => exact absurd rfl hne
    | block link => exact put_ensure o token h
    | knet link k =>
      have hthere : ((ensure o link inner).find? (isKey "token".toList)).isSome := by
        rwa [find?_ensure_of_not fun x hx => isKey_of_isInterface hx]
      show put o "token".toList (Py.Conv.textOf token) (modifyFirst (isInterface link) (putKnet token' k)
        (ensure o link inner)) = _
      rw [put_modifyFirst o token token' k hthere, put_ensure o token h]
      rfl
  | block link =>
    have hidle : ∀ items, (Place.block link).Placed items → (Place.block link).fix o token items = items :=
      fun items hitems => idle o token hitems
    rw [hidle _ h, hidle _ (placed_fix o token' _ q h)]
  | knet link k =>
    obtain ⟨x, hx, hkey⟩ := h
    have hfix : ∀ {items : List (Item Str)} {y : Item Str}, items.find? (isInterface link) = some y →
        (Place.knet link k).fix o token items = modifyFirst (isInterface link) (putKnet token k) items := by
      intro items y hy
      rw [fix, ensure_of_find? hy]
    obtain ⟨y, hy, -⟩ := placed_fix o token' (.knet link k) q ⟨x, hx, hkey⟩
    rw [hfix hx, hfix hy]
    cases q with
    | token => exact modifyFirst_put o token token' k hx
    | block link' => exact modifyFirst_ensure o token k link' hx
    | knet link' k' =>
      have hplaced : (Place.knet link k).Placed (ensure o link' inner) :=
        placed_fix o token' (.knet link k) (.block link') ⟨x, hx, hkey⟩
      have hdiff : ¬ (link = link' ∧ k = k') := fun heq => hne (by rw [heq.1, heq.2])
      rw [fix, modifyFirst_modifyFirst_comm token token' hdiff hplaced, modifyFirst_ensure o token k link' hx]
      rfl

/-- **After the repair for one token, that for another comes to what it comes to alone.** -/
theorem fix_fix {p : Place} {inner : List (Item Str)} (h : p.Free token token' inner) :
    p.fix o token' (p.fix o token inner) = p.fix o token' inner := by
  cases p with
  | token => exact put_put isName_token (isNameChar_textOf token) h
  | block link => exact idle o token' (fixed o token (.block link) inner)
  | knet link k =>
    have hkeep : ∀ y, isInterface link y → isInterface link (putKnet token k y) := fun y hy => by
      rwa [isInterface_putKnet]
    rw [fix, ensure_of_find? (find?_knet o token link k inner), fix, modifyFirst_modifyFirst hkeep, fix]
    refine modifyFirst_congr fun x hx => ?_
    have hfree : FreeLine k.key (k.value token) (k.value token') (itemInner x) := by
      rw [find?_ensure] at hx
      cases hfind : inner.find? (isInterface link) with
      | some y =>
        rw [hfind, Option.getD_some] at hx
        exact h x (hfind.trans hx)
      | none =>
        rw [hfind, Option.getD_none] at hx
        intro line hline
        rw [← Option.some.inj hx, find?_newInterface (blank_indentIn o inner) (Ne.symm k.key_ne)] at hline
        cases hline
    cases x with
    | leaf line => rfl
    | node o' is c =>
      have hput : put o' k.key (k.value token') (put o' k.key (k.value token) is) = put o' k.key (k.value token') is :=
        put_put k.isName_key (k.isNameChar_value token) hfree
      simp only [Function.comp, putKnet, putIn, hput]

theorem free_fix {p q : Place} {inner : List (Item Str)} (hne : p ≠ q) (h : q.Free token token' inner) :
    q.Free token token' (p.fix o token' inner) := by
  cases q with
  | token =>
    have hsame := find?_isKey_fix o token' hne inner "token".toList
    rw [Free, FreeLine, hsame]
    exact h
  | block link => trivial
  | knet link k =>
    intro x hx
    -- the line of this key is the one that was there
    have hsame : ∀ y, inner.find? (isInterface link) = some y →
        (itemInner x).find? (isKey k.key) = (itemInner y).find? (isKey k.key) →
        FreeLine k.key (k.value token) (k.value token') (itemInner x) := by
      intro y hy heq
      rw [FreeLine, heq]
      exact h y hy
    have hnone : (itemInner x).find? (isKey k.key) = none →
        FreeLine k.key (k.value token) (k.value token') (itemInner x) := by
      intro hfind line hline
      rw [hfind] at hline
      cases hline
    have hnew := find?_newInterface (blank_indentIn o inner) (Ne.symm k.key_ne) link
    have hiface : isInterface link (newInterface (indentIn o inner) link) :=
      (isInterface_newInterface (blank_indentIn o inner) link link).mpr rfl
    rcases find?_isInterface_fix o token' p link inner with hp | ⟨-, hp⟩ | ⟨k', rfl, hp⟩
    · exact hsame x (hp ▸ hx) rfl
    · cases hfind : inner.find? (isInterface link) with
      | some y =>
        rw [hfind, Option.getD_some, hx] at hp
        exact hsame y hfind (by rw [Option.some.inj hp])
      | none =>
        rw [hfind, Option.getD_none, hx] at hp
        exact hnone (by rw [Option.some.inj hp, hnew])
    · have hk : k' ≠ k := fun heq => hne (by rw [heq])
      cases hfind : inner.find? (isInterface link) with
      | some y =>
        rw [hfind, Option.getD_some, hx] at hp
        exact hsame y hfind (by rw [Option.some.inj hp, find?_putKnet token' (List.find?_some hfind) hk])
      | none =>
        rw [hfind, Option.getD_none, hx] at hp
        exact hnone (by rw [Option.some.inj hp, find?_putKnet token' hiface hk, hnew])

end Place

/-- **The edit for a second token after one for a first comes to the second
alone**, where nothing has the second's value in another spelling. -/
theorem settle_settle_of_free (o : Str) (token₁ token₂ : ℤ) {links : List ℕ} (hlinks : links.Nodup)
    {inner : List (Item Str)} (hfree : ∀ p ∈ places links, p.Free token₁ token₂ inner) :
    (repairs o token₂).settle (places links) ((repairs o token₁).settle (places links) inner) =
      (repairs o token₂).settle (places links) inner :=
  @Repairs.settle_settle _ _ (repairs o token₁) (repairs o token₂) Place.Placed (Place.Free token₁ token₂)
    (fun p s => Place.placed_of_holds token₁ (p.fixed o token₁ s))
    (fun p q _ hs => Place.placed_fix o token₁ p q hs)
    (fun _ _ _ hne hs => Place.fix_comm o token₂ token₁ hne hs)
    (fun _ _ hs => Place.fix_fix o token₁ token₂ hs)
    (fun _ _ _ hne hs => Place.free_fix o token₁ token₂ hne hs)
    _ _ (nodup_places hlinks) hfree

end Heartbeat
end MqResiliency
