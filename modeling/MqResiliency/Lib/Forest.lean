/-
# Lists with nested sections

A list some of whose elements open and close sections, read as the trees that
it is the listing of (`Item`, `flat`). The elements of such a listing that open
do open, those that close do close, and the others do neither (`Sound`). A list
whose sections are all closed, and closed only when open (`level`), is the
listing of trees (`exists_flat`).

`modifyFirst` changes the first element of a list with a property; two such
changes that stay out of each other's way commute (`modifyFirst_comm`).
-/
import Mathlib.Data.List.Basic

namespace MqResiliency

/-- An element by itself, or a section with what it holds. -/
inductive Item (α : Type) : Type where
  | leaf (a : α)
  | node (opening : α) (items : List (Item α)) (closing : α)

namespace Item

variable {α : Type}

mutual

/-- The listing of one. -/
def elems : Item α → List α
  | leaf a => [a]
  | node opening items closing => opening :: (flat items ++ [closing])

/-- The listing. -/
def flat : List (Item α) → List α
  | [] => []
  | x :: items => elems x ++ flat items

end

@[simp] theorem flat_nil : flat ([] : List (Item α)) = [] := rfl

@[simp] theorem flat_leaf (a : α) (items : List (Item α)) : flat (leaf a :: items) = a :: flat items := rfl

@[simp] theorem flat_node (o c : α) (inner items : List (Item α)) :
    flat (node o inner c :: items) = o :: (flat inner ++ c :: flat items) := by
  show (o :: (flat inner ++ [c])) ++ flat items = _
  simp

@[simp] theorem flat_append : ∀ xs ys : List (Item α), flat (xs ++ ys) = flat xs ++ flat ys
  | [], _ => rfl
  | x :: xs, ys => by
    show elems x ++ flat (xs ++ ys) = elems x ++ flat xs ++ flat ys
    rw [flat_append xs ys, List.append_assoc]

/-- Induction over trees side by side. -/
@[elab_as_elim]
theorem forest {P : List (Item α) → Prop} (nil : P []) (leaf : ∀ a items, P items → P (leaf a :: items))
    (node : ∀ o inner c items, P inner → P items → P (node o inner c :: items)) : ∀ items, P items
  | [] => nil
  | .leaf a :: items => leaf a items (forest nil leaf node items)
  | .node o inner c :: items => node o inner c items (forest nil leaf node inner) (forest nil leaf node items)

/-! ### What opens and what closes -/

section
variable (opens closes : α → Prop)

mutual

/-- The elements of the item are what they stand for. -/
def SoundItem : Item α → Prop
  | leaf a => ¬ opens a ∧ ¬ closes a
  | node opening items closing => opens opening ∧ ¬ closes opening ∧ closes closing ∧ ¬ opens closing ∧ Sound items

/-- The elements are what they stand for. -/
def Sound : List (Item α) → Prop
  | [] => True
  | x :: items => SoundItem x ∧ Sound items

end

variable {opens closes}

@[simp] theorem sound_nil : Sound opens closes [] := trivial

@[simp] theorem sound_cons {x : Item α} {items : List (Item α)} :
    Sound opens closes (x :: items) ↔ SoundItem opens closes x ∧ Sound opens closes items := Iff.rfl

@[simp] theorem sound_append {ys : List (Item α)} : ∀ {xs : List (Item α)},
    Sound opens closes (xs ++ ys) ↔ Sound opens closes xs ∧ Sound opens closes ys
  | [] => by simp
  | x :: xs => by
    have ih : Sound opens closes (xs ++ ys) ↔ Sound opens closes xs ∧ Sound opens closes ys := sound_append
    rw [List.cons_append, sound_cons, sound_cons, ih, and_assoc]

end

section
variable (opens closes : α → Prop) [DecidablePred opens] [DecidablePred closes]

/-- How many sections are open after the list, from `d` on; `none` if one is
closed that is not open. -/
def level : ℕ → List α → Option ℕ
  | d, [] => some d
  | d, a :: as =>
    if opens a then level (d + 1) as
    else if closes a then
      if d = 0 then none else level (d - 1) as
    else level d as

variable {opens closes}

/-- From `d` open sections on: what is in the innermost, and behind each end
what is in the next. -/
theorem exists_flat_of_level (hdisjoint : ∀ a, opens a → ¬ closes a) : ∀ (as : List α) (d : ℕ),
    level opens closes d as = some 0 →
    ∃ (items : List (Item α)) (tails : List (α × List (Item α))), tails.length = d ∧
      as = flat items ++ tails.flatMap (fun t => t.1 :: flat t.2) ∧
      Sound opens closes items ∧ ∀ t ∈ tails, closes t.1 ∧ Sound opens closes t.2
  | [], d, h => by
    obtain rfl : d = 0 := Option.some.inj h
    exact ⟨[], [], rfl, rfl, trivial, by simp⟩
  | a :: as, d, h => by
    rw [level] at h
    split at h
    · rename_i hopen
      obtain ⟨items, tails, hlen, heq, hitems, htails⟩ := exists_flat_of_level hdisjoint as (d + 1) h
      cases tails with
      | nil => cases hlen
      | cons t tails =>
        obtain ⟨⟨hclose, ht⟩, htails⟩ := List.forall_mem_cons.mp htails
        have hnode : SoundItem opens closes (node a items t.1) :=
          ⟨hopen, hdisjoint a hopen, hclose, fun ho => hdisjoint _ ho hclose, hitems⟩
        exact ⟨node a items t.1 :: t.2, tails, by simpa using hlen, by simp [heq], ⟨hnode, ht⟩, htails⟩
    · rename_i hopen
      split at h
      · rename_i hclose
        split at h
        · cases h
        · obtain ⟨items, tails, hlen, heq, hitems, htails⟩ := exists_flat_of_level hdisjoint as (d - 1) h
          refine ⟨[], (a, items) :: tails, ?_, by simp [heq], trivial, ?_⟩
          · rw [List.length_cons]
            omega
          · exact List.forall_mem_cons.mpr ⟨⟨hclose, hitems⟩, htails⟩
      · rename_i hclose
        obtain ⟨items, tails, hlen, heq, hitems, htails⟩ := exists_flat_of_level hdisjoint as d h
        exact ⟨leaf a :: items, tails, hlen, by simp [heq], ⟨⟨hopen, hclose⟩, hitems⟩, htails⟩

/-- **A list whose sections are all closed is a listing.** -/
theorem exists_flat (hdisjoint : ∀ a, opens a → ¬ closes a) {as : List α} (h : level opens closes 0 as = some 0) :
    ∃ items, as = flat items ∧ Sound opens closes items := by
  obtain ⟨items, tails, hlen, heq, hitems, -⟩ := exists_flat_of_level hdisjoint as 0 h
  rw [List.length_eq_zero_iff] at hlen
  exact ⟨items, by simpa [hlen] using heq, hitems⟩

end
end Item

/-! ### The first element with a property -/

section
variable {α : Type}

/-- The list with its first element that has the property changed. -/
def modifyFirst (p : α → Bool) (f : α → α) : List α → List α
  | [] => []
  | a :: as => if p a then f a :: as else a :: modifyFirst p f as

variable {p q : α → Bool} {f g : α → α}

theorem modifyFirst_append_of_find? {a : α} : ∀ {as : List α} (bs : List α), as.find? p = some a →
    modifyFirst p f (as ++ bs) = modifyFirst p f as ++ bs
  | b :: as, bs, h => by
    rw [List.cons_append, modifyFirst, modifyFirst]
    by_cases hb : p b
    · simp [hb]
    · rw [List.find?_cons_of_neg hb] at h
      simp [hb, modifyFirst_append_of_find? bs h]

theorem modifyFirst_of_find? : ∀ {as : List α}, as.find? p = none → modifyFirst p f as = as
  | [], _ => rfl
  | a :: as, h => by
    obtain ⟨ha, has⟩ : p a = false ∧ as.find? p = none := by
      simpa [List.find?_eq_none] using h
    simp [modifyFirst, ha, modifyFirst_of_find? has]

theorem modifyFirst_append {as : List α} (bs : List α) (h : as.find? p = none) :
    modifyFirst p f (as ++ bs) = as ++ modifyFirst p f bs := by
  induction as with
  | nil => rfl
  | cons a as ih =>
    obtain ⟨ha, has⟩ : p a = false ∧ as.find? p = none := by
      simpa [List.find?_eq_none] using h
    simp [modifyFirst, ha, ih has]

/-- The change is found where the element was. -/
theorem find?_modifyFirst (h : ∀ a, p a → p (f a)) : ∀ as : List α,
    (modifyFirst p f as).find? p = (as.find? p).map f
  | [] => rfl
  | a :: as => by
    by_cases ha : p a
    · simp [modifyFirst, ha, h a ha]
    · simp [modifyFirst, ha, find?_modifyFirst h as]

/-- The change of an element is not seen by a property that neither it nor what
it becomes has. -/
theorem find?_modifyFirst_of_disjoint (h : ∀ a, p a → q a = false ∧ q (f a) = false) : ∀ as : List α,
    (modifyFirst p f as).find? q = as.find? q
  | [] => rfl
  | a :: as => by
    by_cases ha : p a
    · simp [modifyFirst, ha, h a ha]
    · simp [modifyFirst, ha, List.find?_cons, find?_modifyFirst_of_disjoint h as]

theorem modifyFirst_modifyFirst (h : ∀ a, p a → p (g a)) : ∀ as : List α,
    modifyFirst p f (modifyFirst p g as) = modifyFirst p (f ∘ g) as
  | [] => rfl
  | a :: as => by
    by_cases ha : p a
    · simp [modifyFirst, ha, h a ha]
    · simp [modifyFirst, ha, modifyFirst_modifyFirst h as]

/-- **Changes of different elements commute.** -/
theorem modifyFirst_comm (hp : ∀ a, p a → q a = false ∧ q (f a) = false)
    (hq : ∀ a, q a → p a = false ∧ p (g a) = false) : ∀ as : List α,
    modifyFirst p f (modifyFirst q g as) = modifyFirst q g (modifyFirst p f as)
  | [] => rfl
  | a :: as => by
    have ih := modifyFirst_comm hp hq as
    by_cases ha : p a
    · simp [modifyFirst, ha, hp a ha]
    · by_cases hqa : q a
      · simp [modifyFirst, ha, hqa, hq a hqa]
      · simp [modifyFirst, ha, hqa, ih]

/-- Only what it does to that element matters. -/
theorem modifyFirst_congr {as : List α} (h : ∀ a, as.find? p = some a → f a = g a) :
    modifyFirst p f as = modifyFirst p g as := by
  induction as with
  | nil => rfl
  | cons a as ih =>
    by_cases ha : p a
    · have hfa := h a (List.find?_cons_of_pos ha)
      simp [modifyFirst, ha, hfa]
    · have hrec := ih fun b hb => h b (by rwa [List.find?_cons_of_neg ha])
      simp [modifyFirst, ha, hrec]

theorem modifyFirst_id : ∀ as : List α, modifyFirst p id as = as
  | [] => rfl
  | a :: as => by simp [modifyFirst, modifyFirst_id as]

theorem modifyFirst_eq_self {as : List α} (h : ∀ a, as.find? p = some a → f a = a) : modifyFirst p f as = as :=
  (modifyFirst_congr h).trans (modifyFirst_id as)

end
end MqResiliency
