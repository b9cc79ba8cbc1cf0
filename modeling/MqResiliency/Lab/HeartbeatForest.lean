/-
# The sections of a corosync.conf as trees

The lines that `parse` accepts are the listing of trees (`exists_forest`), and
what it makes of such a listing is said over the trees: its sections are those
of `sectionsFrom`, at the positions of the listing (`parse_flat`). Their keys
are found where the key's first line among the section's own is
(`get?_keysFrom`).

The names of the nodelist's keys do not depend on what stands elsewhere
(`nodeKeys_sectionsFrom`).
-/
import MqResiliency.Lab.Heartbeat
import MqResiliency.Lib.Forest

namespace MqResiliency
namespace Heartbeat

open Item
open Py (Str Dict)

/-- The name of the section that a line opens. -/
def nameOf (line : Str) : Option Str :=
  match kindOf line with
  | .opening name => some name
  | _ => none

def Opens (line : Str) : Prop := (nameOf line).isSome

def Closes (line : Str) : Prop := kindOf line = .closing

instance : DecidablePred Opens := fun _ => inferInstanceAs (Decidable (_ = true))

instance : DecidablePred Closes := fun _ => inferInstanceAs (Decidable (_ = _))

theorem not_closes_of_opens (line : Str) (h : Opens line) : ¬ Closes line := by
  unfold Opens nameOf at h
  unfold Closes
  split at h
  · rename_i name hkind
    rw [hkind]
    simp
  · cases h

theorem opens_iff {line : Str} : Opens line ↔ ∃ name, kindOf line = .opening name := by
  unfold Opens nameOf
  split <;> simp_all

theorem nameOf_eq_some {line name : Str} : nameOf line = some name ↔ kindOf line = .opening name := by
  unfold nameOf
  split <;> simp_all

/-- The key that a line sets, and its value. -/
def keyOf (line : Str) : Option (Str × Str) :=
  match kindOf line with
  | .key key value => some (key, value)
  | _ => none

theorem keyOf_eq_some {line : Str} {kv : Str × Str} : keyOf line = some kv ↔ kindOf line = .key kv.1 kv.2 := by
  unfold keyOf
  split <;> simp_all [Prod.ext_iff]

theorem keyOf_of_opens {line : Str} (h : Opens line) : keyOf line = none := by
  obtain ⟨name, hname⟩ := opens_iff.mp h
  rw [keyOf, hname]

/-- Lines that are what they stand for. -/
abbrev SoundLines (items : List (Item Str)) : Prop := Sound Opens Closes items

/-! ### Keys and sections of trees -/

/-- The keys after the items, at the positions from `i` on. -/
def keysFrom : ℕ → List (Item Str) → Dict Str (ℕ × Str) → Dict Str (ℕ × Str)
  | _, [], d => d
  | i, leaf line :: items, d =>
    keysFrom (i + 1) items
      (match keyOf line with
      | some (key, value) => d.setdefault key (i, value)
      | none => d)
  | i, node opening inner closing :: items, d => keysFrom (i + (elems (node opening inner closing)).length) items d

mutual

/-- The section that an item is, if it is one. -/
def sectionOf (path : List Str) (i : ℕ) : Item Str → List Section
  | leaf _ => []
  | node opening inner _ =>
    let name := (nameOf opening).getD []
    [⟨name, path ++ [name], i, i + 1 + (flat inner).length, keysFrom (i + 1) inner .empty,
      sectionsFrom (path ++ [name]) (i + 1) inner⟩]

/-- The sections among the items, at the positions from `i` on. -/
def sectionsFrom (path : List Str) (i : ℕ) : List (Item Str) → List Section
  | [] => []
  | x :: items => sectionOf path i x ++ sectionsFrom path (i + (elems x).length) items

end

/-- The section of a node. -/
def nodeSection (path : List Str) (i : ℕ) (opening : Str) (inner : List (Item Str)) : Section :=
  let name := (nameOf opening).getD []
  ⟨name, path ++ [name], i, i + 1 + (flat inner).length, keysFrom (i + 1) inner .empty,
    sectionsFrom (path ++ [name]) (i + 1) inner⟩

@[simp] theorem sectionsFrom_nil (path : List Str) (i : ℕ) : sectionsFrom path i [] = [] := rfl

@[simp] theorem sectionsFrom_leaf (path : List Str) (i : ℕ) (line : Str) (items : List (Item Str)) :
    sectionsFrom path i (leaf line :: items) = sectionsFrom path (i + 1) items := rfl

@[simp] theorem sectionsFrom_node (path : List Str) (i : ℕ) (o c : Str) (inner items : List (Item Str)) :
    sectionsFrom path i (node o inner c :: items) =
      nodeSection path i o inner :: sectionsFrom path (i + (elems (node o inner c)).length) items := rfl

theorem length_elems_node (o c : Str) (inner : List (Item Str)) :
    (elems (node o inner c)).length = (flat inner).length + 2 := by
  simp [elems]

theorem length_flat_cons (x : Item Str) (items : List (Item Str)) :
    (flat (x :: items)).length = (elems x).length + (flat items).length :=
  List.length_append

theorem keysFrom_append : ∀ (xs : List (Item Str)) (i : ℕ) (ys : List (Item Str)) (d : Dict Str (ℕ × Str)),
    keysFrom i (xs ++ ys) d = keysFrom (i + (flat xs).length) ys (keysFrom i xs d)
  | [], _, _, _ => rfl
  | leaf line :: xs, i, ys, d => by
    have hi : i + (flat (leaf line :: xs)).length = i + 1 + (flat xs).length := by
      rw [length_flat_cons]
      simp [elems]
      omega
    rw [List.cons_append, keysFrom, keysFrom_append xs, hi]
    rfl
  | node o inner c :: xs, i, ys, d => by
    have hi : i + (flat (node o inner c :: xs)).length =
        i + (elems (node o inner c)).length + (flat xs).length := by
      rw [length_flat_cons]
      omega
    rw [List.cons_append, keysFrom, keysFrom_append xs, hi]
    rfl

theorem sectionsFrom_append : ∀ (xs : List (Item Str)) (path : List Str) (i : ℕ) (ys : List (Item Str)),
    sectionsFrom path i (xs ++ ys) = sectionsFrom path i xs ++ sectionsFrom path (i + (flat xs).length) ys
  | [], _, _, _ => rfl
  | x :: xs, path, i, ys => by
    have hi : i + (flat (x :: xs)).length = i + (elems x).length + (flat xs).length := by
      rw [length_flat_cons]
      omega
    rw [List.cons_append, sectionsFrom, sectionsFrom_append xs, hi, ← List.append_assoc]
    rfl

/-! ### Parsing a listing -/

/-- The state of `parse` after the items. -/
def Parsing.absorb (p : Parsing) (i : ℕ) (items : List (Item Str)) : Parsing :=
  match p.stack with
  | [] => { p with roots := p.roots ++ sectionsFrom [] i items }
  | s :: stack =>
    { p with stack := { s with keys := keysFrom i items s.keys,
                               children := s.children ++ sectionsFrom s.path i items } :: stack }

theorem Parsing.absorb_nil (p : Parsing) (i : ℕ) : p.absorb i [] = p := by
  obtain ⟨stack, roots⟩ := p
  cases stack <;> simp [absorb, keysFrom]

theorem Parsing.absorb_append (p : Parsing) (i : ℕ) (xs ys : List (Item Str)) :
    p.absorb i (xs ++ ys) = (p.absorb i xs).absorb (i + (flat xs).length) ys := by
  obtain ⟨stack, roots⟩ := p
  cases stack <;> simp [absorb, sectionsFrom_append, keysFrom_append]

theorem Parsing.line_leaf {line : Str} (h : SoundItem Opens Closes (leaf line)) (p : Parsing) (i : ℕ) :
    p.line i line = .ok (p.absorb i [leaf line]) := by
  obtain ⟨hopen, hclose⟩ := h
  obtain ⟨stack, roots⟩ := p
  unfold Parsing.line
  cases hkind : kindOf line with
  | opening name => exact absurd (opens_iff.mpr ⟨name, hkind⟩) hopen
  | closing => exact absurd hkind hclose
  | key key value => cases stack <;> simp [note, absorb, keysFrom, keyOf, hkind]
  | other => cases stack <;> simp [absorb, keysFrom, keyOf, hkind]

/-- The end of a section puts it where it belongs. -/
theorem Parsing.pop_absorb (p : Parsing) (i : ℕ) {o name : Str} (ho : nameOf o = some name) (c : Str)
    (inner : List (Item Str)) :
    ((p.push name i).absorb (i + 1) inner).pop (i + 1 + (flat inner).length) =
      .ok (p.absorb i [node o inner c]) := by
  obtain ⟨stack, roots⟩ := p
  cases stack <;> simp [pop, add, push, absorb, Parsing.path, Opened.close, nodeSection, ho, keysFrom]

/-- **Parsing a listing goes through its trees.** -/
theorem Parsing.lines_flat (items : List (Item Str)) : ∀ (i : ℕ) (p : Parsing) (rest : List Str),
    SoundLines items →
    Parsing.lines i (flat items ++ rest) p = Parsing.lines (i + (flat items).length) rest (p.absorb i items) := by
  induction items using Item.forest with
  | nil =>
    intro i p rest _
    rw [absorb_nil]
    rfl
  | leaf line items ih =>
    intro i p rest h
    obtain ⟨hline, hitems⟩ := h
    have hi : i + (flat (leaf line :: items)).length = i + 1 + (flat items).length := by
      simp only [flat_leaf, List.length_cons]
      omega
    rw [flat_leaf, List.cons_append, Parsing.lines, line_leaf hline]
    show Parsing.lines (i + 1) (flat items ++ rest) (p.absorb i [leaf line]) = _
    rw [ih _ _ _ hitems, ← flat_leaf, hi, show leaf line :: items = [leaf line] ++ items from rfl, absorb_append p i]
    rfl
  | node o inner c items ihinner ih =>
    intro i p rest h
    obtain ⟨⟨hopen, -, hclose, -, hinner⟩, hitems⟩ := h
    obtain ⟨name, hname⟩ := opens_iff.mp hopen
    have hi : i + (flat (node o inner c :: items)).length = i + 1 + (flat inner).length + 1 + (flat items).length := by
      simp only [flat_node, List.length_cons, List.length_append]
      omega
    have hassoc : flat (node o inner c :: items) ++ rest = o :: (flat inner ++ c :: (flat items ++ rest)) := by simp
    rw [hassoc, Parsing.lines, line, hname]
    show Parsing.lines (i + 1) (flat inner ++ c :: (flat items ++ rest)) (p.push name i) = _
    have hpop := pop_absorb p i (nameOf_eq_some.mpr hname) c inner
    rw [ihinner _ _ _ hinner, Parsing.lines, line, hclose]
    simp only
    rw [hpop]
    show Parsing.lines (i + 1 + (flat inner).length + 1) (flat items ++ rest) (p.absorb i [node o inner c]) = _
    have hwidth : i + (flat [node o inner c]).length = i + 1 + (flat inner).length + 1 := by
      simp only [flat_node, flat_nil, List.length_cons, List.length_append, List.length_nil]
      omega
    rw [ih _ _ _ hitems, hi, show node o inner c :: items = [node o inner c] ++ items from rfl, absorb_append p i, hwidth]

/-- **The sections of a listing are those of its trees.** -/
theorem parse_flat {items : List (Item Str)} (h : SoundLines items) :
    parse (flat items) = .ok (Section.allOf (sectionsFrom [] 0 items)) := by
  have hlines := Parsing.lines_flat items 0 ⟨[], []⟩ [] h
  rw [List.append_nil] at hlines
  unfold parse
  rw [hlines]
  simp [Parsing.lines, Parsing.absorb, bind, Except.bind]

/-! ### Every text that is accepted -/

theorem Parsing.level_line {p p' : Parsing} {i : ℕ} {line : Str} (h : p.line i line = .ok p') (ls : List Str) :
    level Opens Closes p.stack.length (line :: ls) = level Opens Closes p'.stack.length ls := by
  obtain ⟨stack, roots⟩ := p
  unfold Parsing.line at h
  rw [level]
  cases hkind : kindOf line with
  | opening name =>
    have hopen : Opens line := opens_iff.mpr ⟨name, hkind⟩
    rw [hkind] at h
    obtain rfl := Except.ok.inj h
    rw [if_pos hopen]
    rfl
  | closing =>
    have hclose : Closes line := hkind
    have hopen : ¬ Opens line := fun ho => not_closes_of_opens line ho hclose
    rw [hkind] at h
    rw [if_neg hopen, if_pos hclose]
    cases stack with
    | nil => cases h
    | cons s stack =>
      obtain rfl := Except.ok.inj h
      cases stack <;> rfl
  | key key value =>
    have hopen : ¬ Opens line := fun ho => by simp [opens_iff, hkind] at ho
    have hclose : ¬ Closes line := by simp [Closes, hkind]
    rw [hkind] at h
    obtain rfl := Except.ok.inj h
    rw [if_neg hopen, if_neg hclose]
    cases stack <;> rfl
  | other =>
    have hopen : ¬ Opens line := fun ho => by simp [opens_iff, hkind] at ho
    have hclose : ¬ Closes line := by simp [Closes, hkind]
    rw [hkind] at h
    obtain rfl := Except.ok.inj h
    rw [if_neg hopen, if_neg hclose]

theorem Parsing.level_lines : ∀ {ls : List Str} {i : ℕ} {p p' : Parsing}, Parsing.lines i ls p = .ok p' →
    level Opens Closes p.stack.length ls = some p'.stack.length
  | [], _, p, p', h => by
    obtain rfl := Except.ok.inj h
    rfl
  | l :: ls, i, p, p', h => by
    rw [Parsing.lines] at h
    cases hline : p.line i l with
    | error e =>
      rw [hline] at h
      cases h
    | ok p₁ =>
      rw [hline] at h
      rw [level_line hline]
      exact level_lines h

/-- **Accepted lines are a listing.** -/
theorem exists_forest {lines : List Str} {sections : List Section} (h : parse lines = .ok sections) :
    ∃ items, lines = flat items ∧ SoundLines items := by
  unfold parse at h
  cases hp : Parsing.lines 0 lines ⟨[], []⟩ with
  | error e =>
    rw [hp] at h
    cases h
  | ok p =>
    rw [hp] at h
    obtain ⟨stack, roots⟩ := p
    cases stack with
    | nil => exact exists_flat not_closes_of_opens (Parsing.level_lines hp)
    | cons s stack => cases h

/-! ### Reading keys -/

/-- The item is a line of the key. -/
def isKey (key : Str) : Item Str → Bool
  | leaf line => (keyOf line).any fun kv => kv.1 = key
  | node .. => false

/-- The value of a line of a key. -/
def lineValue (line : Str) : Str := ((keyOf line).map Prod.snd).getD []

theorem isKey_leaf {key line : Str} : isKey key (leaf line) ↔ keyOf line = some (key, lineValue line) := by
  simp only [isKey, lineValue]
  cases keyOf line with
  | none => simp
  | some kv => simp [Prod.ext_iff]

theorem get?_noted (i : ℕ) (line : Str) (d : Dict Str (ℕ × Str)) (key : Str) :
    (match keyOf line with
      | some (key, value) => d.setdefault key (i, value)
      | none => d).get? key = if isKey key (leaf line) then (d.get? key).or (some (i, lineValue line)) else d.get? key := by
  cases hkey : keyOf line with
  | none => simp [isKey, hkey]
  | some kv =>
    simp only [Dict.get?_setdefault]
    by_cases hk : key = kv.1
    · simp [isKey, lineValue, hkey, hk]
    · simp [isKey, hkey, hk, Ne.symm hk]

/-- The key is not among the items. -/
theorem get?_keysFrom_of_find? {key : Str} : ∀ {items : List (Item Str)} (i : ℕ) (d : Dict Str (ℕ × Str)),
    items.find? (isKey key) = none → (keysFrom i items d).get? key = d.get? key
  | [], _, _, _ => rfl
  | x :: items, i, d, h => by
    obtain ⟨hx, hitems⟩ : ¬ isKey key x ∧ items.find? (isKey key) = none := by
      simpa [List.find?_eq_none] using h
    cases x with
    | leaf line =>
      rw [keysFrom, get?_keysFrom_of_find? _ _ hitems, get?_noted i line d, if_neg hx]
    | node o inner c => rw [keysFrom, get?_keysFrom_of_find? _ _ hitems]

/-- What is there already stays. -/
theorem get?_keysFrom_of_some {key : Str} {v : ℕ × Str} : ∀ (items : List (Item Str)) (i : ℕ)
    {d : Dict Str (ℕ × Str)}, d.get? key = some v → (keysFrom i items d).get? key = some v
  | [], _, _, h => h
  | leaf line :: items, i, d, h => by
    rw [keysFrom]
    refine get?_keysFrom_of_some items (i + 1) ?_
    rw [get?_noted i line d, h]
    simp
  | node o inner c :: items, i, d, h => get?_keysFrom_of_some items _ h

/-- **A key is found at its first line.** -/
theorem get?_keysFrom {key line : Str} {pre post : List (Item Str)} {i : ℕ} {d : Dict Str (ℕ × Str)}
    (hpre : pre.find? (isKey key) = none) (hline : isKey key (leaf line)) (hd : d.get? key = none) :
    (keysFrom i (pre ++ leaf line :: post) d).get? key = some (i + (flat pre).length, lineValue line) := by
  rw [keysFrom_append, keysFrom]
  refine get?_keysFrom_of_some post _ ?_
  rw [get?_noted _ line, if_pos hline, get?_keysFrom_of_find? _ _ hpre, hd, Option.none_or]

/-! ### The nodelist -/

theorem nodeKeys_append (a b : List Section) : nodeKeys (a ++ b) = nodeKeys a ++ nodeKeys b := by
  simp [nodeKeys]

@[simp] theorem allOf_cons (s : Section) (ss : List Section) :
    Section.allOf (s :: ss) = s :: (Section.allOf s.children ++ Section.allOf ss) := by
  cases s
  rfl

theorem allOf_append : ∀ a b : List Section, Section.allOf (a ++ b) = Section.allOf a ++ Section.allOf b
  | [], _ => rfl
  | s :: a, b => by simp [allOf_append a b]

theorem keys_keysFrom : ∀ (items : List (Item Str)) (i j : ℕ) {d e : Dict Str (ℕ × Str)}, d.keys = e.keys →
    (keysFrom i items d).keys = (keysFrom j items e).keys
  | [], _, _, _, _, h => h
  | leaf line :: items, i, j, d, e, h => by
    rw [keysFrom, keysFrom]
    refine keys_keysFrom items (i + 1) (j + 1) ?_
    cases keyOf line with
    | none => exact h
    | some kv =>
      rw [Dict.keys_setdefault, Dict.keys_setdefault]
      by_cases hk : kv.1 ∈ e.keys
      · simp [h, hk]
      · simp [h, hk]
  | node o inner c :: items, i, j, d, e, h => keys_keysFrom items _ _ h

/-- **The names of the nodes' keys do not depend on the position.** -/
theorem nodeKeys_sectionsFrom (items : List (Item Str)) : ∀ (path : List Str) (i j : ℕ),
    nodeKeys (Section.allOf (sectionsFrom path i items)) = nodeKeys (Section.allOf (sectionsFrom path j items)) := by
  induction items using Item.forest with
  | nil => exact fun _ _ _ => rfl
  | leaf line items ih => exact fun path i j => ih path (i + 1) (j + 1)
  | node o inner c items ihinner ih =>
    intro path i j
    have hkeys := keys_keysFrom inner (i + 1) (j + 1) (rfl : (Dict.empty : Dict Str (ℕ × Str)).keys = _)
    rw [sectionsFrom_node, sectionsFrom_node, allOf_cons, allOf_cons, ← List.singleton_append, nodeKeys_append,
      nodeKeys_append, ← List.singleton_append (x := nodeSection path j o inner), nodeKeys_append, nodeKeys_append,
      ih path _ (j + (elems (node o inner c)).length), nodeSection, nodeSection, ihinner _ (i + 1) (j + 1)]
    simp only [nodeKeys, List.filter_cons, List.filter_nil]
    split <;> simp [hkeys]

/-- What is in a section has its path before it. -/
theorem path_of_mem (items : List (Item Str)) : ∀ (path : List Str) (i : ℕ),
    ∀ s ∈ Section.allOf (sectionsFrom path i items), ∃ name rest, s.path = path ++ name :: rest := by
  induction items using Item.forest with
  | nil => simp [Section.allOf]
  | leaf line items ih => exact fun path i => ih path (i + 1)
  | node o inner c items ihinner ih =>
    intro path i s hs
    rw [sectionsFrom_node, allOf_cons, List.mem_cons, List.mem_append] at hs
    rcases hs with rfl | hs | hs
    · exact ⟨_, [], rfl⟩
    · obtain ⟨name, rest, heq⟩ := ihinner _ _ s hs
      exact ⟨(nameOf o).getD [], name :: rest, by simpa using heq⟩
    · exact ih path _ s hs

/-- The outermost sections of a name are those whose path is the name. -/
theorem filter_path (items : List (Item Str)) (path : List Str) (name : Str) : ∀ i : ℕ,
    (Section.allOf (sectionsFrom path i items)).filter (fun s => s.path = path ++ [name]) =
      (sectionsFrom path i items).filter (fun s => s.name = name) := by
  induction items with
  | nil => exact fun _ => rfl
  | cons x items ih =>
    intro i
    cases x with
    | leaf line => exact ih (i + 1)
    | node o inner c =>
      have hinner : (Section.allOf (nodeSection path i o inner).children).filter
          (fun s => s.path = path ++ [name]) = [] := by
        refine List.filter_eq_nil_iff.mpr fun s hs => ?_
        obtain ⟨name', rest, heq⟩ := path_of_mem inner _ _ s hs
        simp [heq]
      have hself : (nodeSection path i o inner).path = path ++ [name] ↔ (nodeSection path i o inner).name = name := by
        simp [nodeSection]
      rw [sectionsFrom_node, allOf_cons, List.filter_cons, List.filter_append, hinner, ih, List.filter_cons]
      simp only [hself, List.nil_append]

end Heartbeat
end MqResiliency
