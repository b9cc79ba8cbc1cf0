/-
# The heartbeat edit converges

A text that `parse` accepts with one totem section is what is around the
section and what the section holds (`File`). A pass over its lines makes the
first repair of what the section holds (`nextEdit_lines`), so that the passes
come to all repairs in their order, within the bound of the source
(`applyHeartbeat_eq`), and a text that was edited stays as it is.

A line that has its value already keeps its spelling. An edit for a second
token therefore differs, after an edit for another, from one alone, where a
line has the second token's value in another spelling (`spelling_lost`); where
none has, it does not (`converges`).

Key theorems: `nextEdit_lines`, `applyHeartbeat_eq`, `converges`.
-/
import MqResiliency.Lab.HeartbeatRepairs

namespace MqResiliency
namespace Heartbeat

open Item
open Py (Str Dict)

/-! ### One totem section -/

/-- The item is a totem section. -/
def isTotem : Item Str → Bool
  | leaf _ => false
  | node o _ _ => nameOf o = some "totem".toList

/-- The lines around what the one totem section holds. -/
structure File : Type where
  before : List (Item Str)
  opening : Str
  closing : Str
  after : List (Item Str)
  opens : kindOf opening = .opening "totem".toList
  closes : kindOf closing = .closing
  sound : SoundLines before ∧ SoundLines after
  single : ∀ x ∈ before ++ after, isTotem x = false
  unbroken : ∀ line ∈ flat before ++ opening :: closing :: flat after, Unbroken line

namespace File

variable (f : File)

def items (inner : List (Item Str)) : List (Item Str) := f.before ++ node f.opening inner f.closing :: f.after

def lines (inner : List (Item Str)) : List Str := flat (f.items inner)

def sections (inner : List (Item Str)) : List Section := Section.allOf (sectionsFrom [] 0 (f.items inner))

def totem (inner : List (Item Str)) : Section := nodeSection [] (flat f.before).length f.opening inner

theorem lines_eq (inner : List (Item Str)) :
    f.lines inner = flat f.before ++ f.opening :: (flat inner ++ f.closing :: flat f.after) := by
  rw [lines, items, flat_append, flat_node]

theorem sound_items {inner : List (Item Str)} (h : SoundLines inner) : SoundLines (f.items inner) := by
  have hopen : Opens f.opening := opens_iff.mpr ⟨_, f.opens⟩
  have hclose : ¬ Opens f.closing := fun ho => not_closes_of_opens _ ho f.closes
  exact sound_append.mpr ⟨f.sound.1, ⟨hopen, not_closes_of_opens _ hopen, f.closes, hclose, h⟩, f.sound.2⟩

theorem parse_lines {inner : List (Item Str)} (h : SoundLines inner) : parse (f.lines inner) = .ok (f.sections inner) :=
  parse_flat (f.sound_items h)

end File

theorem totem_nodeSection (path : List Str) (i : ℕ) (o c : Str) (inner : List (Item Str)) :
    (nodeSection path i o inner).name = "totem".toList ↔ isTotem (node o inner c) := by
  have hname : (nameOf o).getD [] = "totem".toList ↔ nameOf o = some "totem".toList := by
    cases nameOf o with
    | none => simp
    | some name => simp
  simp only [nodeSection, isTotem, hname, decide_eq_true_eq]

/-- There are as many totem sections as items that are one. -/
theorem length_totems (path : List Str) : ∀ (items : List (Item Str)) (i : ℕ),
    ((sectionsFrom path i items).filter fun s => s.name = "totem".toList).length = items.countP isTotem
  | [], _ => rfl
  | leaf line :: items, i => by
    rw [sectionsFrom_leaf, length_totems path items (i + 1), List.countP_cons_of_neg (by simp [isTotem])]
  | node o inner c :: items, i => by
    have ih := length_totems path items (i + (elems (node o inner c)).length)
    have hname := totem_nodeSection path i o c inner
    rw [sectionsFrom_node]
    by_cases hnode : isTotem (node o inner c)
    · rw [List.filter_cons_of_pos (by simpa using hname.mpr hnode), List.countP_cons_of_pos hnode, List.length_cons, ih]
    · rw [List.filter_cons_of_neg (by simpa using mt hname.mp hnode), List.countP_cons_of_neg hnode, ih]

theorem filter_totem (items : List (Item Str)) :
    (Section.allOf (sectionsFrom [] 0 items)).filter (fun s => s.path = ["totem".toList]) =
      (sectionsFrom [] 0 items).filter (fun s => s.name = "totem".toList) :=
  filter_path items [] "totem".toList 0

namespace File

variable (f : File)

theorem totems_eq_nil {items : List (Item Str)} (h : ∀ x ∈ items, isTotem x = false) (i : ℕ) :
    (sectionsFrom [] i items).filter (fun s => s.name = "totem".toList) = [] := by
  have hzero : items.countP isTotem = 0 := List.countP_eq_zero.mpr fun x hx => by simp [h x hx]
  rw [← List.length_eq_zero_iff, length_totems, hzero]

/-- `_totem` finds the section. -/
theorem totemOf_sections (inner : List (Item Str)) : totemOf (f.sections inner) = .ok (f.totem inner) := by
  have hnode : isTotem (node f.opening inner f.closing) := by
    rw [isTotem, nameOf_eq_some.mpr f.opens]
    simp
  have hbefore := totems_eq_nil (fun x hx => f.single x (List.mem_append_left _ hx)) 0
  have hafter := totems_eq_nil (fun x hx => f.single x (List.mem_append_right _ hx))
    (0 + (flat f.before).length + (elems (node f.opening inner f.closing)).length)
  have hname := (totem_nodeSection [] (0 + (flat f.before).length) f.opening f.closing inner).mpr hnode
  have hfilter : (f.sections inner).filter (fun s => s.path = ["totem".toList]) = [f.totem inner] := by
    rw [sections, filter_totem, items, sectionsFrom_append, List.filter_append, hbefore, sectionsFrom_node,
      List.filter_cons_of_pos (by simpa using hname), hafter, Nat.zero_add]
    rfl
  rw [totemOf, hfilter]

/-- **The links do not depend on what the totem section holds.** -/
theorem heartbeatLinks_sections (inner inner' : List (Item Str)) :
    heartbeatLinks (f.sections inner) = heartbeatLinks (f.sections inner') := by
  -- no path in the totem section is the one of a node
  have htotem : ∀ is i, nodeKeys (f.totem is :: Section.allOf (sectionsFrom ["totem".toList] i is)) = [] := by
    intro is i
    refine List.flatMap_eq_nil_iff.mpr fun s hs => ?_
    obtain ⟨hs, hpath⟩ := List.mem_filter.mp hs
    have hname : (nameOf f.opening).getD [] = "totem".toList := by rw [nameOf_eq_some.mpr f.opens, Option.getD_some]
    rcases List.mem_cons.mp hs with rfl | hs
    · simp [totem, nodeSection] at hpath
    · obtain ⟨name, rest, heq⟩ := path_of_mem is _ _ s hs
      simp [heq] at hpath
  have hname : (nameOf f.opening).getD [] = "totem".toList := by rw [nameOf_eq_some.mpr f.opens, Option.getD_some]
  have hkeys : ∀ is, nodeKeys (f.sections is) = nodeKeys (Section.allOf (sectionsFrom [] 0 f.before)) ++
      nodeKeys (Section.allOf (sectionsFrom [] 0 f.after)) := by
    intro is
    have hchildren : (nodeSection [] (0 + (flat f.before).length) f.opening is).children =
        sectionsFrom ["totem".toList] (0 + (flat f.before).length + 1) is := by
      simp [nodeSection, hname]
    have hnode := htotem is ((flat f.before).length + 1)
    rw [sections, items, sectionsFrom_append, allOf_append, nodeKeys_append, sectionsFrom_node, allOf_cons,
      ← List.cons_append, nodeKeys_append, hchildren, nodeKeys_sectionsFrom f.after [] _ 0]
    simp only [Nat.zero_add]
    rw [← totem, hnode, List.nil_append]
  rw [heartbeatLinks, heartbeatLinks, hkeys inner, hkeys inner']

end File

/-- What the totem section holds. -/
structure Inside (inner : List (Item Str)) : Prop where
  sound : SoundLines inner
  unbroken : ∀ line ∈ flat inner, Unbroken line

/-- **A text with one totem section.** -/
theorem exists_file {lines : List Str} {sections : List Section} {totem : Section}
    (hparse : parse lines = .ok sections) (htotem : totemOf sections = .ok totem)
    (hunbroken : ∀ line ∈ lines, Unbroken line) :
    ∃ (f : File) (inner : List (Item Str)), lines = f.lines inner ∧ Inside inner ∧ sections = f.sections inner ∧
      totem = f.totem inner := by
  obtain ⟨items, rfl, hsound⟩ := exists_forest hparse
  obtain rfl : Section.allOf (sectionsFrom [] 0 items) = sections := Except.ok.inj ((parse_flat hsound).symm.trans hparse)
  have hone : items.countP isTotem = 1 := by
    rw [← length_totems [] items 0, ← filter_totem]
    unfold totemOf at htotem
    split at htotem
    · rename_i heq
      rw [heq]
      rfl
    · cases htotem
  obtain ⟨x, hx⟩ : ∃ x, items.find? isTotem = some x := by
    refine Option.isSome_iff_exists.mp (List.find?_isSome.mpr ?_)
    exact List.countP_pos_iff.mp (by omega)
  obtain ⟨hnode, before, after, rfl, hbefore⟩ := List.find?_eq_some_iff_append.mp hx
  have hbefore' : ∀ y ∈ before, isTotem y = false := fun y hy => by simpa using hbefore y hy
  cases x with
  | leaf line => cases hnode
  | node o inner c =>
    obtain ⟨hsbefore, ⟨hopen, -, hclose, -, hinner⟩, hsafter⟩ := sound_append.mp hsound
    have hafter : ∀ y ∈ after, isTotem y = false := by
      have hzero : before.countP isTotem = 0 := List.countP_eq_zero.mpr fun y hy => by simp [hbefore' y hy]
      rw [List.countP_append, List.countP_cons_of_pos hnode, hzero] at hone
      have hnone : after.countP isTotem = 0 := by omega
      exact fun y hy => by simpa using List.countP_eq_zero.mp hnone y hy
    have hname : nameOf o = some "totem".toList := by simpa [isTotem] using hnode
    have hlines : ∀ line, line ∈ flat (before ++ node o inner c :: after) ↔
        line ∈ flat before ++ o :: c :: flat after ∨ line ∈ flat inner := by
      intro line
      simp only [flat_append, flat_node, List.mem_append, List.mem_cons]
      tauto
    let f : File :=
      { before := before, opening := o, closing := c, after := after
        opens := nameOf_eq_some.mp hname, closes := hclose, sound := ⟨hsbefore, hsafter⟩
        single := fun y hy => (List.mem_append.mp hy).elim (hbefore' y) (hafter y)
        unbroken := fun line hline => hunbroken line ((hlines line).mpr (.inl hline)) }
    refine ⟨f, inner, rfl, ⟨hinner, fun line hline => hunbroken line ((hlines line).mpr (.inr hline))⟩, rfl, ?_⟩
    exact Except.ok.inj (htotem.symm.trans (f.totemOf_sections inner))

/-! ### One pass -/

/-- **What a pass does about a link is the first repair of its places.** -/
theorem editLink_lines (f : File) (token : ℤ) (inner : List (Item Str)) (link : ℕ) :
    editLink (f.lines inner) (f.totem inner) token link =
      ((repairs f.opening token).next (linkPlaces link) inner).map f.lines := by
  have hedit := editLink_nodeSection (flat f.before) (flat f.after) [] f.opening f.closing inner token link
  cases hfind : inner.find? (isInterface link) with
  | none =>
    have hblock : ¬ (repairs f.opening token).holds (.block link) inner := by
      show ¬ (inner.find? (isInterface link)).isSome = true
      rw [hfind]
      simp
    rw [hfind] at hedit
    rw [File.lines_eq, File.totem, hedit, linkPlaces, Repairs.next_cons_of_not hblock, Option.map_some, File.lines_eq]
    rfl
  | some x =>
    have hblock : (repairs f.opening token).holds (.block link) inner := by
      show (inner.find? (isInterface link)).isSome = true
      rw [hfind]
      rfl
    have hknet : ∀ k : Knet, (repairs f.opening token).holds (.knet link k) inner ↔
        valueIn k.key (itemInner x) = some (k.value token) := by
      intro k
      show (inner.find? (isInterface link)).bind (fun x => valueIn k.key (itemInner x)) = _ ↔ _
      rw [hfind, Option.bind_some]
    have hfix : ∀ k : Knet, (repairs f.opening token).fix (.knet link k) inner =
        modifyFirst (isInterface link) (putIn k.key (k.value token)) inner := by
      intro k
      show modifyFirst _ _ (ensure f.opening link inner) = _
      rw [ensure_of_find? hfind]
      rfl
    have hplaces : linkPlaces link = .block link :: [Knet.timeout, .interval, .count].map (.knet link) := rfl
    rw [hfind, heartbeatValues_eq] at hedit
    simp only [List.findSome?_map] at hedit
    rw [File.lines_eq, File.totem, hedit, hplaces, Repairs.next_cons_of_holds hblock, Repairs.next, List.findSome?_map,
      List.map_findSome?]
    congr 1
    funext k
    simp only [Function.comp, hfix]
    by_cases hk : valueIn k.key (itemInner x) = some (k.value token)
    · rw [if_pos hk, if_pos ((hknet k).mpr hk)]
      rfl
    · rw [if_neg hk, if_neg (mt (hknet k).mp hk), Option.map_some, File.lines_eq]

/-- **A pass makes the first repair.** -/
theorem nextEdit_lines (f : File) (token : ℤ) {inner : List (Item Str)} {links : List ℕ} (h : SoundLines inner)
    (hlinks : heartbeatLinks (f.sections inner) = .ok links) :
    nextEdit (f.lines inner) token = .ok (((repairs f.opening token).next (places links) inner).map f.lines) := by
  have hset := setKey_nodeSection (flat f.before) (flat f.after) [] f.opening f.closing inner "token".toList
    (Py.Conv.textOf token)
  rw [← File.lines_eq, ← File.totem] at hset
  unfold nextEdit
  simp only [f.parse_lines h, f.totemOf_sections, hlinks, bind, Except.bind, hset]
  by_cases htoken : valueIn "token".toList inner = some (Py.Conv.textOf token)
  · have hholds : (repairs f.opening token).holds .token inner := htoken
    have hrest : ∀ ls : List ℕ, ls.findSome? (editLink (f.lines inner) (f.totem inner) token) =
        ((repairs f.opening token).next (ls.flatMap linkPlaces) inner).map f.lines := by
      intro ls
      induction ls with
      | nil => rfl
      | cons link ls ih =>
        rw [List.findSome?_cons, editLink_lines, List.flatMap_cons, Repairs.next_append, ih]
        cases (repairs f.opening token).next (linkPlaces link) inner <;> rfl
    rw [if_pos htoken, places, Repairs.next_cons_of_holds hholds, ← hrest]
  · have hholds : ¬ (repairs f.opening token).holds .token inner := htoken
    have hlines := f.lines_eq (put f.opening "token".toList (Py.Conv.textOf token) inner)
    rw [if_neg htoken, places, Repairs.next_cons_of_not hholds, Option.map_some, ← hlines]
    rfl

/-! ### What the repairs keep -/

theorem inside_append {xs ys : List (Item Str)} : Inside (xs ++ ys) ↔ Inside xs ∧ Inside ys := by
  constructor
  · rintro ⟨hsound, hunbroken⟩
    rw [flat_append] at hunbroken
    obtain ⟨hx, hy⟩ := List.forall_mem_append.mp hunbroken
    exact ⟨⟨(sound_append.mp hsound).1, hx⟩, ⟨(sound_append.mp hsound).2, hy⟩⟩
  · rintro ⟨⟨hx, hux⟩, ⟨hy, huy⟩⟩
    refine ⟨sound_append.mpr ⟨hx, hy⟩, ?_⟩
    rw [flat_append]
    exact List.forall_mem_append.mpr ⟨hux, huy⟩

theorem inside_cons {x : Item Str} {xs : List (Item Str)} : Inside (x :: xs) ↔ Inside [x] ∧ Inside xs :=
  @inside_append [x] xs

theorem inside_modifyFirst {p : Item Str → Bool} {g : Item Str → Item Str}
    (h : ∀ x, p x → Inside [x] → Inside [g x]) : ∀ {items : List (Item Str)}, Inside items →
    Inside (modifyFirst p g items)
  | [], hitems => hitems
  | x :: items, hitems => by
    obtain ⟨hx, hrest⟩ := inside_cons.mp hitems
    rw [modifyFirst]
    split
    · rename_i hp
      exact inside_cons.mpr ⟨h x hp hx, hrest⟩
    · exact inside_cons.mpr ⟨hx, inside_modifyFirst h hrest⟩

theorem inside_leaf {line : Str} : Inside [leaf line] ↔ (¬ Opens line ∧ ¬ Closes line) ∧ Unbroken line := by
  constructor
  · rintro ⟨⟨hline, -⟩, hunbroken⟩
    exact ⟨hline, hunbroken line (by simp)⟩
  · rintro ⟨hline, hunbroken⟩
    exact ⟨⟨hline, trivial⟩, by simpa using hunbroken⟩

theorem inside_node {o c : Str} {inner : List (Item Str)} : Inside [node o inner c] ↔
    (Opens o ∧ Closes c) ∧ (Unbroken o ∧ Unbroken c) ∧ Inside inner := by
  constructor
  · rintro ⟨⟨⟨hopen, -, hclose, -, hinner⟩, -⟩, hunbroken⟩
    refine ⟨⟨hopen, hclose⟩, ⟨hunbroken o (by simp), hunbroken c (by simp)⟩, hinner, fun line hline => ?_⟩
    exact hunbroken line (by simp [hline])
  · rintro ⟨⟨hopen, hclose⟩, ⟨ho, hc⟩, hinner, hunbroken⟩
    have hclosed : ¬ Opens c := fun h => not_closes_of_opens c h hclose
    refine ⟨⟨⟨hopen, not_closes_of_opens o hopen, hclose, hclosed, hinner⟩, trivial⟩, fun line hline => ?_⟩
    simp only [flat_node, flat_nil, List.mem_cons, List.mem_append, List.not_mem_nil, or_false] at hline
    rcases hline with rfl | hline | rfl
    · exact ho
    · exact hunbroken line hline
    · exact hc

theorem inside_keyLine {indent key value : Str} (hindent : Blank indent) (hunbroken : Unbroken indent) (hkey : IsName key)
    (hvalue : ∀ c ∈ value, isNameChar c) : Inside [leaf (keyLine indent key value)] := by
  have hkind := kindOf_keyLine hindent hkey hvalue
  refine inside_leaf.mpr ⟨⟨fun ho => ?_, fun hc => ?_⟩, unbroken_keyLine hunbroken hkey hvalue⟩
  · obtain ⟨name, hname⟩ := opens_iff.mp ho
    simp [hkind] at hname
  · simp [Closes, hkind] at hc

theorem unbroken_append {s t : Str} (hs : Unbroken s) (ht : Unbroken t) : Unbroken (s ++ t) :=
  List.forall_mem_append.mpr ⟨hs, ht⟩

theorem unbroken_defaultIndent : Unbroken defaultIndent := by
  have hindent : ∀ c ∈ defaultIndent, Py.isLineBreak c = false := by decide
  exact hindent

theorem unbroken_indentIn {o : Str} {inner : List (Item Str)} (ho : Unbroken o) (h : Inside inner) :
    Unbroken (indentIn o inner) := by
  unfold indentIn
  split
  · rename_i line hline
    exact unbroken_indentOf (h.unbroken line (List.mem_of_find?_eq_some hline))
  · exact unbroken_append (unbroken_indentOf ho) unbroken_defaultIndent

theorem inside_put {o key value : Str} {inner : List (Item Str)} (ho : Unbroken o) (hkey : IsName key)
    (hvalue : ∀ c ∈ value, isNameChar c) (h : Inside inner) : Inside (put o key value inner) := by
  unfold put
  split
  · refine inside_modifyFirst (fun x hx hin => ?_) h
    cases x with
    | node o inner c => exact hin
    | leaf line =>
      rw [respell]
      split
      · exact hin
      · exact inside_keyLine (blank_indentOf line) (unbroken_indentOf (inside_leaf.mp hin).2) hkey hvalue
  · exact inside_append.mpr ⟨h, inside_keyLine (blank_indentIn o inner) (unbroken_indentIn ho h) hkey hvalue⟩

theorem inside_newInterface {indent : Str} (hindent : Blank indent) (hunbroken : Unbroken indent) (link : ℕ) :
    Inside [newInterface indent link] := by
  have hopen : Unbroken "interface \x7b".toList := by
    have htext : ∀ c ∈ "interface \x7b".toList, Py.isLineBreak c = false := by decide
    exact htext
  have hclose : Unbroken ['}'] := by
    have htext : ∀ c ∈ ['}'], Py.isLineBreak c = false := by decide
    exact htext
  refine inside_node.mpr ⟨⟨opens_iff.mpr ⟨_, kindOf_interface hindent⟩, kindOf_end hindent⟩, ⟨?_, ?_⟩, ?_⟩
  · exact unbroken_append hunbroken hopen
  · exact unbroken_append hunbroken hclose
  · exact inside_keyLine (blank_deeper hindent) (unbroken_append hunbroken unbroken_defaultIndent) isName_linknumber
      (isNameChar_linkText link)

theorem inside_fix {o : Str} (ho : Unbroken o) (token : ℤ) (p : Place) {inner : List (Item Str)} (h : Inside inner) :
    Inside ((repairs o token).fix p inner) := by
  have hensure : ∀ link, Inside (ensure o link inner) := by
    intro link
    unfold ensure
    split
    · exact h
    · exact inside_append.mpr ⟨h, inside_newInterface (blank_indentIn o inner) (unbroken_indentIn ho h) link⟩
  cases p with
  | token => exact inside_put ho isName_token (isNameChar_textOf token) h
  | block link => exact hensure link
  | knet link k =>
    refine inside_modifyFirst (fun x hx hin => ?_) (hensure link)
    cases x with
    | leaf line => exact hin
    | node o' is c =>
      obtain ⟨hlines, hends, his⟩ := inside_node.mp hin
      exact inside_node.mpr ⟨hlines, hends, inside_put hends.1 k.isName_key (k.isNameChar_value token) his⟩

/-! ### All passes -/

/-- `"\n".join(lines) + "\n"`. -/
def joined (lines : List Str) : Str := ['\n'].intercalate lines ++ ['\n']

theorem joined_eq : ∀ {lines : List Str}, lines ≠ [] → joined lines = lines.flatMap fun line => line ++ ['\n']
  | [line], _ => by simp [joined]
  | line :: next :: lines, _ => by
    have ih : joined (next :: lines) = _ := joined_eq (by simp)
    rw [List.flatMap_cons, ← ih, joined, List.intercalate_cons_cons, joined]
    simp

/-- The lines of a text that was written are those that were written. -/
theorem splitlines_joined {lines : List Str} (hne : lines ≠ []) (h : ∀ line ∈ lines, Unbroken line) :
    Py.splitlines (joined lines) = lines := by
  rw [joined_eq hne, Py.splitlines_flatMap h]

theorem unbroken_linesFrom : ∀ (s : Str) (cr : Bool) (cur : Str), Unbroken cur →
    ∀ line ∈ Py.linesFrom cr cur s, Unbroken line
  | [], _, cur, h, line, hline => by
    rw [Py.linesFrom] at hline
    split at hline
    · cases hline
    · rwa [List.mem_singleton.mp hline]
  | c :: s, cr, cur, h, line, hline => by
    rw [Py.linesFrom] at hline
    split at hline
    · exact unbroken_linesFrom s false cur h line hline
    · split at hline
      · rcases List.mem_cons.mp hline with rfl | hline
        · exact h
        · exact unbroken_linesFrom s _ [] (by simp [Unbroken]) line hline
      · rename_i hbreak
        refine unbroken_linesFrom s false (cur ++ [c]) (unbroken_append h ?_) line hline
        simpa [Unbroken] using hbreak

section
variable (f : File) {inner : List (Item Str)} {links : List ℕ}

theorem unbroken_lines (h : Inside inner) : ∀ line ∈ f.lines inner, Unbroken line := by
  intro line hline
  rw [File.lines_eq, List.mem_append, List.mem_cons, List.mem_append, List.mem_cons] at hline
  rcases hline with hline | rfl | hline | rfl | hline
  · exact f.unbroken line (by simp [hline])
  · exact f.unbroken _ (by simp)
  · exact h.unbroken line hline
  · exact f.unbroken _ (by simp)
  · exact f.unbroken line (by simp [hline])

theorem lines_ne_nil : f.lines inner ≠ [] := by
  rw [File.lines_eq]
  simp

theorem passes_lines (token : ℤ) : ∀ (n : ℕ) {inner : List (Item Str)}, Inside inner →
    heartbeatLinks (f.sections inner) = .ok links →
    passes token n (f.lines inner) =
      match (repairs f.opening token).loop (places links) n inner with
      | none => .error .notConverged
      | some settled => .ok (f.lines settled)
  | 0, _, _, _ => rfl
  | n + 1, inner, h, hlinks => by
    have hnext := nextEdit_lines f token h.sound hlinks
    rw [passes, hnext, Repairs.loop]
    cases hr : (repairs f.opening token).next (places links) inner with
    | none => rfl
    | some edited =>
      have hedited : Inside edited := by
        obtain ⟨p, -, rfl⟩ := Repairs.exists_of_next hr
        exact inside_fix (f.unbroken _ (by simp)) token p h
      have hlinks' : heartbeatLinks (f.sections edited) = .ok links := by rw [f.heartbeatLinks_sections edited inner, hlinks]
      exact passes_lines token n hedited hlinks'

/-- **The edit comes to all repairs in their order.** -/
theorem applyHeartbeat_eq {text : Str} {token : ℤ} (htext : Py.splitlines text = f.lines inner) (h : Inside inner)
    (hlinks : heartbeatLinks (f.sections inner) = .ok links) (hrange : tokenMin ≤ token ∧ token ≤ tokenMax) :
    applyHeartbeat text token = .ok (joined (f.lines ((repairs f.opening token).settle (places links) inner))) := by
  have hpasses := passes_lines f token (2 + 4 * links.length) h hlinks
  have hbound : (places links).length < 2 + 4 * links.length := by
    rw [length_places]
    omega
  rw [Repairs.loop_eq hbound] at hpasses
  unfold applyHeartbeat
  rw [if_neg (not_not.mpr hrange), htext]
  simp only [f.parse_lines h.sound, hlinks, bind, Except.bind, hpasses]
  rfl

theorem inside_settle (token : ℤ) (ps : List Place) (h : Inside inner) :
    Inside ((repairs f.opening token).settle ps inner) :=
  Repairs.settle_induction (fun p _ hs => inside_fix (f.unbroken _ (by simp)) token p hs) ps h

end

/-! ### One token after another -/

/-- Where the key has the second value, the first is the same, or its line is
in the spelling of the edit. -/
def Respelled (lines : List Str) (s : Section) (key value₁ value₂ : Str) : Prop :=
  ∀ index, s.keys.get? key = some (index, value₂) →
    value₂ = value₁ ∨ ∃ line, lines[index]? = some line ∧ line = keyLine (indentOf line) key value₂

/-- No line that the edits set has the second token's value in a spelling of
its own. -/
def NoneSpelled (lines : List Str) (sections : List Section) (totem : Section) (token₁ token₂ : ℤ) : Prop :=
  Respelled lines totem "token".toList (Py.Conv.textOf token₁) (Py.Conv.textOf token₂) ∧
    ∀ links, heartbeatLinks sections = .ok links → ∀ link ∈ links, ∀ interface,
      interfaceOf totem link = some interface →
        ∀ key value₁ value₂, (key, value₁) ∈ heartbeatValues token₁ → (key, value₂) ∈ heartbeatValues token₂ →
          Respelled lines interface key value₁ value₂

theorem nodup_heartbeatLinks {sections : List Section} {links : List ℕ} (h : heartbeatLinks sections = .ok links) :
    links.Nodup := by
  unfold heartbeatLinks at h
  split at h
  · cases h
  · rw [← Except.ok.inj h]
    split
    · simp
    · rename_i ls _ _
      exact (List.perm_insertionSort _ ls.dedup).nodup_iff.mpr (List.nodup_dedup ls)

theorem freeLine_of_respelled {before after path : List Str} {o c : Str} {inner : List (Item Str)}
    {key value₁ value₂ : Str}
    (h : Respelled (before ++ o :: (flat inner ++ c :: after)) (nodeSection path before.length o inner) key value₁ value₂) :
    FreeLine key value₁ value₂ inner := by
  intro line hline hvalue
  obtain ⟨pre, line', post, rfl, heq, hkey, hpre⟩ := exists_keyLine hline
  obtain rfl : line = line' := Item.leaf.inj heq
  have hget : (nodeSection path before.length o (pre ++ leaf line :: post)).keys.get? key =
      some (before.length + 1 + (flat pre).length, value₂) := by
    rw [nodeSection, get?_keysFrom hpre hkey (Dict.get?_empty key), hvalue]
  have hassoc : before ++ o :: (flat (pre ++ leaf line :: post) ++ c :: after) =
      (before ++ o :: flat pre) ++ line :: (flat post ++ c :: after) := by simp
  have hindex : (before ++ o :: (flat (pre ++ leaf line :: post) ++ c :: after))[before.length + 1 + (flat pre).length]? =
      some line := by
    have hlen : before.length + 1 + (flat pre).length = (before ++ o :: flat pre).length := by
      simp only [List.length_append, List.length_cons]
      omega
    rw [hassoc, hlen, List.getElem?_append_right le_rfl, Nat.sub_self]
    rfl
  refine (h _ hget).imp id fun hex => ?_
  obtain ⟨line', hline', hspelled⟩ := hex
  obtain rfl : line = line' := Option.some.inj (hindex.symm.trans hline')
  exact hspelled

theorem free_of_noneSpelled (f : File) {token₁ token₂ : ℤ} {inner : List (Item Str)} {links : List ℕ}
    (hlinks : heartbeatLinks (f.sections inner) = .ok links)
    (h : NoneSpelled (f.lines inner) (f.sections inner) (f.totem inner) token₁ token₂) :
    ∀ p ∈ places links, p.Free token₁ token₂ inner := by
  obtain ⟨htoken, hknet⟩ := h
  have hlink : ∀ link ∈ links, ∀ k, (Place.knet link k).Free token₁ token₂ inner := by
    intro link hmem k x hx
    have hsections := find?_sectionsFrom ["totem".toList] link inner ((flat f.before).length + 1)
    rw [hx] at hsections
    rcases hsections with ⟨-, hnone⟩ | ⟨pre, o, is, c, post, rfl, hfind, -, hsec⟩
    · cases hnone
    · obtain rfl : x = node o is c := Option.some.inj hfind
      have hname : (nameOf f.opening).getD [] = "totem".toList := by rw [nameOf_eq_some.mpr f.opens, Option.getD_some]
      have hchildren : (f.totem (pre ++ node o is c :: post)).children =
          sectionsFrom ["totem".toList] ((flat f.before).length + 1) (pre ++ node o is c :: post) := by
        simp [File.totem, nodeSection, hname]
      have hinterface : interfaceOf (f.totem (pre ++ node o is c :: post)) link =
          some (nodeSection ["totem".toList] ((flat f.before).length + 1 + (flat pre).length) o is) := by
        rw [interfaceOf_eq, hchildren, hsec]
      have hmem₁ : (k.key, k.value token₁) ∈ heartbeatValues token₁ := by
        rw [heartbeatValues_eq]
        cases k <;> simp
      have hmem₂ : (k.key, k.value token₂) ∈ heartbeatValues token₂ := by
        rw [heartbeatValues_eq]
        cases k <;> simp
      have hspelled := hknet links hlinks link hmem _ hinterface k.key _ _ hmem₁ hmem₂
      have hassoc : f.lines (pre ++ node o is c :: post) = (flat f.before ++ f.opening :: flat pre) ++
          o :: (flat is ++ c :: (flat post ++ f.closing :: flat f.after)) := by
        rw [File.lines_eq]
        simp
      have hlen : (flat f.before).length + 1 + (flat pre).length = (flat f.before ++ f.opening :: flat pre).length := by
        simp only [List.length_append, List.length_cons]
        omega
      rw [hassoc, hlen] at hspelled
      exact freeLine_of_respelled hspelled
  intro p hp
  rcases List.mem_cons.mp hp with rfl | hp
  · rw [File.lines_eq] at htoken
    exact freeLine_of_respelled htoken
  · obtain ⟨link, hmem, hp⟩ := List.mem_flatMap.mp hp
    simp only [linkPlaces, List.mem_cons, List.not_mem_nil, or_false] at hp
    rcases hp with rfl | rfl | rfl | rfl
    · trivial
    all_goals exact hlink link hmem _

/-- **The edit of a text with one totem section converges, and does nothing to
what it made; after the edit for another token it makes what it makes alone,
where no line has its value in a spelling of its own.** -/
theorem converges {text : Str} {sections : List Section} {totem : Section}
    (hparse : parse (Py.splitlines text) = .ok sections) (htotem : totemOf sections = .ok totem) :
    (∀ token, tokenMin ≤ token ∧ token ≤ tokenMax →
      applyHeartbeat text token ≠ .error .notConverged ∧
      ((∃ links, heartbeatLinks sections = .ok links) → ∃ out, applyHeartbeat text token = .ok out) ∧
      ∀ out, applyHeartbeat text token = .ok out → applyHeartbeat out token = .ok out) ∧
    ∀ token₁ token₂, tokenMin ≤ token₁ ∧ token₁ ≤ tokenMax → tokenMin ≤ token₂ ∧ token₂ ≤ tokenMax →
      NoneSpelled (Py.splitlines text) sections totem token₁ token₂ →
        ∀ out, applyHeartbeat text token₁ = .ok out → applyHeartbeat out token₂ = applyHeartbeat text token₂ := by
  obtain ⟨f, inner, htext, hinside, rfl, rfl⟩ := exists_file hparse htotem (unbroken_linesFrom text false [] (by simp [Unbroken]))
  cases hlinks : heartbeatLinks (f.sections inner) with
  | error e =>
    -- a link number that is too long to be read
    have hvalue : e = .valueError := by
      unfold heartbeatLinks at hlinks
      split at hlinks
      · exact (Except.error.inj hlinks).symm
      · cases hlinks
    have herror : ∀ token, tokenMin ≤ token ∧ token ≤ tokenMax → applyHeartbeat text token = .error .valueError := by
      intro token hrange
      unfold applyHeartbeat
      rw [if_neg (not_not.mpr hrange)]
      simp only [hparse, hlinks, hvalue, bind, Except.bind]
    refine ⟨fun token hrange => ?_, fun token₁ _ hrange₁ _ _ out hout => ?_⟩
    · rw [herror token hrange]
      refine ⟨by simp, ?_, ?_⟩
      · rintro ⟨links, hread⟩
        cases hread
      · intro out hout
        cases hout
    · rw [herror token₁ hrange₁] at hout
      cases hout
  | ok links =>
    have hnodup := nodup_heartbeatLinks hlinks
    have happly : ∀ token, tokenMin ≤ token ∧ token ≤ tokenMax → applyHeartbeat text token =
        .ok (joined (f.lines ((repairs f.opening token).settle (places links) inner))) :=
      fun token hrange => applyHeartbeat_eq f htext hinside hlinks hrange
    -- the text that was written is read back as the lines that were written
    have hagain : ∀ token₁ token₂, tokenMin ≤ token₂ ∧ token₂ ≤ tokenMax →
        applyHeartbeat (joined (f.lines ((repairs f.opening token₁).settle (places links) inner))) token₂ =
          .ok (joined (f.lines ((repairs f.opening token₂).settle (places links)
            ((repairs f.opening token₁).settle (places links) inner)))) := by
      intro token₁ token₂ hrange
      have hsettled := inside_settle f token₁ (places links) hinside
      have hlines := splitlines_joined (lines_ne_nil f) (unbroken_lines f hsettled)
      have hlinks' : heartbeatLinks (f.sections ((repairs f.opening token₁).settle (places links) inner)) = .ok links := by
        rw [f.heartbeatLinks_sections _ inner, hlinks]
      exact applyHeartbeat_eq f hlines hsettled hlinks' hrange
    refine ⟨fun token hrange => ⟨?_, fun _ => ⟨_, happly token hrange⟩, fun out hout => ?_⟩,
      fun token₁ token₂ hrange₁ hrange₂ hspelled out hout => ?_⟩
    · intro hfailed
      rw [happly token hrange] at hfailed
      cases hfailed
    · obtain rfl := Except.ok.inj ((happly token hrange).symm.trans hout)
      rw [hagain token token hrange, Repairs.settle_self]
    · obtain rfl := Except.ok.inj ((happly token₁ hrange₁).symm.trans hout)
      rw [htext] at hspelled
      have hfree := free_of_noneSpelled f hlinks hspelled
      rw [hagain token₁ token₂ hrange₂, happly token₂ hrange₂, settle_settle_of_free f.opening token₁ token₂ hnodup hfree]

/-- A totem section in two lines. -/
def bareTotem : Str := "totem\x7b\n\x7d".toList

theorem bareTotem_converges : applyHeartbeat bareTotem 3000 ≠ .error .notConverged ∧
    ∀ out, applyHeartbeat bareTotem 3000 = .ok out → applyHeartbeat out 5000 = applyHeartbeat bareTotem 5000 := by
  have hparse : parse (Py.splitlines bareTotem) = .ok [⟨"totem".toList, ["totem".toList], 0, 1, .empty, []⟩] := rfl
  have h := converges hparse rfl
  have hspelled : NoneSpelled (Py.splitlines bareTotem) [⟨"totem".toList, ["totem".toList], 0, 1, .empty, []⟩]
      ⟨"totem".toList, ["totem".toList], 0, 1, .empty, []⟩ 3000 5000 := by
    refine ⟨fun index hindex => ?_, fun links _ link _ interface hinterface => ?_⟩
    · cases hindex
    · cases hinterface
  exact ⟨(h.1 3000 (by decide)).1, h.2 3000 5000 (by decide) (by decide) hspelled⟩

/-- A text with all its keys, and its token in a spelling of its own. -/
def ownSpelling : Str :=
  ("totem \x7b\n  token:10000\n  interface \x7b\n    linknumber: 0\n    knet_ping_timeout: 2500\n" ++
    "    knet_ping_interval: 250\n    knet_pong_count: 2\n  \x7d\n\x7d\n").toList

/-- The text has one totem section with a token, and in it for each link a
block with all three keys. -/
def complete (text : Str) : Bool :=
  match parse (Py.splitlines text) with
  | .error _ => false
  | .ok sections =>
    match totemOf sections, heartbeatLinks sections with
    | .ok totem, .ok links => (totem.keys.get? "token".toList).isSome && links.all fun link =>
        (interfaceOf totem link).any fun interface =>
          (heartbeatValues tokenMin).all fun kv => (interface.keys.get? kv.1).isSome
    | _, _ => false

/-- The edit for 5000 takes the spelling away that the one for 10000 keeps. -/
theorem spelling_lost : complete ownSpelling = true ∧
    (applyHeartbeat ownSpelling 5000).bind (applyHeartbeat · 10000) ≠ applyHeartbeat ownSpelling 10000 := by
  decide +kernel

end Heartbeat
end MqResiliency
