/-
# Objects with an identity

What `yaml.safe_load` returns as Python has it in memory: lists, sets and
mappings are objects in a heap, and a YAML alias is a second reference to one
of them, possibly from within. `look` follows a path of items from a value, and
two values are equal (`Same`) if all paths show the same in both.

Key theorem: `same_shift`, for a copy by `deepcopy`.
-/
import Mathlib.Data.List.Infix
import MqResiliency.Lib.Dict
import MqResiliency.Lib.Double

namespace MqResiliency
namespace Py

/-! ### Atoms -/

/-- A value that holds no other, and that never changes. -/
inductive Atom : Type where
  | null
  | bool (b : Bool)
  | int (n : ℤ)
  | float (x : Double)
  | str (s : Str)
  | bytes (bs : List ℕ)
  | date (day : ℤ)
  | time (aware : Bool) (instant : ℤ)

/-- What an atom is as a key: equal atoms are the same key, whatever their type. -/
inductive Key : Type where
  | null
  | num (q : ℚ)
  | posInf
  | negInf
  | nan
  | str (s : Str)
  | bytes (bs : List ℕ)
  | date (day : ℤ)
  | time (aware : Bool) (instant : ℤ)
deriving DecidableEq

namespace Atom

def key : Atom → Key
  | null => .null
  | bool b => .num (if b then 1 else 0)
  | int n => .num n
  | float .nan => .nan
  | float .negInf => .negInf
  | float .posInf => .posInf
  | float (.fin q _) => .num q
  | str s => .str s
  | bytes bs => .bytes bs
  | date day => .date day
  | time aware instant => .time aware instant

def truthy : Atom → Bool
  | null => false
  | date _ => true
  | time _ _ => true
  | str s => s ≠ []
  | bytes bs => bs ≠ []
  | a => a.key ≠ .num 0

/-- The integer that a list takes as an index. -/
def index : Atom → Option ℤ
  | bool b => some (if b then 1 else 0)
  | int n => some n
  | _ => none

/-- Atoms of one kind have an order. `None` has none, not even with itself. -/
def kind (a : Atom) : ℕ :=
  match a.key with
  | .null => 0
  | .num _ => 1
  | .posInf => 1
  | .negInf => 1
  | .nan => 1
  | .str _ => 2
  | .bytes _ => 3
  | .date _ => 4
  | .time false _ => 5
  | .time true _ => 6

end Atom

/-- Can `sorted` compare what a set of these holds? -/
def sortable (as : List Atom) : Bool := as.all fun a => as.all fun b => a.kind = b.kind

/-! ### The heap -/

inductive Val : Type where
  | atom (a : Atom)
  | ref (i : ℕ)

/-- A mapping keeps each key as it was first written. -/
structure Mapping : Type where
  dict : Dict Key (Atom × Val)
  keyed : ∀ p ∈ dict.items, p.2.1.key = p.1

/-- An object; `pairs` is the list that `!!omap` and `!!pairs` make. -/
inductive Obj : Type where
  | list (vs : List Val)
  | pairs (ps : List (Val × Val))
  | set (as : List Atom)
  | dict (d : Mapping)

/-- The objects, by their addresses. -/
abbrev Heap : Type := List Obj

/-- A step from an object to a value that it holds. -/
inductive Step : Type where
  | key (k : Key)
  | item (i : ℕ)
  | fst (i : ℕ)
  | snd (i : ℕ)

/-- What an object shows by itself. The keys of a mapping show by the steps that it has. -/
inductive Shape : Type where
  | atom (a : Atom)
  | list (length : ℕ)
  | pairs (length : ℕ)
  | set (as : List Atom)
  | dict

namespace Mapping

/-- `{}`. -/
def empty : Mapping := ⟨.empty, fun _ hp => nomatch hp⟩

/-- The keys, in order. -/
def keys (d : Mapping) : List Atom := d.dict.items.map fun p => p.2.1

/-- `d.get(k)`. -/
def value (d : Mapping) (k : Key) : Option Val := (d.dict.get? k).map Prod.snd

/-- The key in the mapping that equals `a`, or else `a`. -/
def written (d : Mapping) (a : Atom) : Atom := ((d.dict.get? a.key).map Prod.fst).getD a

theorem key_written (d : Mapping) (a : Atom) : (d.written a).key = a.key := by
  unfold written
  cases h : d.dict.get? a.key with
  | none => rfl
  | some p => exact d.keyed _ (Dict.get?_eq_some.mp h)

/-- `d[a] = v`. -/
def assign (d : Mapping) (a : Atom) (v : Val) : Mapping where
  dict := d.dict.set a.key (d.written a, v)
  keyed p hp := by
    rcases Dict.mem_items_set hp with rfl | hp
    · exact d.key_written a
    · exact d.keyed p hp

/-- `d.pop(a, None)`, without what it returns. -/
def erase (d : Mapping) (a : Atom) : Mapping :=
  ⟨d.dict.erase a.key, fun p hp => d.keyed p (List.mem_of_mem_filter hp)⟩

/-- The same keys, with other values. -/
def mapVals (f : Val → Val) (d : Mapping) : Mapping where
  dict := d.dict.mapValues fun _ p => (p.1, f p.2)
  keyed p hp := by
    obtain ⟨q, hq, rfl⟩ := List.mem_map.mp hp
    exact d.keyed q hq

@[simp] theorem value_empty (k : Key) : empty.value k = none := rfl

theorem value_assign (d : Mapping) (a : Atom) (v : Val) (k : Key) :
    (d.assign a v).value k = if k = a.key then some v else d.value k := by
  unfold value assign
  rw [Dict.get?_set]
  split <;> rfl

theorem value_erase (d : Mapping) (a : Atom) (k : Key) :
    (d.erase a).value k = if k = a.key then none else d.value k := by
  unfold value erase
  rw [Dict.get?_erase]
  split <;> rfl

@[simp] theorem value_mapVals (f : Val → Val) (d : Mapping) (k : Key) : (d.mapVals f).value k = (d.value k).map f := by
  simp [value, mapVals, Dict.get?_mapValues, Function.comp_def]

@[simp] theorem keys_mapVals (f : Val → Val) (d : Mapping) : (d.mapVals f).keys = d.keys := by
  simp [keys, mapVals, Dict.mapValues]

theorem map_key_keys (d : Mapping) : d.keys.map Atom.key = d.dict.keys := by
  rw [keys, List.map_map]
  exact List.map_congr_left fun p hp => d.keyed p hp

theorem nodup_keys (d : Mapping) : (d.keys.map Atom.key).Nodup := by
  rw [map_key_keys]
  exact d.dict.nodup

theorem value_isSome {d : Mapping} {k : Key} : (d.value k).isSome ↔ k ∈ d.keys.map Atom.key := by
  rw [value, Option.isSome_map, Dict.get?_isSome, map_key_keys]

end Mapping

namespace Obj

def child : Obj → Step → Option Val
  | list vs, .item i => vs[i]?
  | pairs ps, .fst i => ps[i]?.map Prod.fst
  | pairs ps, .snd i => ps[i]?.map Prod.snd
  | dict d, .key k => d.value k
  | _, _ => none

def shape : Obj → Shape
  | list vs => .list vs.length
  | pairs ps => .pairs ps.length
  | set as => .set as
  | dict _ => .dict

/-- The object with other values in it. -/
def mapVals (f : Val → Val) : Obj → Obj
  | list vs => list (vs.map f)
  | pairs ps => pairs (ps.map fun p => (f p.1, f p.2))
  | set as => set as
  | dict d => dict (d.mapVals f)

def truthy : Obj → Bool
  | list vs => vs ≠ []
  | pairs ps => ps ≠ []
  | set as => as ≠ []
  | dict d => d.keys ≠ []

theorem child_mapVals (f : Val → Val) (o : Obj) (s : Step) : (o.mapVals f).child s = (o.child s).map f := by
  cases o with
  | list vs => cases s <;> simp [mapVals, child]
  | pairs ps => cases s <;> simp [mapVals, child, Function.comp_def]
  | set as => cases s <;> rfl
  | dict d =>
    cases s with
    | key k => simp [mapVals, child]
    | _ => rfl

theorem shape_mapVals (f : Val → Val) (o : Obj) : (o.mapVals f).shape = o.shape := by
  cases o <;> simp [mapVals, shape]

theorem truthy_mapVals (f : Val → Val) (o : Obj) : (o.mapVals f).truthy = o.truthy := by
  cases o <;> simp [mapVals, truthy]

theorem mapVals_mapVals {f g e : Val → Val} (h : ∀ v, f (g v) = e v) (o : Obj) : (o.mapVals g).mapVals f = o.mapVals e := by
  obtain rfl : e = f ∘ g := funext fun v => (h v).symm
  cases o <;> simp [mapVals, Mapping.mapVals, Dict.mapValues]

end Obj

/-- The value with its reference moved on. -/
def Val.shift (n : ℕ) : Val → Val
  | atom a => atom a
  | ref i => ref (n + i)

namespace Heap

variable (h : Heap)

/-- `bool(v)`. -/
def truthy : Val → Bool
  | .atom a => a.truthy
  | .ref i => h[i]?.any Obj.truthy

/-- The mapping that a value is. -/
def dictOf : Val → Option Mapping
  | .atom _ => none
  | .ref i => match h[i]? with
    | some (.dict d) => some d
    | _ => none

/-- `copy.deepcopy(v)`: the copies of all objects, each once, and the copy of the value. -/
def deepcopy (v : Val) : Heap × Val := (h ++ h.map (Obj.mapVals (Val.shift h.length)), v.shift h.length)

variable {h} in
theorem dictOf_eq_some {v : Val} {d : Mapping} : h.dictOf v = some d ↔ ∃ i, v = .ref i ∧ h[i]? = some (.dict d) := by
  cases v with
  | atom a => simp [dictOf]
  | ref i =>
    simp only [dictOf, Val.ref.injEq, exists_eq_left']
    split
    · rename_i heq
      simp [heq]
    · rename_i hne
      constructor
      · intro h
        cases h
      · intro h
        exact absurd h (hne d)

/-! ### Paths -/

/-- What a path shows. -/
def look : Val → List Step → Option Shape
  | .atom a, [] => some (.atom a)
  | .atom _, _ :: _ => none
  | .ref i, [] => h[i]?.map Obj.shape
  | .ref i, s :: p => (h[i]?.bind (·.child s)).bind (look · p)

/-- A value leads to an object. -/
inductive Reaches : Val → ℕ → Prop where
  | here (i : ℕ) : Reaches (.ref i) i
  | step {i j : ℕ} {o : Obj} {s : Step} {v : Val} (ho : h[i]? = some o) (hv : o.child s = some v)
      (hj : Reaches v j) : Reaches (.ref i) j

end Heap

/-- A value of one heap and a value of another are equal. -/
def Same (h : Heap) (v : Val) (h' : Heap) (v' : Val) : Prop := ∀ p, h.look v p = h'.look v' p

theorem Same.symm {h h' : Heap} {v v' : Val} (hs : Same h v h' v') : Same h' v' h v := fun p => (hs p).symm

theorem Same.trans {h h' h'' : Heap} {v v' v'' : Val} (hs : Same h v h' v') (hs' : Same h' v' h'' v'') :
    Same h v h'' v'' :=
  fun p => (hs p).trans (hs' p)

/-- Both are missing, or both are there and equal. -/
abbrev SameItem (h : Heap) (o : Option Val) (h' : Heap) (o' : Option Val) : Prop :=
  Option.Rel (fun v v' => Same h v h' v') o o'

theorem SameItem.symm {h h' : Heap} {o o' : Option Val} (hs : SameItem h o h' o') : SameItem h' o' h o := by
  cases hs with
  | none => exact .none
  | some hs => exact .some hs.symm

theorem SameItem.trans {h h' h'' : Heap} {o o' o'' : Option Val} (hs : SameItem h o h' o') (hs' : SameItem h' o' h'' o'') :
    SameItem h o h'' o'' := by
  cases hs with
  | none =>
    cases hs' with
    | none => exact .none
  | some hs =>
    cases hs' with
    | some hs' => exact .some (hs.trans hs')

/-- Equal values show the same. -/
theorem SameItem.look {h h' : Heap} {o o' : Option Val} (hs : SameItem h o h' o') (p : List Step) :
    o.bind (h.look · p) = o'.bind (h'.look · p) := by
  cases hs with
  | none => rfl
  | some hs => exact hs p

/-- Objects are equal if they show the same and hold the same. -/
theorem same_ref {h h' : Heap} {i i' : ℕ} {o o' : Obj} (hi : h[i]? = some o) (hi' : h'[i']? = some o')
    (hshape : o.shape = o'.shape) (hsame : ∀ s, SameItem h (o.child s) h' (o'.child s)) :
    Same h (.ref i) h' (.ref i') := by
  intro p
  cases p with
  | nil =>
    show h[i]?.map Obj.shape = h'[i']?.map Obj.shape
    rw [hi, hi']
    exact congrArg some hshape
  | cons s p =>
    show (h[i]?.bind (·.child s)).bind (h.look · p) = (h'[i']?.bind (·.child s)).bind (h'.look · p)
    rw [hi, hi', Option.bind_some, Option.bind_some]
    have hs := hsame s
    generalize o.child s = c at hs ⊢
    generalize o'.child s = c' at hs ⊢
    cases hs with
    | none => rfl
    | some hs => exact hs p

/-- Mappings are equal if their items are. -/
theorem same_dict {h h' : Heap} {v v' : Val} {d d' : Mapping} (hv : h.dictOf v = some d) (hv' : h'.dictOf v' = some d')
    (hsame : ∀ k, SameItem h (d.value k) h' (d'.value k)) : Same h v h' v' := by
  obtain ⟨i, rfl, hi⟩ := Heap.dictOf_eq_some.mp hv
  obtain ⟨i', rfl, hi'⟩ := Heap.dictOf_eq_some.mp hv'
  refine same_ref hi hi' rfl fun s => ?_
  cases s with
  | key k => exact hsame k
  | item i => exact .none
  | fst i => exact .none
  | snd i => exact .none

/-- The value's objects stand in another heap too, moved on by `n`. -/
def CopiedAt (h : Heap) (v : Val) (h' : Heap) (n : ℕ) : Prop :=
  ∀ i, h.Reaches v i → h'[n + i]? = h[i]?.map (Obj.mapVals (Val.shift n))

theorem CopiedAt.child {h h' : Heap} {n i : ℕ} {o : Obj} {s : Step} {v : Val} (hc : CopiedAt h (.ref i) h' n)
    (ho : h[i]? = some o) (hv : o.child s = some v) : CopiedAt h v h' n :=
  fun j hj => hc j (.step ho hv hj)

theorem CopiedAt.truthy {h h' : Heap} {v : Val} {n : ℕ} (hc : CopiedAt h v h' n) : h'.truthy (v.shift n) = h.truthy v := by
  cases v with
  | atom a => rfl
  | ref i =>
    show h'[n + i]?.any Obj.truthy = h[i]?.any Obj.truthy
    rw [hc i (.here i)]
    cases h[i]? with
    | none => rfl
    | some o => exact o.truthy_mapVals _

theorem CopiedAt.dictOf {h h' : Heap} {v : Val} {n : ℕ} (hc : CopiedAt h v h' n) :
    h'.dictOf (v.shift n) = (h.dictOf v).map (Mapping.mapVals (Val.shift n)) := by
  cases v with
  | atom a => rfl
  | ref i =>
    simp only [Val.shift, Heap.dictOf, hc i (.here i)]
    cases h[i]? with
    | none => rfl
    | some o => cases o <;> rfl

/-- **A copy is equal to what was copied.** -/
theorem same_shift {h h' : Heap} {n : ℕ} : ∀ {v : Val}, CopiedAt h v h' n → Same h v h' (v.shift n)
  | .atom a, _, p => by cases p <;> rfl
  | .ref i, hc, [] => by
    have hi := hc i (.here i)
    show h[i]?.map Obj.shape = h'[n + i]?.map Obj.shape
    rw [hi, Option.map_map]
    congr 1
    funext o
    exact (o.shape_mapVals _).symm
  | .ref i, hc, s :: p => by
    have hi := hc i (.here i)
    show (h[i]?.bind (·.child s)).bind (h.look · p) = (h'[n + i]?.bind (·.child s)).bind (h'.look · p)
    rw [hi]
    cases ho : h[i]? with
    | none => rfl
    | some o =>
      rw [Option.map_some, Option.bind_some, Option.bind_some, o.child_mapVals]
      cases hv : o.child s with
      | none => rfl
      | some v => exact same_shift (hc.child ho hv) p

end Py
end MqResiliency
