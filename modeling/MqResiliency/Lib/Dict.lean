/-
# Python dictionaries

A `dict` keeps its keys in the order of their first insertion, each once
(`Dict`): reading (`get?`), assignment (`set`), and building one from a list
of assignments (`ofList`), the last of which wins.

Key theorems: `get?_set`, `mem_keys_set`, `get?_eq_some`, `perm_push`, `mem_pushes`.
-/
import Mathlib.Data.List.Induction
import Mathlib.Data.List.Nodup
import Mathlib.Data.List.Pairwise

namespace MqResiliency
namespace Py

/-- A `dict`. -/
structure Dict (κ α : Type) : Type where
  items : List (κ × α)
  nodup : (items.map Prod.fst).Nodup

namespace Dict

variable {κ α β : Type}

def keys (d : Dict κ α) : List κ := d.items.map Prod.fst

def values (d : Dict κ α) : List α := d.items.map Prod.snd

/-- `{}`. -/
def empty : Dict κ α := ⟨[], List.nodup_nil⟩

/-- The same keys, with other values. -/
def mapValues (f : κ → α → β) (d : Dict κ α) : Dict κ β where
  items := d.items.map fun p => (p.1, f p.1 p.2)
  nodup := by
    have h : (d.items.map fun p => (p.1, f p.1 p.2)).map Prod.fst = d.items.map Prod.fst := by simp
    exact h ▸ d.nodup

instance [DecidableEq κ] [DecidableEq α] : DecidableEq (Dict κ α) := fun d e =>
  decidable_of_iff (d.items = e.items) ⟨fun h => by cases d; cases e; congr, fun h => h ▸ rfl⟩

variable [DecidableEq κ]

/-- `d.get(k)`. -/
def get? (d : Dict κ α) (k : κ) : Option α := (d.items.find? fun p => p.1 = k).map Prod.snd

/-- The items after `d[k] = v`: in its place, or at the end. -/
def assign (k : κ) (v : α) : List (κ × α) → List (κ × α)
  | [] => [(k, v)]
  | p :: ps => if p.1 = k then (k, v) :: ps else p :: assign k v ps

theorem mem_map_fst_assign (k : κ) (v : α) (k' : κ) : ∀ ps : List (κ × α),
    k' ∈ (assign k v ps).map Prod.fst ↔ k' = k ∨ k' ∈ ps.map Prod.fst
  | [] => by simp [assign]
  | p :: ps => by
    unfold assign
    split
    · rename_i h
      simp [← h]
    · rw [List.map_cons, List.mem_cons, mem_map_fst_assign k v k' ps, List.map_cons, List.mem_cons]
      tauto

theorem nodup_assign (k : κ) (v : α) : ∀ ps : List (κ × α), (ps.map Prod.fst).Nodup →
    ((assign k v ps).map Prod.fst).Nodup
  | [], _ => by simp [assign]
  | p :: ps, h => by
    obtain ⟨hp, hps⟩ := List.nodup_cons.mp h
    unfold assign
    split
    · rename_i hk
      exact List.nodup_cons.mpr ⟨hk ▸ hp, hps⟩
    · rename_i hk
      refine List.nodup_cons.mpr ⟨fun hm => ?_, nodup_assign k v ps hps⟩
      rcases (mem_map_fst_assign k v p.1 ps).mp hm with h' | h'
      · exact hk h'
      · exact hp h'

/-- `d[k] = v`. -/
def set (d : Dict κ α) (k : κ) (v : α) : Dict κ α := ⟨assign k v d.items, nodup_assign k v _ d.nodup⟩

/-- `d.pop(k, None)`, without what it returns. -/
def erase (d : Dict κ α) (k : κ) : Dict κ α :=
  ⟨d.items.filter fun p => p.1 ≠ k, d.nodup.sublist (List.filter_sublist.map Prod.fst)⟩

/-- Assignments, one after the other. -/
def ofList (ps : List (κ × α)) : Dict κ α := ps.foldl (fun d p => d.set p.1 p.2) empty

/-! ### Reading -/

theorem get?_eq_some {d : Dict κ α} {k : κ} {v : α} : d.get? k = some v ↔ (k, v) ∈ d.items := by
  unfold get?
  constructor
  · intro h
    obtain ⟨p, hp, rfl⟩ := Option.map_eq_some_iff.mp h
    have hk : p.1 = k := by simpa using List.find?_some hp
    exact hk ▸ List.mem_of_find?_eq_some hp
  · intro h
    obtain ⟨p, hp⟩ : ∃ p, d.items.find? (fun p => p.1 = k) = some p :=
      Option.isSome_iff_exists.mp (List.find?_isSome.mpr ⟨(k, v), h, by simp⟩)
    have hk : p.1 = k := by simpa using List.find?_some hp
    have heq : p = (k, v) :=
      List.inj_on_of_nodup_map d.nodup (List.mem_of_find?_eq_some hp) h hk
    rw [hp, heq]
    rfl

theorem get?_isSome {d : Dict κ α} {k : κ} : (d.get? k).isSome ↔ k ∈ d.keys := by
  rw [Option.isSome_iff_exists, keys, List.mem_map]
  constructor
  · rintro ⟨v, hv⟩
    exact ⟨(k, v), get?_eq_some.mp hv, rfl⟩
  · rintro ⟨⟨k, v⟩, hp, rfl⟩
    exact ⟨v, get?_eq_some.mpr hp⟩

theorem get?_eq_none {d : Dict κ α} {k : κ} : d.get? k = none ↔ k ∉ d.keys := by
  rw [← get?_isSome, Option.not_isSome_iff_eq_none]

theorem mem_keys_of_get? {d : Dict κ α} {k : κ} {v : α} (h : d.get? k = some v) : k ∈ d.keys :=
  get?_isSome.mp (h ▸ rfl)

@[simp] theorem get?_empty (k : κ) : (empty : Dict κ α).get? k = none := rfl

/-! ### Assignment -/

theorem find?_assign (k : κ) (v : α) (k' : κ) : ∀ ps : List (κ × α),
    ((assign k v ps).find? fun p => p.1 = k').map Prod.snd =
      if k' = k then some v else (ps.find? fun p => p.1 = k').map Prod.snd
  | [] => by
    by_cases h : k' = k
    · simp [assign, h]
    · simp [assign, h, Ne.symm h]
  | p :: ps => by
    have ih := find?_assign k v k' ps
    unfold assign
    by_cases hp : p.1 = k
    · rw [if_pos hp]
      by_cases h : k' = k
      · simp [h]
      · simp [h, Ne.symm h, hp]
    · rw [if_neg hp]
      by_cases h : p.1 = k'
      · have hne : k' ≠ k := h ▸ hp
        simp [h, hne]
      · rw [List.find?_cons_of_neg (by simpa using h), List.find?_cons_of_neg (by simpa using h), ih]

theorem get?_set (d : Dict κ α) (k : κ) (v : α) (k' : κ) :
    (d.set k v).get? k' = if k' = k then some v else d.get? k' :=
  find?_assign k v k' d.items

@[simp] theorem mem_keys_set {d : Dict κ α} {k : κ} {v : α} {k' : κ} :
    k' ∈ (d.set k v).keys ↔ k' = k ∨ k' ∈ d.keys :=
  mem_map_fst_assign k v k' d.items

theorem get?_erase (d : Dict κ α) (k k' : κ) : (d.erase k).get? k' = if k' = k then none else d.get? k' := by
  unfold erase get?
  rw [List.find?_filter]
  by_cases h : k' = k
  · rw [if_pos h, List.find?_eq_none.mpr fun p _ => by simp [h]]
    rfl
  · rw [if_neg h]
    congr 2
    funext p
    by_cases hp : p.1 = k'
    · simp [hp, h]
    · simp [hp]

/-- What is in a dictionary after an assignment. -/
theorem mem_items_set {d : Dict κ α} {k : κ} {v : α} {p : κ × α} (h : p ∈ (d.set k v).items) :
    p = (k, v) ∨ p ∈ d.items := by
  have hget : (d.set k v).get? p.1 = some p.2 := get?_eq_some.mpr h
  rw [get?_set] at hget
  split at hget
  · rename_i hk
    exact .inl (Prod.ext hk (Option.some.inj hget).symm)
  · exact .inr (get?_eq_some.mp hget)

theorem get?_mapValues (f : κ → α → β) (d : Dict κ α) (k : κ) :
    (d.mapValues f).get? k = (d.get? k).map (f k) := by
  cases h : d.get? k with
  | none =>
    have hk : k ∉ d.keys := get?_eq_none.mp h
    refine get?_eq_none.mpr fun hm => hk ?_
    simpa [keys, mapValues] using hm
  | some v =>
    refine get?_eq_some.mpr (List.mem_map.mpr ⟨(k, v), get?_eq_some.mp h, rfl⟩)

/-- What an assignment to the list reads as: the last to the key. -/
theorem get?_ofList_concat (ps : List (κ × α)) (p : κ × α) (k : κ) :
    (ofList (ps ++ [p])).get? k = if k = p.1 then some p.2 else (ofList ps).get? k := by
  have h : ofList (ps ++ [p]) = (ofList ps).set p.1 p.2 := by simp [ofList]
  rw [h, get?_set]

theorem mem_keys_ofList {k : κ} (ps : List (κ × α)) : k ∈ (ofList ps).keys ↔ k ∈ ps.map Prod.fst := by
  induction ps using List.reverseRecOn with
  | nil => simp [ofList, empty, keys]
  | append_singleton ps p ih =>
    have h : ofList (ps ++ [p]) = (ofList ps).set p.1 p.2 := by simp [ofList]
    rw [h, mem_keys_set, ih, List.map_append, List.mem_append, or_comm]
    simp

/-- The last assignment to a key is what it reads as. -/
theorem get?_ofList_eq_some {k : κ} {v : α} (ps : List (κ × α)) : (ofList ps).get? k = some v ↔
    ∃ before after, ps = before ++ (k, v) :: after ∧ k ∉ after.map Prod.fst := by
  induction ps using List.reverseRecOn with
  | nil => simp [ofList]
  | append_singleton ps p ih =>
    rw [get?_ofList_concat]
    by_cases hk : k = p.1
    · rw [if_pos hk]
      constructor
      · intro h
        refine ⟨ps, [], ?_, by simp⟩
        rw [hk, ← Option.some.inj h]
      · intro ⟨before, after, heq, hafter⟩
        rcases List.eq_nil_or_concat after with rfl | ⟨after, q, rfl⟩
        · have hlast := (List.append_inj' heq rfl).2
          rw [List.cons.inj hlast |>.1]
        · have hlast : p = q := by
            have heq' : ps ++ [p] = (before ++ (k, v) :: after) ++ [q] := by simpa using heq
            exact List.cons.inj (List.append_inj' heq' rfl).2 |>.1
          exact absurd (by simp [hk, hlast]) hafter
    · rw [if_neg hk, ih]
      constructor
      · intro ⟨before, after, heq, hafter⟩
        refine ⟨before, after ++ [p], by simp [heq], ?_⟩
        simpa [hk] using hafter
      · intro ⟨before, after, heq, hafter⟩
        rcases List.eq_nil_or_concat after with rfl | ⟨after, q, rfl⟩
        · have hlast := List.cons.inj (List.append_inj' heq rfl).2 |>.1
          exact absurd (by rw [hlast]) hk
        · have heq' : ps ++ [p] = (before ++ (k, v) :: after) ++ [q] := by simpa using heq
          exact ⟨before, after, (List.append_inj' heq' rfl).1, fun h => hafter (by simp [h])⟩

/-- A new key goes to the end. -/
theorem assign_of_not_mem {k : κ} (v : α) : ∀ {ps : List (κ × α)}, k ∉ ps.map Prod.fst → assign k v ps = ps ++ [(k, v)]
  | [], _ => rfl
  | p :: ps, h => by
    obtain ⟨hp, hps⟩ : ¬ k = p.1 ∧ k ∉ ps.map Prod.fst := by simpa using h
    rw [assign, if_neg (Ne.symm hp), assign_of_not_mem v hps, List.cons_append]

/-- Assignments to different keys are the items. -/
theorem items_ofList {ps : List (κ × α)} (h : (ps.map Prod.fst).Nodup) : (ofList ps).items = ps := by
  induction ps using List.reverseRecOn with
  | nil => rfl
  | append_singleton ps p ih =>
    rw [List.map_append, List.nodup_append] at h
    obtain ⟨hps, -, hdis⟩ := h
    have hset : (ofList (ps ++ [p])).items = assign p.1 p.2 (ofList ps).items := by simp [ofList, set]
    have hnew : p.1 ∉ ps.map Prod.fst := fun hm => hdis _ hm p.1 (by simp) rfl
    rw [hset, ih hps, assign_of_not_mem p.2 hnew]

/-- The items under a key. -/
theorem filter_items (d : Dict κ α) (k : κ) : d.items.filter (·.1 = k) = ((d.get? k).map (k, ·)).toList := by
  have hlist : ∀ ps : List (κ × α), (ps.map Prod.fst).Nodup →
      ps.filter (·.1 = k) = (((ps.find? fun p => p.1 = k).map Prod.snd).map (k, ·)).toList := by
    intro ps
    induction ps with
    | nil => exact fun _ => rfl
    | cons p ps ih =>
      intro h
      obtain ⟨hp, hps⟩ := List.nodup_cons.mp h
      by_cases hk : p.1 = k
      · have hnone : ps.filter (·.1 = k) = [] := List.filter_eq_nil_iff.mpr fun q hq => by
          simpa using fun hqk : q.1 = k => hp (hk.trans hqk.symm ▸ List.mem_map_of_mem hq)
        rw [List.filter_cons_of_pos (by simpa using hk), List.find?_cons_of_pos (by simpa using hk), hnone, ← hk]
        rfl
      · rw [List.filter_cons_of_neg (by simpa using hk), List.find?_cons_of_neg (by simpa using hk), ih hps]
  exact hlist d.items d.nodup

/-- What is under the key, changed in its place. -/
def modify (d : Dict κ α) (k : κ) (f : α → α) : Dict κ α :=
  match d.get? k with
  | some v => d.set k (f v)
  | none => d

theorem get?_modify (d : Dict κ α) (k : κ) (f : α → α) (k' : κ) :
    (d.modify k f).get? k' = if k' = k then (d.get? k).map f else d.get? k' := by
  cases h : d.get? k with
  | none =>
    have hself : d.modify k f = d := by rw [modify, h]
    rw [hself]
    by_cases hk : k' = k
    · rw [if_pos hk, hk, h, Option.map_none]
    · rw [if_neg hk]
  | some v =>
    have hset : d.modify k f = d.set k (f v) := by rw [modify, h]
    rw [hset, get?_set, Option.map_some]

/-- `d.setdefault(k, v)`, without what it returns. -/
def setdefault (d : Dict κ α) (k : κ) (v : α) : Dict κ α :=
  match d.get? k with
  | some _ => d
  | none => d.set k v

theorem get?_setdefault (d : Dict κ α) (k : κ) (v : α) (k' : κ) :
    (d.setdefault k v).get? k' = if k' = k then (d.get? k).or (some v) else d.get? k' := by
  cases h : d.get? k with
  | none =>
    have hset : d.setdefault k v = d.set k v := by rw [setdefault, h]
    rw [hset, get?_set, Option.none_or]
  | some w =>
    have hself : d.setdefault k v = d := by rw [setdefault, h]
    rw [hself, Option.some_or]
    by_cases hk : k' = k
    · rw [if_pos hk, hk, h]
    · rw [if_neg hk]

/-- A key that is there stays where it is; a new one goes to the end. -/
theorem keys_setdefault (d : Dict κ α) (k : κ) (v : α) :
    (d.setdefault k v).keys = if k ∈ d.keys then d.keys else d.keys ++ [k] := by
  cases h : d.get? k with
  | none =>
    have hk : k ∉ d.keys := get?_eq_none.mp h
    have hset : d.setdefault k v = d.set k v := by rw [setdefault, h]
    have hitems : (d.set k v).items = d.items ++ [(k, v)] := assign_of_not_mem v hk
    rw [hset, if_neg hk, keys, hitems, List.map_append]
    rfl
  | some w =>
    have hself : d.setdefault k v = d := by rw [setdefault, h]
    rw [hself, if_pos (mem_keys_of_get? h)]

/-! ### Lists under keys -/

section
variable {β : Type}

/-- `d.setdefault(k, []).append(b)`. -/
def push (d : Dict κ (List β)) (k : κ) (b : β) : Dict κ (List β) := d.set k ((d.get? k).getD [] ++ [b])

theorem get?_push (d : Dict κ (List β)) (k : κ) (b : β) (k' : κ) :
    (d.push k b).get? k' = if k' = k then some ((d.get? k).getD [] ++ [b]) else d.get? k' :=
  get?_set d k _ k'

theorem perm_flatMap_assign (k : κ) (b : β) : ∀ ps : List (κ × List β),
    ((assign k (((ps.find? fun p => p.1 = k).map Prod.snd).getD [] ++ [b]) ps).flatMap Prod.snd).Perm
      (ps.flatMap Prod.snd ++ [b])
  | [] => by simp [assign]
  | p :: ps => by
    unfold assign
    split
    · rename_i hk
      rw [List.find?_cons_of_pos (by simpa using hk), List.flatMap_cons, List.flatMap_cons]
      simp only [Option.map_some, Option.getD_some, List.append_assoc]
      exact (List.perm_append_comm).append_left p.2
    · rename_i hk
      rw [List.find?_cons_of_neg (by simpa using hk), List.flatMap_cons, List.flatMap_cons, List.append_assoc]
      exact (perm_flatMap_assign k b ps).append_left p.2

/-- A list under a key grows by what is pushed, and nothing else changes. -/
theorem perm_push (d : Dict κ (List β)) (k : κ) (b : β) :
    ((d.push k b).items.flatMap Prod.snd).Perm (d.items.flatMap Prod.snd ++ [b]) :=
  perm_flatMap_assign k b d.items

/-- Values pushed one after the other, each under its key. -/
def pushes (d : Dict κ (List β)) (ps : List (κ × β)) : Dict κ (List β) := ps.foldl (fun d p => d.push p.1 p.2) d

/-- What is under a key was there or was pushed there. -/
theorem mem_pushes {k : κ} {b : β} : ∀ (ps : List (κ × β)) (d : Dict κ (List β)),
    b ∈ ((d.pushes ps).get? k).getD [] ↔ b ∈ (d.get? k).getD [] ∨ (k, b) ∈ ps
  | [], d => by simp [pushes]
  | p :: ps, d => by
    have ih : b ∈ (((d.push p.1 p.2).pushes ps).get? k).getD [] ↔ _ := mem_pushes ps (d.push p.1 p.2)
    rw [pushes, List.foldl_cons, ← pushes, ih, get?_push, List.mem_cons]
    by_cases hk : k = p.1
    · subst hk
      rw [if_pos rfl, Option.getD_some, List.mem_append, List.mem_singleton, or_assoc]
      simp [Prod.ext_iff]
    · rw [if_neg hk]
      simp [Prod.ext_iff, hk]

theorem mem_keys_pushes {k : κ} : ∀ (ps : List (κ × β)) (d : Dict κ (List β)),
    k ∈ (d.pushes ps).keys ↔ k ∈ d.keys ∨ k ∈ ps.map Prod.fst
  | [], d => by simp [pushes]
  | p :: ps, d => by
    have ih : k ∈ ((d.push p.1 p.2).pushes ps).keys ↔ _ := mem_keys_pushes ps (d.push p.1 p.2)
    rw [pushes, List.foldl_cons, ← pushes, ih, push, mem_keys_set, List.map_cons, List.mem_cons]
    tauto

end

end Dict
end Py
end MqResiliency
