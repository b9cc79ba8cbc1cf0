/-
# The objects of a topology while a profile is merged on

Every object is copied first. What is changed then are the copies of the
topology and of its nodes, and new objects come after. As long as no alias in
the input leads to these two (`Unaliased`), all other copies stand (`Kept`,
`Copied`), and what the heap is at each point is told by the levers that were
set (`Stands`).

Key theorems: `Stands.setRoot`, `Stands.setNode`.
-/
import Mathlib.Logic.Function.Basic
import MqResiliency.Lab.EnvProfile

namespace MqResiliency
namespace Lab
namespace Profile

open Py

/-- A mapping that `yaml.safe_load` returns, with the objects in it. -/
structure Document : Type where
  heap : Heap
  root : ℕ
  mapping : Mapping
  isRoot : heap[root]? = some (.dict mapping)
  closed : ∀ (i : ℕ) (o : Obj) s j, heap[i]? = some o → o.child s = some (.ref j) → j < heap.length

namespace Document

variable (doc : Document)

/-- What the topology has under `nodes`. -/
def nodes : Option Val := doc.mapping.value nodesKey.key

/-- No alias leads to the topology itself, nor to its nodes. -/
structure Unaliased : Prop where
  root : ∀ k v, doc.mapping.value k = some v → ¬ doc.heap.Reaches v doc.root
  nodes : ∀ j k v, doc.nodes = some (.ref j) → doc.mapping.value k = some v → doc.heap.Reaches v j → k = nodesKey.key
  within : ∀ j o s v, doc.nodes = some (.ref j) → doc.heap[j]? = some o → o.child s = some v → ¬ doc.heap.Reaches v j

/-- All that the value leads to is another object than those that are changed. -/
structure Loose (v : Val) : Prop where
  inside : ∀ i, v = .ref i → i < doc.heap.length
  root : ¬ doc.heap.Reaches v doc.root
  nodes : ∀ j, doc.nodes = some (.ref j) → ¬ doc.heap.Reaches v j

variable {doc}

theorem lt_of_reaches {v : Val} {i : ℕ} (hr : doc.heap.Reaches v i) (hv : ∀ j, v = .ref j → j < doc.heap.length) :
    i < doc.heap.length := by
  induction hr with
  | here i => exact hv i rfl
  | step ho hc _ ih =>
    apply ih
    rintro j rfl
    exact doc.closed _ _ _ j ho hc

theorem root_lt : doc.root < doc.heap.length := (List.getElem?_eq_some_iff.mp doc.isRoot).1

theorem inside_value {k : Key} {v : Val} (hv : doc.mapping.value k = some v) : ∀ i, v = .ref i → i < doc.heap.length := by
  rintro i rfl
  exact doc.closed doc.root _ (.key k) i doc.isRoot hv

theorem nodes_lt {j : ℕ} (hj : doc.nodes = some (.ref j)) : j < doc.heap.length := inside_value hj j rfl

namespace Loose

theorem child {i : ℕ} {o : Obj} {s : Step} {v : Val} (hl : doc.Loose (.ref i)) (ho : doc.heap[i]? = some o)
    (hv : o.child s = some v) : doc.Loose v where
  inside j hj := doc.closed i o s j ho (hj ▸ hv)
  root hr := hl.root (.step ho hv hr)
  nodes j hj hr := hl.nodes j hj (.step ho hv hr)

/-- A value other than the nodes. -/
theorem of_value (hu : doc.Unaliased) {k : Key} {v : Val} (hv : doc.mapping.value k = some v) (hk : k ≠ nodesKey.key) :
    doc.Loose v :=
  ⟨inside_value hv, hu.root k v hv, fun j hj hr => hk (hu.nodes j k v hj hv hr)⟩

/-- A value in the nodes. -/
theorem of_nodes (hu : doc.Unaliased) {j : ℕ} {o : Obj} {s : Step} {v : Val} (hj : doc.nodes = some (.ref j))
    (ho : doc.heap[j]? = some o) (hv : o.child s = some v) : doc.Loose v where
  inside i hi := doc.closed j o s i ho (hi ▸ hv)
  root hr := hu.root _ _ hj (.step ho hv hr)
  nodes j' hj' hr := by
    obtain rfl : j = j' := by simpa [hj] using hj'
    exact hu.within j o s v hj ho hv hr

theorem atom (a : Atom) : doc.Loose (.atom a) where
  inside i hi := by cases hi
  root hr := by cases hr
  nodes j _ hr := by cases hr

theorem get_mapping {v : Val} {d : Mapping} {k : Key} {w : Val} (hl : doc.Loose v) (hd : doc.heap.dictOf v = some d)
    (hw : d.value k = some w) : doc.Loose w := by
  obtain ⟨i, rfl, ho⟩ := Heap.dictOf_eq_some.mp hd
  exact hl.child ho (s := .key k) hw

end Loose

/-! ### Copies -/

variable (doc) in
/-- A value of the input was copied to `w`, and the copy stands. -/
def Copied (v : Val) (H : Heap) (w : Val) : Prop :=
  ∃ m, w = v.shift m ∧ (m = doc.heap.length ∨ 2 * doc.heap.length ≤ m) ∧ m + doc.heap.length ≤ H.length ∧
    CopiedAt doc.heap v H m

theorem Copied.same {v : Val} {H : Heap} {w : Val} (hc : doc.Copied v H w) : Same doc.heap v H w := by
  obtain ⟨m, rfl, -, -, hm⟩ := hc
  exact same_shift hm

variable (doc) in
/-- The later heap has the objects of the earlier one, except for the topology and its nodes. -/
structure Kept (H H' : Heap) : Prop where
  length : H.length ≤ H'.length
  get : ∀ i < H.length, i ≠ doc.heap.length + doc.root →
    (∀ j, doc.nodes = some (.ref j) → i ≠ doc.heap.length + j) → H'[i]? = H[i]?

theorem Copied.kept {v : Val} {H H' : Heap} {w : Val} (hc : doc.Copied v H w) (hl : doc.Loose v) (hk : doc.Kept H H') :
    doc.Copied v H' w := by
  obtain ⟨m, rfl, hm, hlen, hcopy⟩ := hc
  refine ⟨m, rfl, hm, hlen.trans hk.length, fun i hi => ?_⟩
  have hlt := lt_of_reaches hi hl.inside
  have hroot := doc.root_lt
  rw [hk.get (m + i) (by omega) ?_ ?_, hcopy i hi]
  · rcases hm with rfl | hm
    · intro heq
      obtain rfl : i = doc.root := by omega
      exact hl.root hi
    · omega
  · intro j hj
    have hjlt := nodes_lt hj
    rcases hm with rfl | hm
    · intro heq
      obtain rfl : i = j := by omega
      exact hl.nodes i hj hi
    · omega

theorem kept_append (H more : Heap) : doc.Kept H (H ++ more) where
  length := by simp
  get i hi _ _ := List.getElem?_append_left hi

theorem kept_set_root (H : Heap) (o : Obj) : doc.Kept H (H.set (doc.heap.length + doc.root) o) where
  length := by simp
  get i _ hne _ := List.getElem?_set_ne (Ne.symm hne)

theorem kept_set_nodes (H : Heap) (o : Obj) {j : ℕ} (hj : doc.nodes = some (.ref j)) :
    doc.Kept H (H.set (doc.heap.length + j) o) where
  length := by simp
  get i _ _ hne := List.getElem?_set_ne (Ne.symm (hne j hj))

theorem Kept.trans {H H' H'' : Heap} (h : doc.Kept H H') (h' : doc.Kept H' H'') : doc.Kept H H'' where
  length := h.length.trans h'.length
  get i hi hroot hnodes := (h'.get i (by have := h.length; omega) hroot hnodes).trans (h.get i hi hroot hnodes)

theorem shift_shift (m n : ℕ) (v : Val) : (v.shift n).shift m = v.shift (m + n) := by
  cases v with
  | atom a => rfl
  | ref i => simp [Val.shift, Nat.add_assoc]

/-- `copy.deepcopy` of a copy. -/
theorem Copied.deepcopy {v : Val} {H : Heap} {w : Val} (hc : doc.Copied v H w) (hl : doc.Loose v) :
    doc.Copied v (H.deepcopy w).1 (H.deepcopy w).2 := by
  obtain ⟨m, rfl, hm, hlen, hcopy⟩ := hc
  refine ⟨H.length + m, shift_shift _ _ _, by omega, by simp [Heap.deepcopy]; omega, fun i hi => ?_⟩
  have hlt := lt_of_reaches hi hl.inside
  have hright : H.length ≤ H.length + m + i := by omega
  have hidx : H.length + m + i - H.length = m + i := by omega
  show (H ++ H.map _)[H.length + m + i]? = _
  rw [List.getElem?_append_right hright, hidx, List.getElem?_map, hcopy i hi, Option.map_map]
  congr 1
  funext o
  exact o.mapVals_mapVals fun v => shift_shift _ _ v

/-! ### The merge as it stands -/

def cpus : Key := (name "cpus").key

variable (doc) in
/-- A node whose number of CPUs was set to `v`. -/
structure NodeSet (node v : Val) (H : Heap) (node' : Val) : Prop where
  nodeLoose : doc.Loose node
  loose : doc.Loose v
  set : ∃ i e, node' = .ref i ∧ 2 * doc.heap.length ≤ i ∧ H[i]? = some (.dict e) ∧
    (∃ w, e.value cpus = some w ∧ doc.Copied v H w) ∧
    ∀ k, k ≠ cpus → e.value k = ((doc.heap.dictOf node).bind (·.value k)).map (Val.shift doc.heap.length)

variable (doc) in
/-- The nodes, where some nodes' CPUs were set. -/
def NodesStand (set : Key → Option Val) (H : Heap) : Obj → Obj → Prop
  | .dict d, o' => ∃ d', o' = .dict d' ∧
      (∀ k, set k = none → d'.value k = (d.value k).map (Val.shift doc.heap.length)) ∧
      ∀ k v, set k = some v → ∃ node node', d.value k = some node ∧ d'.value k = some node' ∧ doc.NodeSet node v H node'
  | o, o' => o' = o.mapVals (Val.shift doc.heap.length)

variable (doc) in
/-- The topology, where some levers were set. -/
def RootStands (set : Key → Option Val) (H : Heap) (d : Mapping) : Prop :=
  (∀ k v, set k = some v → doc.Loose v ∧ ∃ w, d.value k = some w ∧ doc.Copied v H w) ∧
    ∀ k, set k = none →
      d.value k = if k = profilesKey.key then none else (doc.mapping.value k).map (Val.shift doc.heap.length)

variable (doc) in
/-- What the heap is when these levers and these nodes' CPUs were set. -/
structure Stands (lever node : Key → Option Val) (H : Heap) : Prop where
  length : 2 * doc.heap.length ≤ H.length
  input : ∀ i < doc.heap.length, H[i]? = doc.heap[i]?
  copies : ∀ v, doc.Loose v → CopiedAt doc.heap v H doc.heap.length
  root : ∃ d, H[doc.heap.length + doc.root]? = some (.dict d) ∧ doc.RootStands lever H d
  nodes : ∀ j o, doc.nodes = some (.ref j) → doc.heap[j]? = some o →
    ∃ o', H[doc.heap.length + j]? = some o' ∧ doc.NodesStand node H o o'
  mapping : ∀ k v, node k = some v → ∃ j d, doc.nodes = some (.ref j) ∧ doc.heap[j]? = some (.dict d)

section
variable {lever node : Key → Option Val} {H H' : Heap}

theorem Stands.copied (hs : doc.Stands lever node H) {v : Val} (hl : doc.Loose v) :
    doc.Copied v H (v.shift doc.heap.length) :=
  ⟨doc.heap.length, rfl, .inl rfl, by have := hs.length; omega, hs.copies v hl⟩

theorem NodeSet.kept {n v n' : Val} (hn : doc.NodeSet n v H n') (hk : doc.Kept H H') : doc.NodeSet n v H' n' := by
  obtain ⟨hnode, hl, i, e, rfl, hi, he, ⟨w, hw, hc⟩, hrest⟩ := hn
  refine ⟨hnode, hl, i, e, rfl, hi, ?_, ⟨w, hw, hc.kept hl hk⟩, hrest⟩
  have hroot := doc.root_lt
  have hlt : i < H.length := (List.getElem?_eq_some_iff.mp he).1
  rw [hk.get i hlt (by omega) fun j hj => by have := nodes_lt hj; omega, he]

theorem NodesStand.kept {o o' : Obj} (hn : doc.NodesStand node H o o') (hk : doc.Kept H H') :
    doc.NodesStand node H' o o' := by
  cases o with
  | dict d =>
    obtain ⟨d', rfl, hnone, hsome⟩ := hn
    refine ⟨d', rfl, hnone, fun k v hv => ?_⟩
    obtain ⟨n, n', hn, hn', hset⟩ := hsome k v hv
    exact ⟨n, n', hn, hn', hset.kept hk⟩
  | list vs => exact hn
  | pairs ps => exact hn
  | set as => exact hn

theorem RootStands.kept {d : Mapping} (hr : doc.RootStands lever H d) (hk : doc.Kept H H') : doc.RootStands lever H' d := by
  refine ⟨fun k v hv => ?_, hr.2⟩
  obtain ⟨hl, w, hw, hc⟩ := hr.1 k v hv
  exact ⟨hl, w, hw, hc.kept hl hk⟩

/-- The copies and the input stay where they are. -/
theorem Stands.frame (hs : doc.Stands lever node H) (hk : doc.Kept H H') :
    2 * doc.heap.length ≤ H'.length ∧ (∀ i < doc.heap.length, H'[i]? = doc.heap[i]?) ∧
      ∀ v, doc.Loose v → CopiedAt doc.heap v H' doc.heap.length := by
  refine ⟨hs.length.trans hk.length, fun i hi => ?_, fun v hl => ?_⟩
  · have hlen := hs.length
    rw [hk.get i (by omega) (by omega) fun j _ => by omega, hs.input i hi]
  · intro i hi
    have hlt := lt_of_reaches hi hl.inside
    have hlen := hs.length
    rw [hk.get _ (by omega) ?_ ?_, hs.copies v hl i hi]
    · intro heq
      obtain rfl : i = doc.root := by omega
      exact hl.root hi
    · intro j hj heq
      obtain rfl : i = j := by omega
      exact hl.nodes i hj hi

theorem Stands.append (hs : doc.Stands lever node H) (more : Heap) : doc.Stands lever node (H ++ more) := by
  have hk : doc.Kept H (H ++ more) := kept_append H more
  obtain ⟨hlen, hinput, hcopies⟩ := hs.frame hk
  refine ⟨hlen, hinput, hcopies, ?_, fun j o hj ho => ?_, hs.mapping⟩
  · obtain ⟨d, hd, hr⟩ := hs.root
    exact ⟨d, by rw [List.getElem?_append_left (List.getElem?_eq_some_iff.mp hd).1, hd], hr.kept hk⟩
  · obtain ⟨o', ho', hn⟩ := hs.nodes j o hj ho
    exact ⟨o', by rw [List.getElem?_append_left (List.getElem?_eq_some_iff.mp ho').1, ho'], hn.kept hk⟩

theorem nodes_ne_root (hu : doc.Unaliased) {j : ℕ} (hj : doc.nodes = some (.ref j)) : j ≠ doc.root := by
  rintro rfl
  exact hu.root _ _ hj (.here _)

/-- A lever is set. -/
theorem Stands.setRoot (hu : doc.Unaliased) (hs : doc.Stands lever node H) {d : Mapping}
    (hd : H[doc.heap.length + doc.root]? = some (.dict d)) (key : Atom) {v w : Val} (hl : doc.Loose v)
    (hc : doc.Copied v H w) :
    doc.Stands (Function.update lever key.key (some v)) node
      (H.set (doc.heap.length + doc.root) (.dict (d.assign key w))) := by
  have hk : doc.Kept H _ := kept_set_root H (.dict (d.assign key w))
  have hlt := (List.getElem?_eq_some_iff.mp hd).1
  obtain ⟨hlen, hinput, hcopies⟩ := hs.frame hk
  refine ⟨hlen, hinput, hcopies, ⟨_, List.getElem?_set_self hlt, ?_, ?_⟩, fun j o hj ho => ?_, hs.mapping⟩
  · obtain ⟨d₀, hd₀, hr⟩ := hs.root
    obtain rfl : d = d₀ := by simpa [hd] using hd₀
    intro k v' hv'
    rw [Function.update_apply] at hv'
    rw [Mapping.value_assign]
    by_cases hkey : k = key.key
    · rw [if_pos hkey] at hv' ⊢
      obtain rfl : v = v' := Option.some.inj hv'
      exact ⟨hl, w, rfl, hc.kept hl hk⟩
    · rw [if_neg hkey] at hv' ⊢
      obtain ⟨hl', w', hw', hc'⟩ := hr.1 k v' hv'
      exact ⟨hl', w', hw', hc'.kept hl' hk⟩
  · obtain ⟨d₀, hd₀, hr⟩ := hs.root
    obtain rfl : d = d₀ := by simpa [hd] using hd₀
    intro k hnone
    rw [Function.update_apply] at hnone
    rw [Mapping.value_assign]
    by_cases hkey : k = key.key
    · rw [if_pos hkey] at hnone
      cases hnone
    · rw [if_neg hkey] at hnone ⊢
      exact hr.2 k hnone
  · obtain ⟨o', ho', hn⟩ := hs.nodes j o hj ho
    have hne := nodes_ne_root hu hj
    refine ⟨o', ?_, hn.kept hk⟩
    rw [List.getElem?_set_ne (by omega), ho']

/-- A node's CPUs are set, in a mapping of its own. -/
theorem Stands.setNode (hu : doc.Unaliased) (hs : doc.Stands lever node H) {j : ℕ} {d d' : Mapping}
    (hj : doc.nodes = some (.ref j)) (hd : doc.heap[j]? = some (.dict d))
    (hd' : H[doc.heap.length + j]? = some (.dict d')) {name : Atom} {v n n' : Val} (hn : d.value name.key = some n)
    (hset : doc.NodeSet n v H n') :
    doc.Stands lever (Function.update node name.key (some v))
      (H.set (doc.heap.length + j) (.dict (d'.assign name n'))) := by
  have hk : doc.Kept H _ := kept_set_nodes H (.dict (d'.assign name n')) hj
  have hlt := (List.getElem?_eq_some_iff.mp hd').1
  have hne := nodes_ne_root hu hj
  obtain ⟨hlen, hinput, hcopies⟩ := hs.frame hk
  refine ⟨hlen, hinput, hcopies, ?_, fun j' o hj' ho => ?_, fun _ _ _ => ⟨j, d, hj, hd⟩⟩
  · obtain ⟨dr, hdr, hr⟩ := hs.root
    exact ⟨dr, by rw [List.getElem?_set_ne (by omega), hdr], hr.kept hk⟩
  obtain rfl : j = j' := by simpa [hj] using hj'
  obtain rfl : o = .dict d := by simpa [hd] using ho.symm
  obtain ⟨o', ho', d₀, rfl, hnone, hsome⟩ := hs.nodes j _ hj hd
  obtain rfl : d' = d₀ := by simpa [hd'] using ho'
  refine ⟨_, List.getElem?_set_self hlt, _, rfl, fun k hknone => ?_, fun k v' hv' => ?_⟩
  · rw [Function.update_apply] at hknone
    rw [Mapping.value_assign]
    by_cases hkey : k = name.key
    · rw [if_pos hkey] at hknone
      cases hknone
    · rw [if_neg hkey] at hknone ⊢
      exact hnone k hknone
  · rw [Function.update_apply] at hv'
    rw [Mapping.value_assign]
    by_cases hkey : k = name.key
    · rw [if_pos hkey] at hv' ⊢
      obtain rfl : v = v' := Option.some.inj hv'
      exact ⟨n, n', hkey ▸ hn, rfl, hset.kept hk⟩
    · rw [if_neg hkey] at hv' ⊢
      obtain ⟨m, m', hm, hm', hset'⟩ := hsome k v' hv'
      exact ⟨m, m', hm, hm', hset'.kept hk⟩

end

end Document

end Profile
end Lab
end MqResiliency
