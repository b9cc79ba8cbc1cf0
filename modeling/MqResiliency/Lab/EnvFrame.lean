/-
# A profile changes only its levers

What `effective` returns is the topology without its profiles in which the
selected profile's levers have the profile's values, and all else is equal
(`Merged`). It is what the merge returns when it accepts the profile; the only
exception is `ValueError` if each item fits what it is merged on
(`effective_meets`).
-/
import MqResiliency.Lab.EnvProfileLaw

namespace MqResiliency
namespace Lab
namespace Profile

open Py

namespace Document

variable {doc : Document}

/-! ### What is returned -/

variable (doc) in
/-- The nodes, with the CPUs that a profile gives to some of them. -/
structure MergedNodes (profile : Mapping) (H : Heap) (base merged : Mapping) : Prop where
  others : ∀ k, cpusIn doc.heap profile k = none → SameItem doc.heap (base.value k) H (merged.value k)
  given : ∀ k v, cpusIn doc.heap profile k = some v → ∃ node e, base.value k = some node ∧
    (merged.value k).bind H.dictOf = some e ∧ SameItem doc.heap (some v) H (e.value cpus) ∧
    ∀ k', k' ≠ cpus → SameItem doc.heap ((doc.heap.dictOf node).bind (·.value k')) H (e.value k')

variable (doc) in
/-- The topology without profiles, with the levers of one. -/
structure Merged (profile : Mapping) (H : Heap) (d : Mapping) : Prop where
  profiles : d.value profilesKey.key = none
  levers : ∀ k v, leverIn profile k = some v → SameItem doc.heap (some v) H (d.value k)
  others : ∀ k, k ≠ profilesKey.key → k ≠ nodesKey.key → leverIn profile k = none →
    SameItem doc.heap (doc.mapping.value k) H (d.value k)
  nodes : (∀ k, cpusIn doc.heap profile k = none) → SameItem doc.heap doc.nodes H (d.value nodesKey.key)
  givenNodes : (∃ k, cpusIn doc.heap profile k ≠ none) → ∃ base merged, doc.nodes.bind doc.heap.dictOf = some base ∧
    (d.value nodesKey.key).bind H.dictOf = some merged ∧ doc.MergedNodes profile H base merged

variable (doc) in
/-- Raised `ValueError`, or returned the topology with the levers; the input is as it was. -/
def Returns (selected : Str) : Prop :=
  match effective doc.heap doc.root selected with
  | .error (e, H) => (∃ message, e = .value message) ∧ doc.InputKept H
  | .ok (out, H) => doc.InputKept H ∧ ∃ d, H.dictOf out = some d ∧ doc.Merged (doc.profileOf selected) H d

/-- Two topologies of the same objects that differ in other profiles than the
selected one. -/
structure Twins (doc doc' : Document) (selected : Str) : Prop where
  heap : doc'.heap = doc.heap
  others : ∀ k, k ≠ profilesKey.key → doc'.mapping.value k = doc.mapping.value k
  profiles : ∃ d d', doc.profiles = .ok d ∧ doc'.profiles = .ok d' ∧ (∀ a ∈ d.keys, isIn a knownEnvs) ∧
    (∀ a ∈ d'.keys, isIn a knownEnvs) ∧ d'.value (.str selected) = d.value (.str selected)

/-- The same exception, or equal topologies. -/
def SameResult (doc doc' : Document) (selected : Str) : Prop :=
  match effective doc.heap doc.root selected, effective doc'.heap doc'.root selected with
  | .ok (out, H), .ok (out', H') => Same H out H' out'
  | .error (e, _), .error (e', _) => e = e'
  | _, _ => False

variable (doc) in
/-- A profile changes only its levers, and only the selected one does. -/
def Meets (selected : Str) : Prop :=
  doc.Returns selected ∧ ∀ doc' : Document, doc'.Unaliased → Twins doc doc' selected → SameResult doc doc' selected

variable (doc) in
/-- Up to the first item of the profile that a `ValueError` rejects, each fits
what it is merged on, and unknown keys of profiles can be sorted. -/
def Orderly (selected : Str) : Prop := doc.verdict selected ≠ .unfit

/-! ### From the objects -/

section
variable {lever node : Key → Option Val} {H : Heap}

theorem sameItem_shift (hs : doc.Stands lever node H) {o : Option Val} (hl : ∀ v, o = some v → doc.Loose v) :
    SameItem doc.heap o H (o.map (Val.shift doc.heap.length)) := by
  cases o with
  | none => exact .none
  | some v => exact .some (same_shift (hs.copies v (hl v rfl)))

theorem loose_child (hu : doc.Unaliased) {j : ℕ} {o : Obj} (hj : doc.nodes = some (.ref j))
    (ho : doc.heap[j]? = some o) (s : Step) : ∀ v, o.child s = some v → doc.Loose v :=
  fun _ hv => .of_nodes hu hj ho hv

/-- Without CPUs that were set, the nodes are equal. -/
theorem same_nodes (hu : doc.Unaliased) (hs : doc.Stands lever (fun _ => none) H) {nodes : Val}
    (hnodes : doc.nodes = some nodes) : Same doc.heap nodes H (nodes.shift doc.heap.length) := by
  cases nodes with
  | atom a => exact same_shift fun i hi => by cases hi
  | ref j =>
    obtain ⟨o, o', ho, ho', hn⟩ := hs.getNodes hnodes
    have hsame : o.shape = o'.shape ∧ ∀ s, o'.child s = (o.child s).map (Val.shift doc.heap.length) := by
      cases o with
      | dict d =>
        obtain ⟨d', rfl, hnone, -⟩ := hn
        refine ⟨rfl, fun s => ?_⟩
        cases s with
        | key k => exact hnone k rfl
        | item i => rfl
        | fst i => rfl
        | snd i => rfl
      | list vs =>
        obtain rfl := hn
        exact ⟨(Obj.shape_mapVals _ _).symm, Obj.child_mapVals _ _⟩
      | pairs ps =>
        obtain rfl := hn
        exact ⟨(Obj.shape_mapVals _ _).symm, Obj.child_mapVals _ _⟩
      | set as =>
        obtain rfl := hn
        exact ⟨rfl, Obj.child_mapVals _ _⟩
    refine same_ref ho ho' hsame.1 fun s => ?_
    rw [hsame.2]
    exact sameItem_shift hs (loose_child hu hnodes ho s)

theorem mergedNodes_of_stands (hu : doc.Unaliased) {profile : Mapping}
    (hs : doc.Stands lever (cpusIn doc.heap profile) H) {j : ℕ} {d : Mapping} (hj : doc.nodes = some (.ref j))
    (hd : doc.heap[j]? = some (.dict d)) :
    ∃ d', H[doc.heap.length + j]? = some (.dict d') ∧ doc.MergedNodes profile H d d' := by
  obtain ⟨o', ho', d', rfl, hnone, hsome⟩ := hs.nodes j _ hj hd
  refine ⟨d', ho', fun k hk => ?_, fun k v hv => ?_⟩
  · rw [hnone k hk]
    exact sameItem_shift hs (loose_child hu hj hd (.key k))
  · obtain ⟨node, node', hnode, hnode', hnl, hl, i, e, rfl, -, he, ⟨w, hw, hc⟩, hrest⟩ := hsome k v hv
    refine ⟨node, e, hnode, by rw [hnode']; simp [Heap.dictOf, he], by rw [hw]; exact .some hc.same, fun k' hk' => ?_⟩
    rw [hrest k' hk']
    refine sameItem_shift hs fun v' hv' => ?_
    obtain ⟨dn, hdn, hv'⟩ := Option.bind_eq_some_iff.mp hv'
    exact hnl.get_mapping hdn hv'

theorem merged_of_stands (hu : doc.Unaliased) {profile : Mapping}
    (hs : doc.Stands (leverIn profile) (cpusIn doc.heap profile) H) :
    ∃ d, H.dictOf (.ref (doc.heap.length + doc.root)) = some d ∧ doc.Merged profile H d := by
  obtain ⟨d, hd, hsome, hnone⟩ := hs.root
  have hnodes : d.value nodesKey.key = doc.nodes.map (Val.shift doc.heap.length) := by
    rw [hnone _ (if_neg (by decide)), if_neg (by decide)]
    rfl
  refine ⟨d, by simp [Heap.dictOf, hd], ?_, fun k v hv => ?_, fun k hp hk hl => ?_, fun hno => ?_, fun ⟨k, hk⟩ => ?_⟩
  · rw [hnone _ (if_neg (by decide)), if_pos rfl]
  · obtain ⟨-, w, hw, hc⟩ := hsome k v hv
    rw [hw]
    exact .some hc.same
  · rw [hnone k hl, if_neg hp]
    exact sameItem_shift hs fun v hv => .of_value hu hv hk
  · rw [hnodes]
    cases hn : doc.nodes with
    | none => exact .none
    | some nodes =>
      have hfun : cpusIn doc.heap profile = fun _ => none := funext hno
      exact .some (same_nodes hu (hfun ▸ hs) hn)
  · obtain ⟨v, hv⟩ := Option.ne_none_iff_exists'.mp hk
    obtain ⟨j, base, hj, hbase⟩ := hs.mapping k v hv
    obtain ⟨merged, hmerged, hm⟩ := mergedNodes_of_stands hu hs hj hbase
    refine ⟨base, merged, ?_, ?_, hm⟩
    · rw [hj]
      simp [Heap.dictOf, hbase]
    · rw [hnodes, hj]
      simp [Heap.dictOf, Val.shift, hmerged]

end

/-! ### Other profiles -/

section
variable {doc' : Document} {selected : Str}

theorem checkKnown_of_known {d : Mapping} (h : ∀ a ∈ d.keys, isIn a knownEnvs) : checkKnown d = .ok () := by
  have hno : (d.keys.filter fun a => !isIn a knownEnvs) = [] := List.filter_eq_nil_iff.mpr fun a ha => by simp [h a ha]
  unfold checkKnown
  rw [hno]
  rfl

theorem Twins.verdict (ht : Twins doc doc' selected) : doc'.verdict selected = doc.verdict selected := by
  obtain ⟨d, d', hd, hd', hknown, hknown', hsel⟩ := ht.profiles
  have hnodes : doc'.nodes = doc.nodes := ht.others _ (by decide)
  have hselect : select d' selected = select d selected := by
    unfold select
    rw [hsel]
  unfold Document.verdict
  rw [hd, hd']
  show verdictOf (checkKnown d') _ = verdictOf (checkKnown d) _
  rw [checkKnown_of_known hknown, checkKnown_of_known hknown', hselect, ht.heap, hnodes]

theorem Twins.profileOf (ht : Twins doc doc' selected) : doc'.profileOf selected = doc.profileOf selected := by
  obtain ⟨d, d', hd, hd', -, -, hsel⟩ := ht.profiles
  unfold Document.profileOf
  rw [← value_profiles hd, ← value_profiles hd', hsel, ht.heap]

theorem MergedNodes.same {profile : Mapping} {H H' : Heap} {base merged merged' : Mapping} (hh : doc'.heap = doc.heap)
    (hm : doc.MergedNodes profile H base merged) (hm' : doc'.MergedNodes profile H' base merged') (k : Key) :
    SameItem H (merged.value k) H' (merged'.value k) := by
  obtain ⟨hothers, hgiven⟩ := hm
  obtain ⟨hothers', hgiven'⟩ := hm'
  rw [hh] at hothers' hgiven'
  cases hk : cpusIn doc.heap profile k with
  | none => exact (hothers k hk).symm.trans (hothers' k hk)
  | some v =>
    obtain ⟨node, e, hnode, he, hcpus, hrest⟩ := hgiven k v hk
    obtain ⟨node', e', hnode', he', hcpus', hrest'⟩ := hgiven' k v hk
    obtain rfl : node = node' := by simpa [hnode] using hnode'
    obtain ⟨w, hw, hdict⟩ := Option.bind_eq_some_iff.mp he
    obtain ⟨w', hw', hdict'⟩ := Option.bind_eq_some_iff.mp he'
    rw [hw, hw']
    refine .some (same_dict hdict hdict' fun k' => ?_)
    by_cases hc : k' = cpus
    · rw [hc]
      exact hcpus.symm.trans hcpus'
    · exact (hrest k' hc).symm.trans (hrest' k' hc)

theorem Merged.same {profile : Mapping} {H H' : Heap} {d d' : Mapping} (hh : doc'.heap = doc.heap)
    (hothers : ∀ k, k ≠ profilesKey.key → doc'.mapping.value k = doc.mapping.value k) (hm : doc.Merged profile H d)
    (hm' : doc'.Merged profile H' d') (k : Key) : SameItem H (d.value k) H' (d'.value k) := by
  obtain ⟨hp, hl, ho, hn, hg⟩ := hm
  obtain ⟨hp', hl', ho', hn', hg'⟩ := hm'
  have hnodes : doc'.nodes = doc.nodes := hothers _ (by decide)
  have hmerge := @MergedNodes.same doc doc' profile H H'
  rw [hh] at hl' ho' hn' hg'
  rw [hnodes] at hn' hg'
  by_cases hprofiles : k = profilesKey.key
  · rw [hprofiles, hp, hp']
    exact .none
  cases hlever : leverIn profile k with
  | some v => exact (hl k v hlever).symm.trans (hl' k v hlever)
  | none =>
    by_cases hk : k = nodesKey.key
    · rw [hk]
      by_cases hno : ∀ name, cpusIn doc.heap profile name = none
      · exact (hn hno).symm.trans (hn' hno)
      · have hsome : ∃ name, cpusIn doc.heap profile name ≠ none := not_forall.mp hno
        obtain ⟨base, merged, hbase, hmerged, hm⟩ := hg hsome
        obtain ⟨base', merged', hbase', hmerged', hm'⟩ := hg' hsome
        obtain rfl : base = base' := by simpa [hbase] using hbase'
        obtain ⟨w, hw, hdict⟩ := Option.bind_eq_some_iff.mp hmerged
        obtain ⟨w', hw', hdict'⟩ := Option.bind_eq_some_iff.mp hmerged'
        rw [hw, hw']
        exact .some (same_dict hdict hdict' (hmerge hh hm hm'))
    · have hsame := ho' k hprofiles hk hlever
      rw [hothers k hprofiles] at hsame
      exact (ho k hprofiles hk hlever).symm.trans hsame

/-- Where the profile is orderly, the other ones change nothing. -/
theorem Twins.sameResult (hu : doc.Unaliased) (hu' : doc'.Unaliased) (ht : Twins doc doc' selected)
    (ho : doc.Orderly selected) : SameResult doc doc' selected := by
  have hj := judges_effective hu selected
  have hj' := judges_effective hu' selected
  rw [ht.verdict, ht.profileOf] at hj'
  unfold SameResult
  unfold Orderly at ho
  cases hv : doc.verdict selected with
  | accepted =>
    rw [hv] at hj hj'
    obtain ⟨⟨out, H⟩, hr, rfl, hs⟩ := hj
    obtain ⟨⟨out', H'⟩, hr', rfl, hs'⟩ := hj'
    obtain ⟨d, hd, hm⟩ := merged_of_stands hu hs
    obtain ⟨d', hd', hm'⟩ := merged_of_stands hu' hs'
    rw [hr, hr']
    exact same_dict hd hd' (Merged.same ht.heap ht.others hm hm')
  | rejected message =>
    rw [hv] at hj hj'
    obtain ⟨H, hr, -⟩ := hj
    obtain ⟨H', hr', -⟩ := hj'
    rw [hr, hr', ht.heap]
  | unfit => exact absurd hv ho

end

/-! ### Topologies as they are loaded -/

/-- The values that an object holds. -/
def vals : Obj → List Val
  | .list vs => vs
  | .pairs ps => ps.map Prod.fst ++ ps.map Prod.snd
  | .set _ => []
  | .dict d => d.dict.values.map Prod.snd

theorem mem_vals {o : Obj} {s : Step} {v : Val} (h : o.child s = some v) : v ∈ vals o := by
  cases o with
  | list vs =>
    cases s with
    | item i => exact List.mem_of_getElem? h
    | _ => cases h
  | pairs ps =>
    cases s with
    | fst i =>
      obtain ⟨p, hp, rfl⟩ := Option.map_eq_some_iff.mp h
      exact List.mem_append_left _ (List.mem_map_of_mem (List.mem_of_getElem? hp))
    | snd i =>
      obtain ⟨p, hp, rfl⟩ := Option.map_eq_some_iff.mp h
      exact List.mem_append_right _ (List.mem_map_of_mem (List.mem_of_getElem? hp))
    | _ => cases h
  | set as => cases s <;> cases h
  | dict d =>
    cases s with
    | key k =>
      obtain ⟨p, hp, rfl⟩ := Option.map_eq_some_iff.mp h
      exact List.mem_map_of_mem (List.mem_map_of_mem (f := Prod.snd) (Dict.get?_eq_some.mp hp))
    | _ => cases h

/-- A reference leads on, and to an object that there is. -/
def leadsOn (h : Heap) (i : ℕ) : Val → Bool
  | .atom _ => true
  | .ref j => i < j ∧ j < h.length

/-- Each object stands behind those that hold it. -/
def inOrder (h : Heap) : Bool := (List.range h.length).all fun i => h[i]?.all fun o => (vals o).all (leadsOn h i)

theorem leadsOn_child {h : Heap} (ho : inOrder h) {i j : ℕ} {o : Obj} {s : Step} (hi : h[i]? = some o)
    (hj : o.child s = some (.ref j)) : i < j ∧ j < h.length := by
  have hlt : i < h.length := (List.getElem?_eq_some_iff.mp hi).1
  have hall := List.all_eq_true.mp ho i (List.mem_range.mpr hlt)
  rw [hi] at hall
  simpa [leadsOn] using List.all_eq_true.mp hall _ (mem_vals hj)

theorem le_of_reaches {h : Heap} (ho : inOrder h) {v : Val} {j : ℕ} (hr : h.Reaches v j) : ∀ i, v = .ref i → i ≤ j := by
  induction hr with
  | here i =>
    intro i' hi'
    cases hi'
    exact le_rfl
  | step hi hv hr ih =>
    intro i' hi'
    cases hi'
    cases hr with
    | here j => exact (leadsOn_child ho hi hv).1.le
    | step hj hw hr' => exact (leadsOn_child ho hi hv).1.le.trans (ih _ rfl)

/-- A topology that was loaded in order, its nodes first, has no alias to them. -/
theorem unaliased_of_inOrder (ho : inOrder doc.heap)
    (hfirst : ∀ j k i, doc.nodes = some (.ref j) → k ≠ nodesKey.key → doc.mapping.value k = some (.ref i) → j < i) :
    doc.Unaliased where
  root k v hv hr := by
    cases v with
    | atom a => cases hr
    | ref i =>
      have hlt := (leadsOn_child ho doc.isRoot (s := .key k) hv).1
      have hle := le_of_reaches ho hr i rfl
      omega
  nodes j k v hj hv hr := by
    by_contra hk
    cases v with
    | atom a => cases hr
    | ref i =>
      have hlt := hfirst j k i hj hk hv
      have hle := le_of_reaches ho hr i rfl
      omega
  within j o s v _ hjo hv hr := by
    cases v with
    | atom a => cases hr
    | ref i =>
      have hlt := (leadsOn_child ho hjo hv).1
      have hle := le_of_reaches ho hr i rfl
      omega

theorem closed_of_inOrder {h : Heap} (ho : inOrder h) (i : ℕ) (o : Obj) (s : Step) (j : ℕ) (hi : h[i]? = some o)
    (hj : o.child s = some (.ref j)) : j < h.length :=
  (leadsOn_child ho hi hj).2

/-- The mapping of these items. -/
def mappingOf (items : List (Atom × Val)) : Mapping := items.foldl (fun d p => d.assign p.1 p.2) .empty

/-! ### The merge -/

theorem returns_of_orderly (hu : doc.Unaliased) {selected : Str} (ho : doc.Orderly selected) : doc.Returns selected := by
  have hj := judges_effective hu selected
  unfold Returns
  unfold Orderly at ho
  cases hv : doc.verdict selected with
  | accepted =>
    rw [hv] at hj
    obtain ⟨⟨out, H⟩, hr, rfl, hs⟩ := hj
    rw [hr]
    exact ⟨hs.input, merged_of_stands hu hs⟩
  | rejected message =>
    rw [hv] at hj
    obtain ⟨H, hr, hkept⟩ := hj
    rw [hr]
    exact ⟨⟨_, rfl⟩, hkept⟩
  | unfit => exact absurd hv ho

/-- What does not fit raises no `ValueError`. -/
theorem orderly_of_returns (hu : doc.Unaliased) (hlist : doc.NotList) {selected : Str} (hr : doc.Returns selected) :
    doc.Orderly selected := by
  intro hv
  have hj := judges_effective hu selected
  rw [hv] at hj
  obtain ⟨e, H, herr, hne⟩ := hj hlist
  unfold Returns at hr
  rw [herr] at hr
  obtain ⟨⟨message, he⟩, -⟩ := hr
  exact hne message he

/-- A profile that sets the boot batch, and the CPUs of a node. -/
def tuned : Document where
  heap := [.dict (mappingOf [(nodesKey, .ref 1), (profilesKey, .ref 3)]),
    .dict (mappingOf [(name "qm1", .ref 2)]),
    .dict (mappingOf [(name "cpus", .atom (.int 2)), (name "box", .atom (name "mq"))]),
    .dict (mappingOf [(name "macos", .ref 4), (name "cloud", .atom .null)]),
    .dict (mappingOf [(name "boot_batch", .atom (.int 1)), (nodesKey, .ref 5)]),
    .dict (mappingOf [(name "qm1", .ref 6)]),
    .dict (mappingOf [(name "cpus", .atom (.int 3))])]
  root := 0
  mapping := mappingOf [(nodesKey, .ref 1), (profilesKey, .ref 3)]
  isRoot := rfl
  closed := closed_of_inOrder (by decide)

theorem unaliased_tuned : tuned.Unaliased := by
  refine unaliased_of_inOrder (by decide) fun j k i hj hk hv => ?_
  obtain rfl : 1 = j := by
    cases hj
    rfl
  have hvalue : ((Mapping.empty.assign nodesKey (.ref 1)).assign profilesKey (.ref 3)).value k = some (.ref i) := hv
  rw [Mapping.value_assign, Mapping.value_assign, if_neg hk] at hvalue
  split at hvalue
  · cases hvalue
    decide
  · cases hvalue

/-- Profiles with two unknown keys, a text and a number. -/
def mixedKeys : Document where
  heap := [.dict (mappingOf [(profilesKey, .ref 1)]), .dict (mappingOf [(name "x", .atom .null), (.int 1, .atom .null)])]
  root := 0
  mapping := mappingOf [(profilesKey, .ref 1)]
  isRoot := rfl
  closed := closed_of_inOrder (by decide)

/-- A topology with an alias to its nodes, and a profile for a node's CPUs. -/
def aliased : Document where
  heap := [.dict (mappingOf [(nodesKey, .ref 1), (name "backup", .ref 1), (profilesKey, .ref 3)]),
    .dict (mappingOf [(name "qm1", .ref 2)]),
    .dict (mappingOf [(name "cpus", .atom (.int 2))]),
    .dict (mappingOf [(name "macos", .ref 4)]),
    .dict (mappingOf [(nodesKey, .ref 5)]),
    .dict (mappingOf [(name "qm1", .ref 6)]),
    .dict (mappingOf [(name "cpus", .atom (.int 3))])]
  root := 0
  mapping := mappingOf [(nodesKey, .ref 1), (name "backup", .ref 1), (profilesKey, .ref 3)]
  isRoot := rfl
  closed := closed_of_inOrder (by decide)

end Document
end Profile
end Lab
end MqResiliency
