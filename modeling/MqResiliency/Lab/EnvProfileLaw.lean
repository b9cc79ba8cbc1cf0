/-
# What a profile's merge does

A verdict tells of each item of a profile, from the input alone, whether it is
merged, raises a `ValueError`, or does not fit what it is merged on. The merge
does as the first verdict says that is not acceptance (`judges_effective`).
-/
import MqResiliency.Lab.EnvDocument

namespace MqResiliency
namespace Lab
namespace Profile

open Py

/-! ### What a profile gives -/

/-- What becomes of a piece of the profile: it is merged, a `ValueError` says
why not, or it does not fit what it is merged on. -/
inductive Verdict : Type where
  | accepted
  | rejected (message : List Part)
  | unfit

/-- The first that is not accepted. -/
def Verdict.first : List Verdict → Verdict
  | [] => accepted
  | accepted :: vs => first vs
  | v :: _ => v

def Part.shift (n : ℕ) : Part → Part
  | repr v => repr (v.shift n)
  | part => part

/-- The exception of a copy. -/
def Raised.shift (n : ℕ) : Raised → Raised
  | value message => value (message.map (Part.shift n))
  | e => e

section
variable (h : Heap)

/-- The node is missing, empty or a mapping, in a mapping of nodes. -/
def takesLevers (nodes : Val) (name : Atom) : Bool :=
  match (h.dictOf nodes).bind (·.value name.key) with
  | some node => h.truthy node = false ∨ (h.dictOf node).isSome
  | none => false

def leverVerdict (nodes : Val) (whr : Str) (name key : Atom) : Verdict :=
  if isIn key nodeLevers then if takesLevers h nodes name then .accepted else .unfit
  else .rejected (notANodeLever whr name key)

def nodeVerdict (nodes : Val) (whr : Str) (name : Atom) (nodeOver : Val) : Verdict :=
  match contains h nodes name with
  | .error (.value message) => .rejected message
  | .error _ => .unfit
  | .ok false => .rejected (unknownNode whr name)
  | .ok true => match h.dictOf nodeOver with
    | none => .rejected (notMapping [.text whr, .text ".nodes.".toList, .shown name] nodeOver)
    | some d => .first (d.keys.map (leverVerdict h nodes whr name))

def nodesVerdict (nodes : Option Val) (whr : Str) (overrides : Val) : Verdict :=
  match h.dictOf overrides with
  | none => .rejected (notMapping [.text whr, .text ".nodes".toList] overrides)
  | some d => match nodes with
    | some nodes => .first (d.keys.map fun name => nodeVerdict h nodes whr name (item h overrides name))
    | none => match d.keys with
      | [] => .accepted
      | name :: _ => .rejected (unknownNode whr name)

/-- Of a lever with a closed set of values. -/
def valueVerdict (whr : Str) (key : Atom) (value : Val) (allowed : List Atom) : Verdict :=
  match isAllowed h value allowed with
  | .ok true => .accepted
  | .ok false => .rejected (notAllowed whr key allowed value)
  | .error _ => .unfit

def itemVerdict (nodes : Option Val) (whr : Str) (key : Atom) (value : Val) : Verdict :=
  if key.key = nodesKey.key then nodesVerdict h (nodes.filter h.truthy) whr value
  else if isIn key topLevelLevers then (leverValues key).elim .accepted (valueVerdict h whr key value)
  else .rejected (notALever whr key)

def profileVerdict (nodes : Option Val) (env : Str) (profile : Val) : Verdict :=
  if h.truthy profile then match h.dictOf profile with
    | none => .rejected (notMapping [.text ("env_profiles.".toList ++ env)] profile)
    | some d => .first (d.keys.map fun key => itemVerdict h nodes ("env_profiles.".toList ++ env) key (item h profile key))
  else .accepted

end

/-- A run did as the verdict says: `I` of what it returned, `K` of the heap when
it raised. What does not fit raises another exception, if `strict`. -/
def Judges {β : Type} (n : ℕ) (strict : Prop) (I : β → Prop) (K : Heap → Prop) : Verdict → Run β → Prop
  | .accepted, r => ∃ H, r = .ok H ∧ I H
  | .rejected message, r => ∃ H, r = .error (.value (message.map (Part.shift n)), H) ∧ K H
  | .unfit, r => strict → ∃ e H, r = .error (e, H) ∧ ∀ message, e ≠ .value message

/-- A loop does as the first verdict says that is not acceptance. -/
theorem judges_foldlM {α : Type} {n : ℕ} {strict : Prop} {K : Heap → Prop} {f : Heap → α → Run Heap}
    {verdict : α → Verdict} (I : List α → Heap → Prop) : ∀ (as done : List α),
    (∀ pre a post H, as = pre ++ a :: post → I (done ++ pre) H → Judges n strict (I (done ++ pre ++ [a])) K (verdict a) (f H a)) →
    ∀ H, I done H → Judges n strict (I (done ++ as)) K (.first (as.map verdict)) (as.foldlM f H)
  | [], done, _, H, hI => ⟨H, rfl, by simpa using hI⟩
  | a :: as, done, hstep, H, hI => by
    have hfirst := hstep [] a as H rfl (by simpa using hI)
    rw [List.append_nil] at hfirst
    rw [List.map_cons, List.foldlM_cons]
    cases hv : verdict a with
    | accepted =>
      rw [hv] at hfirst
      obtain ⟨H', hok, hI'⟩ := hfirst
      rw [hok]
      have hrest := judges_foldlM I as (done ++ [a]) (fun pre b post H'' heq hI'' => by
        have := hstep (a :: pre) b post H'' (by rw [heq]; rfl) (by simpa using hI'')
        simpa using this) H' hI'
      show Judges n strict (I (done ++ a :: as)) K (.first (as.map verdict)) (as.foldlM f H')
      simpa using hrest
    | rejected message =>
      rw [hv] at hfirst
      obtain ⟨H', herr, hK⟩ := hfirst
      rw [herr]
      exact ⟨H', rfl, hK⟩
    | unfit =>
      rw [hv] at hfirst
      intro hstrict
      obtain ⟨e, H', herr, hne⟩ := hfirst hstrict
      rw [herr]
      exact ⟨e, H', rfl, hne⟩

theorem Judges.mono {β : Type} {n : ℕ} {strict : Prop} {I I' : β → Prop} {K : Heap → Prop} {v : Verdict} {r : Run β}
    (hj : Judges n strict I K v r) (h : ∀ x, I x → I' x) : Judges n strict I' K v r := by
  cases v with
  | accepted =>
    obtain ⟨x, hr, hI⟩ := hj
    exact ⟨x, hr, h x hI⟩
  | rejected message => exact hj
  | unfit => exact hj

theorem Judges.bind_ok {β γ : Type} {n : ℕ} {strict : Prop} {I : β → Prop} {I' : γ → Prop} {K : Heap → Prop} {v : Verdict}
    {r : Run β} {f : β → γ} (hj : Judges n strict I K v r) (h : ∀ x, I x → I' (f x)) :
    Judges n strict I' K v (r.bind fun x => .ok (f x)) := by
  cases v with
  | accepted =>
    obtain ⟨x, rfl, hI⟩ := hj
    exact ⟨f x, rfl, h x hI⟩
  | rejected message =>
    obtain ⟨H, rfl, hK⟩ := hj
    exact ⟨H, rfl, hK⟩
  | unfit =>
    intro hstrict
    obtain ⟨e, H, rfl, hne⟩ := hj hstrict
    exact ⟨e, H, rfl, hne⟩

namespace Document

variable {doc : Document} {lever node : Key → Option Val} {H : Heap}

/-! ### Reading the copies -/

theorem item_copy (hs : doc.Stands lever node H) {v : Val} (hl : doc.Loose v) (key : Atom) :
    item H (v.shift doc.heap.length) key = (item doc.heap v key).shift doc.heap.length := by
  unfold item
  rw [(hs.copies v hl).dictOf]
  cases doc.heap.dictOf v with
  | none => rfl
  | some d =>
    rw [Option.map_some, Option.bind_some, Option.bind_some, Mapping.value_mapVals]
    cases d.value key.key <;> rfl

theorem Loose.item {v : Val} (hl : doc.Loose v) (key : Atom) : doc.Loose (item doc.heap v key) := by
  unfold Profile.item
  cases hd : doc.heap.dictOf v with
  | none => exact atom _
  | some d =>
    cases hw : d.value key.key with
    | none =>
      rw [Option.bind_some, hw]
      exact atom _
    | some w =>
      rw [Option.bind_some, hw]
      exact hl.get_mapping hd hw

theorem any_equals_map (name : Atom) (n : ℕ) (vs : List Val) :
    (vs.map (Val.shift n)).any (equals name) = vs.any (equals name) := by
  rw [List.any_map]
  congr 1
  funext v
  cases v <;> rfl

/-- The nodes, as they are then. -/
theorem Stands.getNodes (hs : doc.Stands lever node H) {j : ℕ} (hj : doc.nodes = some (.ref j)) :
    ∃ o o', doc.heap[j]? = some o ∧ H[doc.heap.length + j]? = some o' ∧ doc.NodesStand node H o o' := by
  obtain ⟨o, ho⟩ : ∃ o, doc.heap[j]? = some o := ⟨_, List.getElem?_eq_getElem (nodes_lt hj)⟩
  obtain ⟨o', ho', hn⟩ := hs.nodes j o hj ho
  exact ⟨o, o', ho, ho', hn⟩

theorem isSome_value_nodes {d d' : Mapping} (hnone : ∀ k, node k = none → d'.value k = (d.value k).map (Val.shift doc.heap.length))
    (hsome : ∀ k v, node k = some v → ∃ n n', d.value k = some n ∧ d'.value k = some n' ∧ doc.NodeSet n v H n') (k : Key) :
    (d'.value k).isSome = (d.value k).isSome := by
  cases hk : node k with
  | none => rw [hnone k hk, Option.isSome_map]
  | some v =>
    obtain ⟨n, n', hn, hn', -⟩ := hsome k v hk
    rw [hn, hn']
    rfl

/-- No node comes or goes. -/
theorem contains_nodes (hs : doc.Stands lever node H) {nodes : Val} (hnodes : doc.nodes = some nodes) (name : Atom) :
    contains H (nodes.shift doc.heap.length) name = contains doc.heap nodes name := by
  cases nodes with
  | atom a => cases a <;> rfl
  | ref j =>
    obtain ⟨o, o', ho, ho', hn⟩ := hs.getNodes hnodes
    simp only [contains, Val.shift, ho, ho']
    cases o with
    | dict d =>
      obtain ⟨d', rfl, hnone, hsome⟩ := hn
      exact congrArg Except.ok (isSome_value_nodes hnone hsome name.key)
    | list vs =>
      obtain rfl := hn
      exact congrArg Except.ok (any_equals_map name _ vs)
    | pairs ps =>
      obtain rfl := hn
      rfl
    | set as =>
      obtain rfl := hn
      rfl

/-! ### Levers of nodes -/

theorem takesLevers_eq_true {h : Heap} {nodes : Val} {name : Atom} : takesLevers h nodes name = true ↔
    ∃ d n, h.dictOf nodes = some d ∧ d.value name.key = some n ∧ (h.truthy n = false ∨ (h.dictOf n).isSome) := by
  unfold takesLevers
  cases hd : h.dictOf nodes with
  | none => simp
  | some d => cases hn : d.value name.key <;> simp [hn]

theorem value_of_not_truthy {h : Heap} {v : Val} {d : Mapping} (hv : h.truthy v = false) (hd : h.dictOf v = some d)
    (k : Key) : d.value k = none := by
  obtain ⟨i, rfl, ho⟩ := Heap.dictOf_eq_some.mp hd
  have hempty : d.keys = [] := by simpa [Heap.truthy, ho, Obj.truthy] using hv
  apply Option.not_isSome_iff_eq_none.mp
  rw [Mapping.value_isSome, hempty]
  simp

theorem spread_copy (hs : doc.Stands lever node H) {n : Val} (hl : doc.Loose n)
    (htake : doc.heap.truthy n = false ∨ (doc.heap.dictOf n).isSome) : ∃ base : Mapping,
    spread H (n.shift doc.heap.length) = .ok base ∧
      ∀ k, base.value k = ((doc.heap.dictOf n).bind (·.value k)).map (Val.shift doc.heap.length) := by
  unfold spread
  rw [(hs.copies n hl).truthy, (hs.copies n hl).dictOf]
  by_cases htruthy : doc.heap.truthy n
  · obtain ⟨d, hd⟩ := Option.isSome_iff_exists.mp (htake.resolve_left (by simp [htruthy]))
    rw [if_pos htruthy, hd]
    exact ⟨_, rfl, fun k => Mapping.value_mapVals _ d k⟩
  · rw [if_neg htruthy]
    refine ⟨_, rfl, fun k => ?_⟩
    cases hd : doc.heap.dictOf n with
    | none => rfl
    | some d =>
      rw [Option.bind_some, value_of_not_truthy (by simpa using htruthy) hd]
      rfl

theorem setLever_ok (hu : doc.Unaliased) (hs : doc.Stands lever node H) {j : ℕ} {d : Mapping} {name key : Atom}
    {n v : Val} (hj : doc.nodes = some (.ref j)) (hd : doc.heap[j]? = some (.dict d)) (hn : d.value name.key = some n)
    (htake : doc.heap.truthy n = false ∨ (doc.heap.dictOf n).isSome) (hfresh : node name.key = none) (hl : doc.Loose v)
    (hkey : key.key = cpus) :
    ∃ H', setLever H (.ref (doc.heap.length + j)) name key (v.shift doc.heap.length) = .ok H' ∧
      doc.Stands lever (Function.update node name.key (some v)) H' := by
  obtain ⟨o', ho', d', rfl, hnone, -⟩ := hs.nodes j _ hj hd
  have hvalue : d'.value name.key = some (n.shift doc.heap.length) := by rw [hnone _ hfresh, hn]; rfl
  have hnl : doc.Loose n := .of_nodes hu hj hd (s := .key name.key) hn
  obtain ⟨base, hbase, hrest⟩ := spread_copy hs hnl htake
  have hsub : subscript H (.ref (doc.heap.length + j)) name = .ok (n.shift doc.heap.length) := by
    simp [subscript, ho', hvalue]
  -- the copy of the value, and then the new mapping
  let copied := H.deepcopy (v.shift doc.heap.length)
  let H' : Heap := copied.1 ++ [.dict (base.assign key copied.2)]
  have hcopied : doc.Stands lever node copied.1 := hs.append _
  have hs' : doc.Stands lever node H' := hcopied.append _
  have hnodes : H'[doc.heap.length + j]? = some (.dict d') := by
    have hlt := (List.getElem?_eq_some_iff.mp ho').1
    have hlt' : doc.heap.length + j < copied.1.length := by simp [copied, Heap.deepcopy]; omega
    show (copied.1 ++ _)[doc.heap.length + j]? = _
    rw [List.getElem?_append_left hlt']
    show (H ++ _)[doc.heap.length + j]? = _
    rw [List.getElem?_append_left hlt, ho']
  have hset : doc.NodeSet n v H' (.ref copied.1.length) := by
    refine ⟨hnl, hl, _, base.assign key copied.2, rfl, hcopied.length, by simp [H'], ⟨copied.2, ?_, ?_⟩, fun k hk => ?_⟩
    · rw [Mapping.value_assign, if_pos hkey.symm]
    · exact ((hs.copied hl).deepcopy hl).kept hl (kept_append _ _)
    · rw [Mapping.value_assign, if_neg (hkey ▸ hk), hrest]
  refine ⟨_, ?_, hs'.setNode hu hj hd hnodes hn hset⟩
  have hitem : setItem H' (.ref (doc.heap.length + j)) name (.ref copied.1.length) =
      .ok (H'.set (doc.heap.length + j) (.dict (d'.assign name (.ref copied.1.length)))) := by
    simp [setItem, hnodes]
  calc setLever H (.ref (doc.heap.length + j)) name key (v.shift doc.heap.length)
      = raising H' (setItem H' (.ref (doc.heap.length + j)) name (.ref copied.1.length)) := by
        unfold setLever
        rw [hsub]
        show (raising H (spread H _)).bind _ = _
        rw [hbase]
        rfl
    _ = _ := by rw [hitem]; rfl

variable (doc) in
/-- The nodes are no list. -/
def NotList : Prop := ∀ j vs, doc.nodes = some (.ref j) → doc.heap[j]? ≠ some (.list vs)

theorem placeOf_ne_value {length : ℕ} {name : Atom} {e : Raised} (h : placeOf length name = .error e) :
    ∀ message, e ≠ .value message := by
  rintro message rfl
  unfold placeOf at h
  split at h
  · cases h
  · split at h <;> cases h

/-- Nothing but an exception comes of a lever that does not fit. -/
theorem setLever_unfit (hu : doc.Unaliased) (hs : doc.Stands lever node H) {nodes : Val} (hnodes : doc.nodes = some nodes)
    {name key : Atom} {v : Val} (hin : contains doc.heap nodes name = .ok true) (hfresh : node name.key = none)
    (htake : takesLevers doc.heap nodes name = false) (hlist : doc.NotList) :
    ∃ e H', setLever H (nodes.shift doc.heap.length) name key v = .error (e, H') ∧ ∀ message, e ≠ .value message := by
  have hraise : ∀ {e : Raised}, subscript H (nodes.shift doc.heap.length) name = .error e → (∀ message, e ≠ .value message) →
      ∃ e H', setLever H (nodes.shift doc.heap.length) name key v = .error (e, H') ∧ ∀ message, e ≠ .value message := by
    intro e he hne
    refine ⟨e, H, ?_, hne⟩
    unfold setLever
    rw [he]
    rfl
  cases nodes with
  | ref j =>
    obtain ⟨o, o', ho, ho', hn⟩ := hs.getNodes hnodes
    cases o with
    | list vs => exact absurd ho (hlist j vs hnodes)
    | pairs ps => simp [contains, ho] at hin
    | set as =>
      obtain rfl := hn
      refine hraise (e := .type) ?_ nofun
      simp [subscript, Val.shift, ho', Obj.mapVals]
    | dict d =>
      obtain ⟨d', rfl, hnone, -⟩ := hn
      obtain ⟨n, hvalue⟩ : ∃ n, d.value name.key = some n := by
        simpa [contains, ho, Option.isSome_iff_exists] using hin
      have hvalue' : d'.value name.key = some (n.shift doc.heap.length) := by rw [hnone _ hfresh, hvalue]; rfl
      have hnl : doc.Loose n := .of_nodes hu hnodes ho (s := .key name.key) hvalue
      have hdict : doc.heap.dictOf (.ref j) = some d := by simp [Heap.dictOf, ho]
      have hno : doc.heap.truthy n = true ∧ doc.heap.dictOf n = none := by
        simpa [takesLevers, hdict, hvalue] using htake
      have hspread : spread H (n.shift doc.heap.length) = .error .type := by
        unfold spread
        rw [(hs.copies n hnl).truthy, (hs.copies n hnl).dictOf, if_pos hno.1, hno.2]
        rfl
      have hsub : subscript H (.ref (doc.heap.length + j)) name = .ok (n.shift doc.heap.length) := by
        simp [subscript, ho', hvalue']
      refine ⟨.type, H, ?_, nofun⟩
      show setLever H (.ref (doc.heap.length + j)) name key v = _
      unfold setLever
      rw [hsub]
      show (raising H (spread H _)).bind _ = _
      rw [hspread]
      rfl
  | atom a =>
    cases a with
    | str t => exact hraise (e := .type) rfl nofun
    | bytes bs =>
      cases hplace : placeOf bs.length name with
      | error e =>
        refine hraise (e := e) ?_ (placeOf_ne_value hplace)
        show (placeOf bs.length name).map _ = _
        rw [hplace]
        rfl
      | ok i =>
        -- a byte is a number, and bytes take no item
        have hsub : subscript H (.atom (.bytes bs)) name = .ok (.atom (.int (bs.getD i 0))) := by
          show (placeOf bs.length name).map _ = _
          rw [hplace]
          rfl
        unfold setLever
        show ∃ e H', (raising H (subscript H (.atom (.bytes bs)) name)).bind _ = .error (e, H') ∧ _
        rw [hsub]
        by_cases htruthy : H.truthy (.atom (.int (bs.getD i 0)))
        · refine ⟨.type, H, ?_, nofun⟩
          show (raising H (spread H _)).bind _ = _
          rw [spread, if_pos htruthy]
          rfl
        · refine ⟨.type, (H.deepcopy v).1 ++ [.dict (Mapping.empty.assign key (H.deepcopy v).2)], ?_, nofun⟩
          show (raising H (spread H _)).bind _ = _
          rw [spread, if_neg htruthy]
          rfl
    | null => cases hin
    | bool b => cases hin
    | int n => cases hin
    | float x => cases hin
    | date day => cases hin
    | time aware instant => cases hin

variable (doc) in
/-- The objects of the input are what they were. -/
def InputKept (H : Heap) : Prop := ∀ i < doc.heap.length, H[i]? = doc.heap[i]?

theorem isIn_nodeLevers {key : Atom} : isIn key nodeLevers ↔ key.key = cpus := by simp [isIn, nodeLevers, cpus]

theorem judges_applyLever (hu : doc.Unaliased) (hs : doc.Stands lever node H) {nodes : Val} (hnodes : doc.nodes = some nodes)
    {name key : Atom} (hin : contains doc.heap nodes name = .ok true) (hfresh : key.key = cpus → node name.key = none)
    {nodeOver v : Val} (hover : doc.Loose nodeOver) (whr : Str) (hv : (doc.heap.dictOf nodeOver).bind (·.value key.key) = some v) :
    Judges doc.heap.length doc.NotList (doc.Stands lever (Function.update node name.key (some v))) doc.InputKept
      (leverVerdict doc.heap nodes whr name key)
      (applyLever (nodes.shift doc.heap.length) name (nodeOver.shift doc.heap.length) whr H key) := by
  unfold leverVerdict applyLever
  by_cases hkey : isIn key nodeLevers
  · rw [if_pos hkey, if_pos hkey]
    have hcpus := isIn_nodeLevers.mp hkey
    have hitem : item H (nodeOver.shift doc.heap.length) key = v.shift doc.heap.length := by
      rw [item_copy hs hover, item, hv]
      rfl
    have hvl : doc.Loose v := by
      have := hover.item key
      rwa [item, hv] at this
    rw [hitem]
    by_cases htake : takesLevers doc.heap nodes name
    · rw [if_pos htake]
      obtain ⟨d, n, hd, hn, hfit⟩ := takesLevers_eq_true.mp htake
      obtain ⟨j, rfl, ho⟩ := Heap.dictOf_eq_some.mp hd
      exact setLever_ok hu hs hnodes ho hn hfit (hfresh hcpus) hvl hcpus
    · rw [if_neg htake]
      exact setLever_unfit hu hs hnodes hin (hfresh hcpus) (by simpa using htake)
  · rw [if_neg hkey, if_neg hkey]
    exact ⟨H, rfl, hs.input⟩

/-- The CPUs that an override of a node gives. -/
def cpusOf (h : Heap) (nodeOver : Val) : Option Val := (h.dictOf nodeOver).bind (·.value cpus)

theorem shift_message_contains {h : Heap} {nodes : Val} {name : Atom} {message : List Part}
    (herr : contains h nodes name = .error (.value message)) (n : ℕ) : message.map (Part.shift n) = message := by
  unfold contains at herr
  split at herr
  · split at herr <;> cases herr
  · split at herr <;> cases herr
  · split at herr
    · cases herr
    · split at herr
      · split at herr
        · cases herr
        · cases herr
          rfl
      · cases herr
  · cases herr

theorem not_mem_of_nodup {α β : Type} {f : α → β} {as pre post : List α} {a : α} (h : (as.map f).Nodup)
    (heq : as = pre ++ a :: post) : f a ∉ pre.map f := by
  rw [heq, List.map_append, List.map_cons] at h
  intro hm
  exact (List.nodup_append.mp h).2.2 _ hm _ List.mem_cons_self rfl

/-- The loop over an override of one node. -/
theorem judges_levers (hu : doc.Unaliased) (hs : doc.Stands lever node H) {nodes : Val} (hnodes : doc.nodes = some nodes)
    {name : Atom} (hin : contains doc.heap nodes name = .ok true) (hfresh : node name.key = none) {nodeOver : Val} {d : Mapping}
    (hol : doc.Loose nodeOver) (hd : doc.heap.dictOf nodeOver = some d) (whr : Str) :
    Judges doc.heap.length doc.NotList (doc.Stands lever (Function.update node name.key (d.value cpus))) doc.InputKept
      (.first (d.keys.map (leverVerdict doc.heap nodes whr name)))
      (d.keys.foldlM (applyLever (nodes.shift doc.heap.length) name (nodeOver.shift doc.heap.length) whr) H) := by
  let I (done : List Atom) : Heap → Prop :=
    doc.Stands lever (if cpus ∈ done.map Atom.key then Function.update node name.key (d.value cpus) else node)
  have hstep : ∀ pre key post H', d.keys = pre ++ key :: post → I ([] ++ pre) H' →
      Judges doc.heap.length doc.NotList (I ([] ++ pre ++ [key])) doc.InputKept (leverVerdict doc.heap nodes whr name key)
        (applyLever (nodes.shift doc.heap.length) name (nodeOver.shift doc.heap.length) whr H' key) := by
    intro pre key post H' heq hI
    rw [List.nil_append] at hI ⊢
    have hmem : key ∈ d.keys := heq ▸ List.mem_append_right pre List.mem_cons_self
    obtain ⟨v, hv⟩ := Option.isSome_iff_exists.mp (Mapping.value_isSome.mpr (List.mem_map_of_mem hmem))
    by_cases hkey : key.key = cpus
    · -- the first time that it is set
      have hbefore : cpus ∉ pre.map Atom.key := hkey ▸ not_mem_of_nodup d.nodup_keys heq
      have hafter : cpus ∈ (pre ++ [key]).map Atom.key := by simp [hkey]
      simp only [I, if_neg hbefore] at hI
      refine (judges_applyLever hu hI hnodes hin (fun _ => hfresh) hol whr (by rw [hd]; exact hv)).mono fun H'' hI' => ?_
      show doc.Stands lever _ H''
      rw [if_pos hafter, ← hkey, hv]
      exact hI'
    · have hno : ¬ isIn key nodeLevers := fun h => hkey (isIn_nodeLevers.mp h)
      unfold leverVerdict applyLever
      rw [if_neg hno, if_neg hno]
      exact ⟨H', rfl, Stands.input hI⟩
  refine (judges_foldlM I d.keys [] hstep H hs).mono fun H' hI => ?_
  have hset : doc.Stands lever (if cpus ∈ d.keys.map Atom.key then Function.update node name.key (d.value cpus) else node) H' :=
    hI
  by_cases hmem : cpus ∈ d.keys.map Atom.key
  · rwa [if_pos hmem] at hset
  · have hnone : d.value cpus = none := Option.not_isSome_iff_eq_none.mp fun h => hmem (Mapping.value_isSome.mp h)
    rw [if_neg hmem] at hset
    rwa [hnone, ← hfresh, Function.update_eq_self]

theorem judges_applyNode (hu : doc.Unaliased) (hs : doc.Stands lever node H) {nodes : Val} (hnodes : doc.nodes = some nodes)
    {overrides : Val} (hl : doc.Loose overrides) (whr : Str) {name : Atom} (hfresh : node name.key = none) :
    Judges doc.heap.length doc.NotList
      (doc.Stands lever (Function.update node name.key (cpusOf doc.heap (item doc.heap overrides name)))) doc.InputKept
      (nodeVerdict doc.heap nodes whr name (item doc.heap overrides name))
      (applyNode (nodes.shift doc.heap.length) (overrides.shift doc.heap.length) whr H name) := by
  unfold nodeVerdict applyNode
  rw [contains_nodes hs hnodes, item_copy hs hl]
  cases hin : contains doc.heap nodes name with
  | error e =>
    cases e with
    | value message =>
      refine ⟨H, ?_, hs.input⟩
      rw [shift_message_contains hin]
      rfl
    | type => exact fun _ => ⟨.type, H, rfl, nofun⟩
    | index => exact fun _ => ⟨.index, H, rfl, nofun⟩
  | ok known =>
    cases known with
    | false => exact ⟨H, rfl, hs.input⟩
    | true =>
      have hol := hl.item name
      generalize item doc.heap overrides name = nodeOver at hol ⊢
      show Judges _ _ _ _ _ (match H.dictOf (nodeOver.shift doc.heap.length) with
        | none => _
        | some d => _)
      rw [(hs.copies nodeOver hol).dictOf]
      cases hd : doc.heap.dictOf nodeOver with
      | none => exact ⟨H, rfl, hs.input⟩
      | some d =>
        show Judges _ _ _ _ (.first (d.keys.map _)) ((Mapping.mapVals _ d).keys.foldlM _ H)
        rw [Mapping.keys_mapVals]
        have hof : cpusOf doc.heap nodeOver = d.value cpus := by rw [cpusOf, hd]; rfl
        rw [hof]
        exact judges_levers hu hs hnodes hin hfresh hol hd whr

/-! ### The profile -/

theorem cpusOf_null (h : Heap) (o : Option Val) : cpusOf h (o.getD (.atom .null)) = o.bind (cpusOf h) := by
  cases o <;> rfl

/-- The loop over the nodes of a profile. -/
theorem judges_nodes (hu : doc.Unaliased) (hs : doc.Stands lever (fun _ => none) H) {nodes : Val}
    (hnodes : doc.nodes = some nodes) {overrides : Val} {d : Mapping} (hl : doc.Loose overrides)
    (hd : doc.heap.dictOf overrides = some d) (whr : Str) :
    Judges doc.heap.length doc.NotList (doc.Stands lever fun k => (d.value k).bind (cpusOf doc.heap)) doc.InputKept
      (.first (d.keys.map fun name => nodeVerdict doc.heap nodes whr name (item doc.heap overrides name)))
      (d.keys.foldlM (applyNode (nodes.shift doc.heap.length) (overrides.shift doc.heap.length) whr) H) := by
  let given (k : Key) : Option Val := (d.value k).bind (cpusOf doc.heap)
  let I (done : List Atom) : Heap → Prop := doc.Stands lever fun k => if k ∈ done.map Atom.key then given k else none
  have hstep : ∀ pre name post H', d.keys = pre ++ name :: post → I ([] ++ pre) H' →
      Judges doc.heap.length doc.NotList (I ([] ++ pre ++ [name])) doc.InputKept
        (nodeVerdict doc.heap nodes whr name (item doc.heap overrides name))
        (applyNode (nodes.shift doc.heap.length) (overrides.shift doc.heap.length) whr H' name) := by
    intro pre name post H' heq hI
    rw [List.nil_append] at hI ⊢
    have hnew := not_mem_of_nodup d.nodup_keys heq
    refine (judges_applyNode hu hI hnodes hl whr (if_neg hnew)).mono fun H'' hI' => ?_
    have hgiven : cpusOf doc.heap (item doc.heap overrides name) = given name.key := by
      rw [item, hd]
      exact cpusOf_null _ _
    have hafter : Function.update (fun k => if k ∈ pre.map Atom.key then given k else none) name.key (given name.key) =
        fun k => if k ∈ (pre ++ [name]).map Atom.key then given k else none := by
      funext k
      by_cases hk : k = name.key
      · simp [hk]
      · simp [hk]
    show doc.Stands lever _ H''
    rwa [hgiven, hafter] at hI'
  have hstart : I [] H := by simpa [I] using hs
  refine (judges_foldlM I d.keys [] hstep H hstart).mono fun H' hI => ?_
  have hall : (fun k => if k ∈ d.keys.map Atom.key then given k else none) = given := by
    funext k
    by_cases hk : k ∈ d.keys.map Atom.key
    · rw [if_pos hk]
    · have hnone : d.value k = none := Option.not_isSome_iff_eq_none.mp fun h => hk (Mapping.value_isSome.mp h)
      rw [if_neg hk]
      show none = (d.value k).bind _
      rw [hnone]
      rfl
  have hset : doc.Stands lever (fun k => if k ∈ d.keys.map Atom.key then given k else none) H' := hI
  rwa [hall] at hset

theorem truthy_nodes (hs : doc.Stands lever (fun _ => none) H) {nodes : Val} (hnodes : doc.nodes = some nodes) :
    H.truthy (nodes.shift doc.heap.length) = doc.heap.truthy nodes := by
  cases nodes with
  | atom a => rfl
  | ref j =>
    obtain ⟨o, o', ho, ho', hn⟩ := hs.getNodes hnodes
    show H[doc.heap.length + j]?.any Obj.truthy = doc.heap[j]?.any Obj.truthy
    rw [ho, ho']
    show o'.truthy = o.truthy
    cases o with
    | dict d =>
      obtain ⟨d', rfl, hnone, -⟩ := hn
      have hkeys : ∀ k, k ∈ d'.keys.map Atom.key ↔ k ∈ d.keys.map Atom.key := fun k => by
        rw [← Mapping.value_isSome, ← Mapping.value_isSome, hnone k rfl, Option.isSome_map]
      have hempty : ∀ {as : List Atom}, as = [] ↔ ∀ k, k ∉ as.map Atom.key := fun {as} => by
        rw [← List.eq_nil_iff_forall_not_mem, List.map_eq_nil_iff]
      show decide (d'.keys ≠ []) = decide (d.keys ≠ [])
      simp only [ne_eq, hempty, hkeys]
    | list vs =>
      obtain rfl := hn
      exact Obj.truthy_mapVals _ _
    | pairs ps =>
      obtain rfl := hn
      exact Obj.truthy_mapVals _ _
    | set as =>
      obtain rfl := hn
      rfl

/-- The CPUs that a profile gives to a node. -/
def cpusIn (h : Heap) (profile : Mapping) (k : Key) : Option Val :=
  (((profile.value nodesKey.key).bind h.dictOf).bind (·.value k)).bind (cpusOf h)

/-- The lever of the topology that a profile gives. -/
def leverIn (profile : Mapping) (k : Key) : Option Val :=
  if k ∈ topLevelLevers.map Atom.key then profile.value k else none

theorem judges_applyNodes (hu : doc.Unaliased) (hs : doc.Stands lever (fun _ => none) H) {overrides : Val}
    (hl : doc.Loose overrides) (whr : Str) :
    Judges doc.heap.length doc.NotList
      (doc.Stands lever fun k => ((doc.heap.dictOf overrides).bind (·.value k)).bind (cpusOf doc.heap)) doc.InputKept
      (nodesVerdict doc.heap (doc.nodes.filter doc.heap.truthy) whr overrides)
      (applyNodes ((doc.nodes.map (Val.shift doc.heap.length)).filter H.truthy) (overrides.shift doc.heap.length) whr H) := by
  unfold nodesVerdict applyNodes
  rw [(hs.copies overrides hl).dictOf]
  cases hd : doc.heap.dictOf overrides with
  | none => exact ⟨H, rfl, hs.input⟩
  | some d =>
    have hmissing : Judges doc.heap.length doc.NotList (doc.Stands lever fun k => (d.value k).bind (cpusOf doc.heap))
        doc.InputKept (match d.keys with
          | [] => .accepted
          | name :: _ => .rejected (unknownNode whr name))
        (match (d.mapVals (Val.shift doc.heap.length)).keys with
          | [] => .ok H
          | name :: _ => valueError H (unknownNode whr name)) := by
      rw [Mapping.keys_mapVals]
      cases hkeys : d.keys with
      | nil =>
        have hnone : ∀ k, d.value k = none := fun k => Option.not_isSome_iff_eq_none.mp fun h => by
          have := Mapping.value_isSome.mp h
          simp [hkeys] at this
        refine ⟨H, rfl, ?_⟩
        simpa [hnone] using hs
      | cons name names => exact ⟨H, rfl, hs.input⟩
    show Judges _ _ _ _ _ (match (doc.nodes.map (Val.shift doc.heap.length)).filter H.truthy with
      | some nodes => (d.mapVals _).keys.foldlM _ H
      | none => _)
    cases hnodes : doc.nodes with
    | none => exact hmissing
    | some nodes =>
      rw [Option.map_some, Option.filter_some, Option.filter_some, truthy_nodes hs hnodes]
      by_cases htruthy : doc.heap.truthy nodes
      · rw [if_pos htruthy, if_pos htruthy, Mapping.keys_mapVals]
        exact judges_nodes hu hs hnodes hl hd whr
      · rw [if_neg htruthy, if_neg htruthy]
        exact hmissing

/-- The nodes that the topology has by then. -/
theorem Stands.rootNodes (hs : doc.Stands lever node H) (hlever : lever nodesKey.key = none) :
    (H.dictOf (.ref (doc.heap.length + doc.root))).bind (·.value nodesKey.key) =
      doc.nodes.map (Val.shift doc.heap.length) := by
  obtain ⟨d, hd, -, hrest⟩ := hs.root
  have hdict : H.dictOf (.ref (doc.heap.length + doc.root)) = some d := by simp [Heap.dictOf, hd]
  rw [hdict, Option.bind_some, hrest _ hlever, if_neg (by decide)]
  rfl

theorem isAllowed_copy (hs : doc.Stands lever node H) {v : Val} (hl : doc.Loose v) (allowed : List Atom) :
    isAllowed H (v.shift doc.heap.length) allowed = isAllowed doc.heap v allowed := by
  cases v with
  | atom a => rfl
  | ref i =>
    have hi := hs.copies _ hl i (.here i)
    simp only [isAllowed, Val.shift, hi]
    cases doc.heap[i]? with
    | none => rfl
    | some o => cases o <;> rfl

theorem isAllowed_ne_value {h : Heap} {v : Val} {allowed : List Atom} {e : Raised} (herr : isAllowed h v allowed = .error e) :
    ∀ message, e ≠ .value message := by
  rintro message rfl
  unfold isAllowed at herr
  split at herr
  · cases herr
  · split at herr <;> cases herr

/-- The lever of the topology is set to a copy. -/
theorem setTop_ok (hu : doc.Unaliased) (hs : doc.Stands lever node H) (key : Atom) {v : Val} (hl : doc.Loose v) :
    ∃ H', raising (H.deepcopy (v.shift doc.heap.length)).1 (setItem (H.deepcopy (v.shift doc.heap.length)).1
        (.ref (doc.heap.length + doc.root)) key (H.deepcopy (v.shift doc.heap.length)).2) = .ok H' ∧
      doc.Stands (Function.update lever key.key (some v)) node H' := by
  have hs' : doc.Stands lever node (H.deepcopy (v.shift doc.heap.length)).1 := hs.append _
  obtain ⟨d, hd, -⟩ := hs'.root
  refine ⟨_, ?_, hs'.setRoot hu hd key hl ((hs.copied hl).deepcopy hl)⟩
  simp only [setItem, hd]
  rfl

theorem judges_top (hu : doc.Unaliased) (hs : doc.Stands lever node H) (whr : Str) {key : Atom} {v : Val}
    (hl : doc.Loose v) :
    Judges doc.heap.length doc.NotList (doc.Stands (Function.update lever key.key (some v)) node) doc.InputKept
      ((leverValues key).elim .accepted (valueVerdict doc.heap whr key v))
      ((checkValue H key (v.shift doc.heap.length) whr).bind fun _ =>
        raising (H.deepcopy (v.shift doc.heap.length)).1 (setItem (H.deepcopy (v.shift doc.heap.length)).1
          (.ref (doc.heap.length + doc.root)) key (H.deepcopy (v.shift doc.heap.length)).2)) := by
  have hset := setTop_ok hu hs key hl
  unfold checkValue
  cases leverValues key with
  | none => exact hset
  | some allowed =>
    show Judges _ _ _ _ (valueVerdict doc.heap whr key v allowed)
      (((raising H (isAllowed H (v.shift doc.heap.length) allowed)).bind _).bind _)
    rw [isAllowed_copy hs hl, valueVerdict]
    cases hin : isAllowed doc.heap v allowed with
    | error e => exact fun _ => ⟨e, H, rfl, isAllowed_ne_value hin⟩
    | ok known =>
      cases known with
      | false => exact ⟨H, rfl, hs.input⟩
      | true => exact hset

theorem judges_applyItem (hu : doc.Unaliased) {profile : Val} {d : Mapping} (hl : doc.Loose profile)
    (hd : doc.heap.dictOf profile = some d) (whr : Str) {key : Atom} {v : Val} (hv : d.value key.key = some v)
    (hs : doc.Stands lever node H) (hlever : lever nodesKey.key = none)
    (hnode : key.key = nodesKey.key → node = fun _ => none) :
    Judges doc.heap.length doc.NotList
      (doc.Stands (if key.key = nodesKey.key then lever else Function.update lever key.key (leverIn d key.key))
        (if key.key = nodesKey.key then cpusIn doc.heap d else node)) doc.InputKept
      (itemVerdict doc.heap doc.nodes whr key (item doc.heap profile key))
      (applyItem (.ref (doc.heap.length + doc.root)) (profile.shift doc.heap.length) whr H key) := by
  have hitem : item doc.heap profile key = v := by
    rw [item, hd, Option.bind_some, hv]
    rfl
  have hvl : doc.Loose v := hl.get_mapping hd hv
  unfold itemVerdict applyItem
  rw [item_copy hs hl, hitem]
  by_cases hkey : key.key = nodesKey.key
  · rw [if_pos hkey, if_pos hkey, if_pos hkey]
    obtain rfl := hnode hkey
    show Judges _ _ _ _ _ (if key.key = nodesKey.key then _ else _)
    rw [if_pos hkey, hs.rootNodes hlever]
    refine (judges_applyNodes hu hs hvl whr).mono fun H' hI => ?_
    have hcpus : cpusIn doc.heap d = fun k => ((doc.heap.dictOf v).bind (·.value k)).bind (cpusOf doc.heap) := by
      funext k
      rw [cpusIn, ← hkey, hv, Option.bind_some]
    rwa [hcpus]
  · rw [if_neg hkey, if_neg hkey, if_neg hkey]
    show Judges _ _ _ _ _ (if key.key = nodesKey.key then _ else _)
    rw [if_neg hkey]
    by_cases htop : isIn key topLevelLevers
    · rw [if_pos htop, if_pos htop]
      have hin : leverIn d key.key = some v := by rw [leverIn, if_pos (by simpa [isIn] using htop), hv]
      rw [hin]
      exact judges_top hu hs whr hvl
    · rw [if_neg htop, if_neg htop]
      exact ⟨H, rfl, hs.input⟩

/-- The loop over the profile. -/
theorem judges_apply (hu : doc.Unaliased) (hs : doc.Stands (fun _ => none) (fun _ => none) H) {profile : Val}
    (hl : doc.Loose profile) (env : Str) :
    Judges doc.heap.length doc.NotList
      (doc.Stands (leverIn ((doc.heap.dictOf profile).getD .empty)) (cpusIn doc.heap ((doc.heap.dictOf profile).getD .empty)))
      doc.InputKept (profileVerdict doc.heap doc.nodes env profile)
      (apply (.ref (doc.heap.length + doc.root)) (profile.shift doc.heap.length) env H) := by
  unfold profileVerdict apply
  rw [(hs.copies profile hl).truthy, (hs.copies profile hl).dictOf]
  by_cases htruthy : doc.heap.truthy profile
  · rw [if_pos htruthy, if_pos htruthy]
    cases hd : doc.heap.dictOf profile with
    | none => exact ⟨H, rfl, hs.input⟩
    | some d =>
      show Judges _ _ _ _ (.first (d.keys.map _)) ((Mapping.mapVals _ d).keys.foldlM _ H)
      rw [Mapping.keys_mapVals, Option.getD_some]
      generalize hwhr : "env_profiles.".toList ++ env = whr
      let levers (done : List Atom) (k : Key) : Option Val := if k ∈ done.map Atom.key then leverIn d k else none
      let nodes (done : List Atom) : Key → Option Val :=
        if nodesKey.key ∈ done.map Atom.key then cpusIn doc.heap d else fun _ => none
      let I (done : List Atom) : Heap → Prop := doc.Stands (levers done) (nodes done)
      have hnot : leverIn d nodesKey.key = none := if_neg (by decide)
      have hstep : ∀ pre key post H', d.keys = pre ++ key :: post → I ([] ++ pre) H' →
          Judges doc.heap.length doc.NotList (I ([] ++ pre ++ [key])) doc.InputKept
            (itemVerdict doc.heap doc.nodes whr key (item doc.heap profile key))
            (applyItem (.ref (doc.heap.length + doc.root)) (profile.shift doc.heap.length) whr H' key) := by
        intro pre key post H' heq hI
        rw [List.nil_append] at hI ⊢
        have hnew := not_mem_of_nodup d.nodup_keys heq
        have hmem : key ∈ d.keys := heq ▸ List.mem_append_right pre List.mem_cons_self
        obtain ⟨v, hv⟩ := Option.isSome_iff_exists.mp (Mapping.value_isSome.mpr (List.mem_map_of_mem hmem))
        have hbefore : levers pre nodesKey.key = none := by
          show (if _ then _ else _) = none
          rw [hnot, ite_self]
        refine (judges_applyItem hu hl hd whr hv hI hbefore fun hkey => if_neg (hkey ▸ hnew)).mono fun H'' hI' => ?_
        have hlevers : (if key.key = nodesKey.key then levers pre else
            Function.update (levers pre) key.key (leverIn d key.key)) = levers (pre ++ [key]) := by
          funext k
          by_cases hkey : key.key = nodesKey.key
          · rw [if_pos hkey]
            by_cases hk : k = key.key
            · simp [levers, hk, hkey, hnot]
            · simp [levers, Ne.symm hk]
          · rw [if_neg hkey]
            by_cases hk : k = key.key
            · simp [levers, hk]
            · simp [levers, Function.update_of_ne hk, Ne.symm hk]
        have hnodes : (if key.key = nodesKey.key then cpusIn doc.heap d else nodes pre) = nodes (pre ++ [key]) := by
          by_cases hkey : key.key = nodesKey.key
          · simp [nodes, hkey]
          · simp [nodes, hkey]
        show doc.Stands _ _ H''
        rwa [← hlevers, ← hnodes]
      have hstart : I [] H := by simpa [I, levers, nodes] using hs
      refine (judges_foldlM I d.keys [] hstep H hstart).mono fun H' hI => ?_
      have hlevers : levers d.keys = leverIn d := by
        funext k
        by_cases hk : k ∈ d.keys.map Atom.key
        · exact if_pos hk
        · have hnone : d.value k = none := Option.not_isSome_iff_eq_none.mp fun h => hk (Mapping.value_isSome.mp h)
          simp [levers, leverIn, hnone]
      have hnodes : nodes d.keys = cpusIn doc.heap d := by
        by_cases hk : nodesKey.key ∈ d.keys.map Atom.key
        · exact if_pos hk
        · have hnone : d.value nodesKey.key = none :=
            Option.not_isSome_iff_eq_none.mp fun h => hk (Mapping.value_isSome.mp h)
          funext k
          simp only [nodes, if_neg hk]
          simp [cpusIn, hnone]
      have hset : doc.Stands (levers d.keys) (nodes d.keys) H' := hI
      rwa [hlevers, hnodes] at hset
  · rw [if_neg htruthy, if_neg htruthy]
    have hnone : ∀ k, ((doc.heap.dictOf profile).getD .empty).value k = none := fun k => by
      cases hd : doc.heap.dictOf profile with
      | none => rfl
      | some d => exact value_of_not_truthy (by simpa using htruthy) hd k
    refine ⟨H, rfl, ?_⟩
    have hlevers : leverIn ((doc.heap.dictOf profile).getD .empty) = fun _ => none := by
      funext k
      simp [leverIn, hnone]
    have hnodes : cpusIn doc.heap ((doc.heap.dictOf profile).getD .empty) = fun _ => none := by
      funext k
      simp [cpusIn, hnone]
    rwa [hlevers, hnodes]

/-! ### The topology -/

variable (doc) in
/-- What the topology has of profiles. -/
def profiles : Except Raised Mapping := profilesOf doc.heap (doc.mapping.value profilesKey.key)

/-- The verdict on what comes of a value, if there is one. -/
def verdictOf {α : Type} (x : Except Raised α) (f : α → Verdict) : Verdict :=
  match x with
  | .ok a => f a
  | .error (.value message) => .rejected message
  | .error _ => .unfit

variable (doc) in
/-- What becomes of the selected profile; the base has none. -/
def verdict (selected : Str) : Verdict :=
  verdictOf doc.profiles fun profiles => verdictOf (checkKnown profiles) fun _ =>
    if selected = [] then .accepted
    else verdictOf (select profiles selected) (profileVerdict doc.heap doc.nodes selected)

variable (doc) in
/-- The selected profile; the base has no items. -/
def profileOf (selected : Str) : Mapping :=
  if selected = [] then .empty
  else ((((doc.mapping.value profilesKey.key).bind doc.heap.dictOf).bind (·.value (.str selected))).bind
    doc.heap.dictOf).getD .empty

variable (doc) in
/-- The objects when the profiles are popped. -/
def popped : Heap :=
  (doc.heap.deepcopy (.ref doc.root)).1.set (doc.heap.length + doc.root)
    (.dict ((doc.mapping.mapVals (Val.shift doc.heap.length)).erase profilesKey))

theorem getElem?_deepcopy (i : ℕ) (v : Val) :
    (doc.heap.deepcopy v).1[doc.heap.length + i]? = doc.heap[i]?.map (Obj.mapVals (Val.shift doc.heap.length)) := by
  show (doc.heap ++ doc.heap.map _)[doc.heap.length + i]? = _
  rw [List.getElem?_append_right (by omega), List.getElem?_map]
  congr 2
  omega

theorem length_deepcopy (v : Val) : (doc.heap.deepcopy v).1.length = 2 * doc.heap.length := by
  simp [Heap.deepcopy]
  omega

theorem stands_popped (hu : doc.Unaliased) : doc.Stands (fun _ => none) (fun _ => none) doc.popped where
  length := by simp [popped, length_deepcopy]
  input i hi := by
    rw [popped, List.getElem?_set_ne (by omega)]
    exact List.getElem?_append_left hi
  copies v hl i hi := by
    have hne : i ≠ doc.root := by
      rintro rfl
      exact hl.root hi
    rw [popped, List.getElem?_set_ne (by omega), getElem?_deepcopy]
  root := by
    have hroot := doc.root_lt
    refine ⟨_, List.getElem?_set_self (by rw [length_deepcopy]; omega), fun k v hv => (by cases hv), fun k _ => ?_⟩
    rw [Mapping.value_erase, Mapping.value_mapVals]
  nodes j o hj ho := by
    have hne := nodes_ne_root hu hj
    refine ⟨o.mapVals (Val.shift doc.heap.length), ?_, ?_⟩
    · rw [popped, List.getElem?_set_ne (by omega), getElem?_deepcopy, ho]
      rfl
    · cases o with
      | dict d => exact ⟨_, rfl, fun k _ => Mapping.value_mapVals _ d k, fun k v hv => (by cases hv)⟩
      | list vs => rfl
      | pairs ps => rfl
      | set as => rfl
  mapping k v hv := by cases hv

theorem popProfiles_copy : popProfiles (doc.heap.deepcopy (.ref doc.root)).1 (doc.heap.length + doc.root) =
    (doc.popped, (doc.mapping.value profilesKey.key).map (Val.shift doc.heap.length)) := by
  have hroot : (doc.heap.deepcopy (.ref doc.root)).1.dictOf (.ref (doc.heap.length + doc.root)) =
      some (doc.mapping.mapVals (Val.shift doc.heap.length)) := by
    rw [Heap.dictOf, getElem?_deepcopy, doc.isRoot]
    rfl
  rw [popProfiles, hroot, Option.getD_some, Mapping.value_mapVals]
  rfl

/-- The popped profiles are the copies of the profiles. -/
theorem profilesOf_copy (hu : doc.Unaliased) : profilesOf doc.popped
      ((doc.mapping.value profilesKey.key).map (Val.shift doc.heap.length)) =
    (doc.profiles.map (Mapping.mapVals (Val.shift doc.heap.length))).mapError (Raised.shift doc.heap.length) := by
  unfold profiles profilesOf
  cases hv : doc.mapping.value profilesKey.key with
  | none => rfl
  | some v =>
    have hl : doc.Loose v := .of_value hu hv (by decide)
    have hs := stands_popped hu
    rw [Option.map_some, Option.filter_some, Option.filter_some, (hs.copies v hl).truthy]
    by_cases htruthy : doc.heap.truthy v
    · rw [if_pos htruthy, if_pos htruthy]
      simp only [(hs.copies v hl).dictOf]
      cases doc.heap.dictOf v <;> rfl
    · rw [if_neg htruthy, if_neg htruthy]
      rfl

theorem checkKnown_mapVals (f : Val → Val) (d : Mapping) : checkKnown (d.mapVals f) = checkKnown d := by
  unfold checkKnown
  rw [Mapping.keys_mapVals]

theorem select_mapVals (n : ℕ) (d : Mapping) (selected : Str) :
    select (d.mapVals (Val.shift n)) selected = ((select d selected).map (Val.shift n)).mapError (Raised.shift n) := by
  unfold select
  rw [Mapping.value_mapVals]
  split
  · cases d.value (Key.str selected) <;> rfl
  · rfl

/-- Profiles that are there are the mapping under their key, or none. -/
theorem value_profiles {d : Mapping} (hd : doc.profiles = .ok d) (k : Key) :
    d.value k = ((doc.mapping.value profilesKey.key).bind doc.heap.dictOf).bind (·.value k) := by
  unfold profiles profilesOf at hd
  cases hv : doc.mapping.value profilesKey.key with
  | none =>
    rw [hv] at hd
    cases hd
    rfl
  | some v =>
    rw [hv, Option.filter_some] at hd
    by_cases htruthy : doc.heap.truthy v
    · rw [if_pos htruthy] at hd
      cases hdict : doc.heap.dictOf v with
      | none => simp [hdict] at hd
      | some d' =>
        obtain rfl : d' = d := by simpa [hdict] using hd
        rw [Option.bind_some, hdict, Option.bind_some]
    · rw [if_neg htruthy] at hd
      cases hd
      cases hdict : doc.heap.dictOf v with
      | none => simp [hdict]
      | some d' =>
        rw [Option.bind_some, hdict, Option.bind_some, value_of_not_truthy (by simpa using htruthy) hdict]
        rfl

theorem loose_profile (hu : doc.Unaliased) {d : Mapping} (hd : doc.profiles = .ok d) {k : Key} {profile : Val}
    (hp : d.value k = some profile) : doc.Loose profile := by
  rw [value_profiles hd] at hp
  obtain ⟨d', hd', hp⟩ := Option.bind_eq_some_iff.mp hp
  obtain ⟨v, hv, hdict⟩ := Option.bind_eq_some_iff.mp hd'
  exact (Loose.of_value hu hv (by decide)).get_mapping hdict hp

theorem value_of_select {d : Mapping} {selected : Str} {profile : Val} (hp : select d selected = .ok profile) :
    d.value (.str selected) = some profile := by
  unfold select at hp
  split at hp
  · split at hp
    · rename_i h
      cases hp
      exact h
    · cases hp
  · cases hp

theorem profileOf_select {d : Mapping} (hd : doc.profiles = .ok d) {selected : Str} (hne : selected ≠ []) {profile : Val}
    (hp : select d selected = .ok profile) : doc.profileOf selected = (doc.heap.dictOf profile).getD .empty := by
  have hvalue := value_of_select hp
  rw [value_profiles hd] at hvalue
  rw [profileOf, if_neg hne, hvalue]
  rfl

theorem shift_message_known {d : Mapping} {message : List Part} (herr : checkKnown d = .error (.value message)) (n : ℕ) :
    message.map (Part.shift n) = message := by
  unfold checkKnown at herr
  dsimp only at herr
  split at herr
  · split at herr
    · cases herr
    · cases herr
      rfl
  · cases herr

theorem leverIn_empty : leverIn .empty = fun _ => none := by
  funext k
  simp [leverIn]

theorem cpusIn_empty (h : Heap) : cpusIn h .empty = fun _ => none := by
  funext k
  simp [cpusIn]

/-- **The merge does as the verdict says.** -/
theorem judges_effective (hu : doc.Unaliased) (selected : Str) :
    Judges doc.heap.length doc.NotList (fun r : Val × Heap => r.1 = .ref (doc.heap.length + doc.root) ∧
        doc.Stands (leverIn (doc.profileOf selected)) (cpusIn doc.heap (doc.profileOf selected)) r.2)
      doc.InputKept (doc.verdict selected) (effective doc.heap doc.root selected) := by
  have hs := stands_popped hu
  unfold verdict effective
  simp only [popProfiles_copy]
  show Judges _ _ _ _ _ ((raising doc.popped (profilesOf doc.popped _)).bind _)
  rw [profilesOf_copy hu]
  cases hd : doc.profiles with
  | error e =>
    cases e with
    | value message => exact ⟨doc.popped, rfl, hs.input⟩
    | type => exact fun _ => ⟨.type, doc.popped, rfl, nofun⟩
    | index => exact fun _ => ⟨.index, doc.popped, rfl, nofun⟩
  | ok d =>
    show Judges _ _ _ _ (verdictOf (checkKnown d) _) ((raising doc.popped (checkKnown (d.mapVals _))).bind _)
    rw [checkKnown_mapVals]
    cases hknown : checkKnown d with
    | error e =>
      cases e with
      | value message =>
        refine ⟨doc.popped, ?_, hs.input⟩
        rw [shift_message_known hknown]
        rfl
      | type => exact fun _ => ⟨.type, doc.popped, rfl, nofun⟩
      | index => exact fun _ => ⟨.index, doc.popped, rfl, nofun⟩
    | ok u =>
      show Judges _ _ _ _ (if selected = [] then _ else _) (if selected = [] then _ else _)
      by_cases hbase : selected = []
      · rw [if_pos hbase, if_pos hbase]
        refine ⟨_, rfl, rfl, ?_⟩
        rw [profileOf, if_pos hbase, leverIn_empty, cpusIn_empty]
        exact hs
      · rw [if_neg hbase, if_neg hbase]
        show Judges _ _ _ _ (verdictOf (select d selected) _) ((raising doc.popped (select (d.mapVals _) selected)).bind _)
        rw [select_mapVals]
        cases hp : select d selected with
        | error e =>
          cases e with
          | value message => exact ⟨doc.popped, rfl, hs.input⟩
          | type => exact fun _ => ⟨.type, doc.popped, rfl, nofun⟩
          | index => exact fun _ => ⟨.index, doc.popped, rfl, nofun⟩
        | ok profile =>
          rw [profileOf_select hd hbase hp]
          have hl := loose_profile hu hd (value_of_select hp)
          exact (judges_apply hu hs hl selected).bind_ok fun H hstands => ⟨rfl, hstands⟩

end Document
end Profile
end Lab
end MqResiliency
