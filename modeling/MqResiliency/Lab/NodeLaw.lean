/-
# What the nodes boot

A node boots its role on an OS: a shared role on its shared OS, another on the
OS that its only owner runs, which an instance record pins (`Boots`). The box
that `nodeBoxes` selects is the box of this pair (`boots_of_nodeBoxes`).

The roles that a stack has (`HasRole`) are those of `stackRoles`
(`stackRoles_law`), and all boxes are enumerated as long as every stack of the
topology is in the catalog and its roles bake on all that it supports
(`Enumerable`, `allBoxes_exec_iff`).
-/
import MqResiliency.Lab.FleetLaw

namespace MqResiliency
namespace Lab

open Py Conv

/-! ### Roles -/

/-- The node declares this role, and the catalog has it. -/
def Declares (cat : Catalog) (spec : Node) (role : Str) : Prop :=
  spec.box = some role ∧ role ≠ [] ∧ (cat.roles.get? role).isSome

section
variable {printable : Char → Bool} {topo : Topology} {cat : Catalog} {L : Prop}

theorem wp_nodeRole {node : Str} {spec : Node} :
    (nodeRole node spec).wp L (fun role => spec.box = some role ∧ role ≠ []) Err.IsVersion := by
  unfold nodeRole
  split
  · rename_i c role hbox
    exact ⟨hbox, by simp⟩
  · exact wp_refuse _

theorem wp_knownRole {node role : Str} :
    (knownRole printable cat node role).wp L (fun r => r = role ∧ (cat.roles.get? role).isSome) Err.IsVersion := by
  unfold knownRole
  split
  · rename_i hknown
    exact ⟨rfl, hknown⟩
  · exact wp_refuse _

/-! ### What a node boots -/

/-- The OS that a stack runs: its record's, else its default. -/
def Runs (cat : Catalog) (records : Str → V (Option OsRef)) (stack : Str) (ref : OsRef) : Prop :=
  ∃ record, (records stack).exec = .ok record ∧ (record = some ref ∨
    record = none ∧ ∃ spec, cat.stackSpecs.get? stack = some spec ∧ spec.default = ref)

/-- The node boots the box of this role on this OS. -/
def Boots (topo : Topology) (cat : Catalog) (records : Str → V (Option OsRef)) (node role : Str) (ref : OsRef) :
    Prop :=
  (∃ spec, (node, spec) ∈ topo.nodes.items ∧ Declares cat spec role) ∧
    (role ∈ sharedRoles ∧ ref = cat.sharedRef role ∨
      role ∉ sharedRoles ∧ ∃ stack, owners topo node = [stack] ∧ Runs cat records stack ref)

theorem wp_stackRef (records : Str → V (Option OsRef)) (stack : Str) :
    (stackRef printable cat records stack).wp True (Runs cat records stack) fun _ => True := by
  have hrecord : (records stack).wp True (fun r => (records stack).exec = .ok r) fun _ => True :=
    wp_of_exec (fun _ h => h) (fun _ _ => trivial) fun _ => trivial
  refine wp_seq hrecord fun r hr => ?_
  split
  · exact ⟨_, hr, .inl rfl⟩
  · refine wp_seq (wp_mono id (fun _ h => h) (fun _ _ => trivial) (wp_stackSpec stack)) fun spec hspec => ?_
    exact ⟨none, hr, .inr ⟨rfl, spec, hspec, rfl⟩⟩

theorem wp_stackRefs (records : Str → V (Option OsRef)) : ∀ (stacks' : List (Str × StackCfg))
    (out : Dict Str OsRef), (∀ stack ref, out.get? stack = some ref → Runs cat records stack ref) →
    (stackRefs printable cat records out stacks').wp True
      (fun refs => ∀ stack ref, refs.get? stack = some ref → Runs cat records stack ref) fun _ => True
  | [], out, hout => hout
  | (stack, cfg) :: more, out, hout => by
    refine wp_seq (wp_stackRef records stack) fun ref href => ?_
    split
    · refine wp_seq (OsRef.wp_text (fun _ => trivial) fun _ => trivial) fun t _ => ?_
      exact trivial
    · refine wp_stackRefs records more _ fun stack' ref' hget => ?_
      rw [Dict.get?_set] at hget
      split at hget
      · rename_i heq
        obtain rfl : ref = ref' := by simpa using hget
        exact heq ▸ href
      · exact hout stack' ref' hget

variable {records : Str → V (Option OsRef)} {refs : Dict Str OsRef}
  (hrefs : ∀ stack ref, refs.get? stack = some ref → Runs cat records stack ref)
include hrefs

theorem wp_nodeRef (node role : Str) :
    (nodeRef printable topo cat refs node role).wp True (fun ref =>
      role ∈ sharedRoles ∧ ref = cat.sharedRef role ∨
        role ∉ sharedRoles ∧ ∃ stack, owners topo node = [stack] ∧ Runs cat records stack ref) fun _ => True := by
  unfold nodeRef
  split
  · rename_i hshared
    exact wp_mono id (fun ref href => .inl ⟨hshared, href⟩) (fun _ h => h) (wp_sharedOs hshared)
  · rename_i hshared
    split
    · rename_i stack howner
      split
      · rename_i ref href
        exact .inr ⟨hshared, stack, howner, hrefs stack ref href⟩
      · trivial
    · trivial

theorem wp_nodeBoxesFrom (hentry : OsesSound cat.oses) : ∀ (nodes : List (Str × Node)) (out : Dict Str BoxEntry),
    (∀ p ∈ nodes, p ∈ topo.nodes.items) →
    (∀ node b, out.get? node = some b → ∃ role ref, Boots topo cat records node role ref ∧ BoxOf cat role ref b) →
    (nodeBoxesFrom printable topo cat refs out nodes).wp True
      (fun boxes => (∀ p ∈ nodes, ∃ role, Declares cat p.2 role) ∧ ∀ node b, boxes.get? node = some b →
        ∃ role ref, Boots topo cat records node role ref ∧ BoxOf cat role ref b) fun _ => True
  | [], out, _, hout => ⟨fun p hp => absurd hp (by simp), hout⟩
  | (node, spec) :: nodes, out, hnodes, hout => by
    have hversion : ∀ x : Err, x.IsVersion → True := fun _ _ => trivial
    refine wp_seq (wp_mono id (fun _ h => h) hversion wp_nodeRole) fun declared hdeclared => ?_
    refine wp_seq (wp_mono id (fun _ h => h) hversion wp_knownRole) fun role hrole => ?_
    obtain ⟨rfl, hknown⟩ := hrole
    refine wp_seq (wp_nodeRef hrefs node role) fun ref href => ?_
    have hbox : (cat.box printable role ref).wp True (BoxOf cat role ref) fun _ => True :=
      wp_mono id (fun _ h => h) hversion (wp_box hentry fun _ _ => trivial)
    refine wp_seq hbox fun b hb => ?_
    have hdecl : Declares cat spec role := ⟨hdeclared.1, hdeclared.2, hknown⟩
    have hboots : Boots topo cat records node role ref := ⟨⟨spec, hnodes _ List.mem_cons_self, hdecl⟩, href⟩
    have hrest : ∀ p ∈ nodes, p ∈ topo.nodes.items := fun p hp => hnodes p (List.mem_cons_of_mem _ hp)
    refine wp_mono id (fun boxes hboxes => ?_) (fun _ h => h)
      (wp_nodeBoxesFrom hentry nodes (out.set node b) hrest fun node' b' hget => ?_)
    · refine ⟨fun p hp => ?_, hboxes.2⟩
      rcases List.mem_cons.mp hp with rfl | hp
      · exact ⟨role, hdecl⟩
      · exact hboxes.1 p hp
    · rw [Dict.get?_set] at hget
      split at hget
      · rename_i heq
        obtain rfl : b = b' := by simpa using hget
        exact ⟨role, ref, heq ▸ hboots, hb⟩
      · exact hout node' b' hget

end

/-- **The box of a node** is that of the role and the OS that it boots. -/
theorem boots_of_nodeBoxes {printable : Char → Bool} {topo : Topology} {cat : Catalog} (hs : Sound cat)
    {records : Str → V (Option OsRef)} {boxes : Dict Str BoxEntry}
    (h : (nodeBoxes printable topo cat records).exec = .ok boxes) :
    (∀ p ∈ topo.nodes.items, ∃ role, Declares cat p.2 role) ∧ ∀ node b, boxes.get? node = some b →
      ∃ role ref, Boots topo cat records node role ref ∧ BoxOf cat role ref b := by
  have hempty : ∀ stack ref, (Dict.empty : Dict Str OsRef).get? stack = some ref → Runs cat records stack ref :=
    fun stack ref hget => absurd hget (by simp)
  obtain ⟨refs, hrefs, hboxes⟩ := exec_bind_ok h
  have hruns := post_of_exec (wp_stackRefs records topo.labStacks.items .empty hempty) hrefs
  refine post_of_exec (wp_nodeBoxesFrom hruns hs.entry topo.nodes.items .empty (fun _ h => h) fun node b hget => ?_)
    hboxes
  exact absurd hget (by simp)

/-! ### The roles of a stack -/

/-- A node of the stack has the role, which is not shared. -/
def HasRole (topo : Topology) (stack role : Str) : Prop :=
  ∃ node spec, (node, spec) ∈ topo.nodes.items ∧ spec.box = some role ∧ role ∉ sharedRoles ∧
    stack ∈ owners topo node

/-- The list under a key has the element. -/
def Under (out : Dict Str (List Str)) (key a : Str) : Prop := ∃ as, out.get? key = some as ∧ a ∈ as

/-- The lists under the keys are of such elements. -/
def Among (K : List Str) (out : Dict Str (List Str)) : Prop := ∀ key a, Under out key a → a ∈ K

theorem among_addOwner {K : List Str} {stack : Str} (hstack : stack ∈ K) {out : Dict Str (List Str)}
    (hout : Among K out) (host : Str) : Among K (addOwner stack out host) := by
  intro key a ⟨as, hget, ha⟩
  rw [addOwner, Dict.get?_set] at hget
  split at hget
  · obtain rfl : _ = as := by simpa using hget
    rcases mem_addHost.mp ha with ha | rfl
    · cases hold : out.get? host with
      | none => simp [hold] at ha
      | some as => exact hout host a ⟨as, hold, by simpa [hold] using ha⟩
    · exact hstack
  · exact hout key a ⟨as, hget, ha⟩

theorem among_foldl {β : Type} {K : List Str} {f : Dict Str (List Str) → β → Dict Str (List Str)} :
    ∀ (bs : List β) {out : Dict Str (List Str)}, (∀ b ∈ bs, ∀ out, Among K out → Among K (f out b)) →
      Among K out → Among K (bs.foldl f out)
  | [], _, _, hout => hout
  | b :: bs, out, hf, hout =>
    among_foldl bs (fun b' hb' => hf b' (List.mem_cons_of_mem b hb')) (hf b List.mem_cons_self out hout)

/-- The owners of a node are stacks of the topology. -/
theorem mem_keys_of_owners {topo : Topology} {node stack : Str} (h : stack ∈ owners topo node) :
    stack ∈ topo.labStacks.keys := by
  have hnodes : Among topo.labStacks.keys (nodeStacks topo) := by
    refine among_foldl _ (fun s hs out hout => ?_) fun key a ⟨as, hget, ha⟩ => ?_
    · have hkey : s.1 ∈ topo.labStacks.keys := List.mem_map_of_mem hs
      refine among_foldl _ (fun g _ out hout => ?_) hout
      exact among_foldl _ (fun host _ out hout => among_addOwner hkey hout host) hout
    · rw [Dict.get?_mapValues] at hget
      obtain ⟨spec, -, rfl⟩ := Option.map_eq_some_iff.mp hget
      exact absurd ha (by simp)
  unfold owners at h
  cases hget : (nodeStacks topo).get? node with
  | none => simp [hget] at h
  | some as => exact hnodes node stack ⟨as, hget, by simpa [hget] using h⟩

theorem under_addRole {role key a : Str} {out : Dict Str (List Str)} {stack : Str} :
    Under (addRole role out stack) key a ↔ Under out key a ∨ key = stack ∧ a = role := by
  unfold Under addRole
  rw [Dict.get?_set]
  by_cases hkey : key = stack
  · subst hkey
    cases hget : out.get? key with
    | none => simp [mem_addHost]
    | some as => simp [mem_addHost]
  · simp [hkey]

theorem under_foldl_addRole {role key a : Str} : ∀ (ss : List Str) {out : Dict Str (List Str)},
    Under (ss.foldl (addRole role) out) key a ↔ Under out key a ∨ key ∈ ss ∧ a = role
  | [], out => by simp
  | s :: ss, out => by
    rw [List.foldl_cons, under_foldl_addRole ss, under_addRole, List.mem_cons]
    tauto

theorem mem_keys_foldl_addRole {role key : Str} : ∀ (ss : List Str) {out : Dict Str (List Str)},
    (∀ s ∈ ss, s ∈ out.keys) → (key ∈ (ss.foldl (addRole role) out).keys ↔ key ∈ out.keys)
  | [], out, _ => Iff.rfl
  | s :: ss, out, hss => by
    have hstep : ∀ k, k ∈ (addRole role out s).keys ↔ k ∈ out.keys := fun k => by
      rw [addRole, Dict.mem_keys_set]
      exact ⟨fun h => h.elim (fun heq => heq ▸ hss s List.mem_cons_self) id, .inr⟩
    rw [List.foldl_cons, mem_keys_foldl_addRole ss fun s' hs' => (hstep s').mpr (hss s' (List.mem_cons_of_mem s hs')),
      hstep]

section
variable {printable : Char → Bool} {topo : Topology} {cat : Catalog}

theorem wp_stackRolesFrom : ∀ (nodes : List (Str × Node)) (out : Dict Str (List Str)),
    (∀ p ∈ nodes, ∃ role, Declares cat p.2 role) → (∀ stack, stack ∈ out.keys ↔ stack ∈ topo.labStacks.keys) →
    (stackRolesFrom printable topo cat out nodes).wp False (fun roles =>
      (∀ stack, stack ∈ roles.keys ↔ stack ∈ topo.labStacks.keys) ∧ ∀ stack role, Under roles stack role ↔
        Under out stack role ∨ ∃ node spec, (node, spec) ∈ nodes ∧ spec.box = some role ∧ role ∉ sharedRoles ∧
          stack ∈ owners topo node) fun _ => False
  | [], out, _, hkeys => ⟨hkeys, fun stack role => by simp⟩
  | (node, spec) :: nodes, out, hdecl, hkeys => by
    obtain ⟨role, hbox, hne, hknown⟩ := hdecl _ List.mem_cons_self
    have hrest : ∀ p ∈ nodes, ∃ role, Declares cat p.2 role := fun p hp => hdecl p (List.mem_cons_of_mem _ hp)
    have hrole : nodeRole node spec = pure role := by
      obtain ⟨c, role', rfl⟩ := List.exists_cons_of_ne_nil hne
      rw [nodeRole, hbox]
    have hcheck : knownRole printable cat node role = pure role := if_pos hknown
    have hcons : ∀ stack role', (∃ node' spec', (node', spec') ∈ (node, spec) :: nodes ∧ spec'.box = some role' ∧
        role' ∉ sharedRoles ∧ stack ∈ owners topo node') ↔
        (role' = role ∧ role ∉ sharedRoles ∧ stack ∈ owners topo node) ∨ ∃ node' spec', (node', spec') ∈ nodes ∧
          spec'.box = some role' ∧ role' ∉ sharedRoles ∧ stack ∈ owners topo node' := by
      intro stack role'
      constructor
      · intro ⟨node', spec', hmem, hbox', hrest'⟩
        rcases List.mem_cons.mp hmem with heq | hmem
        · obtain ⟨rfl, rfl⟩ : node' = node ∧ spec' = spec := by simpa using heq
          obtain rfl : role = role' := Option.some.inj (hbox.symm.trans hbox')
          exact .inl ⟨rfl, hrest'⟩
        · exact .inr ⟨node', spec', hmem, hbox', hrest'⟩
      · rintro (⟨rfl, hrest'⟩ | ⟨node', spec', hmem, hrest'⟩)
        · exact ⟨node, spec, List.mem_cons_self, hbox, hrest'⟩
        · exact ⟨node', spec', List.mem_cons_of_mem _ hmem, hrest'⟩
    rw [stackRolesFrom, hrole]
    show (knownRole printable cat node role >>= _).wp _ _ _
    rw [hcheck]
    show (if role ∈ sharedRoles then _ else _ : V _).wp _ _ _
    split
    · rename_i hshared
      refine wp_mono id (fun roles hroles => ?_) (fun _ h => h) (wp_stackRolesFrom nodes out hrest hkeys)
      refine ⟨hroles.1, fun stack role' => ?_⟩
      rw [hroles.2, hcons]
      simp [hshared]
    · rename_i hshared
      have howners : ∀ s ∈ owners topo node, s ∈ out.keys := fun s hs => (hkeys s).mpr (mem_keys_of_owners hs)
      refine wp_mono id (fun roles hroles => ?_) (fun _ h => h) (wp_stackRolesFrom nodes _ hrest fun stack => ?_)
      · refine ⟨hroles.1, fun stack role' => ?_⟩
        rw [hroles.2, hcons, under_foldl_addRole]
        simp only [hshared, not_false_eq_true, true_and]
        tauto
      · rw [mem_keys_foldl_addRole _ howners, hkeys]

/-- **The roles of the stacks**, where every node declares one. -/
theorem stackRoles_law (printable : Char → Bool) (hdecl : ∀ p ∈ topo.nodes.items, ∃ role, Declares cat p.2 role) :
    ∃ roles, (stackRoles printable topo cat).exec = .ok roles ∧
      (∀ stack, stack ∈ roles.keys ↔ stack ∈ topo.labStacks.keys) ∧
      ∀ stack role, Under roles stack role ↔ HasRole topo stack role := by
  have hstart : ∀ stack, stack ∈ (topo.labStacks.mapValues fun _ _ => ([] : List Str)).keys ↔
      stack ∈ topo.labStacks.keys := fun stack => by simp [Dict.keys, Dict.mapValues]
  have hwp : (stackRoles printable topo cat).wp False _ fun _ => False :=
    wp_stackRolesFrom topo.nodes.items _ hdecl hstart
  obtain ⟨roles, hexec, hkeys, hroles⟩ := exec_ok_of_wp hwp
  refine ⟨roles, hexec, hkeys, fun stack role => ?_⟩
  rw [hroles]
  refine or_iff_right fun hunder => ?_
  obtain ⟨as, hget, ha⟩ := hunder
  rw [Dict.get?_mapValues] at hget
  obtain ⟨cfg, -, rfl⟩ := Option.map_eq_some_iff.mp hget
  exact absurd ha (by simp)

end

/-! ### All boxes of a topology -/

section
variable {printable : Char → Bool} {cat : Catalog} (hs : Sound cat)

theorem wp_addStacks_known (facts : Option HostFacts) : ∀ (stackRoles : List (Str × List Str))
    (out : Dict Str BoxEntry), (cat.addStacks printable facts out stackRoles).wp True
      (fun _ => ∀ s ∈ stackRoles, (cat.stackSpecs.get? s.1).isSome) fun _ => True
  | [], out => fun s h => absurd h (by simp)
  | (stack, roles) :: stackRoles, out => by
    refine wp_seq (wp_mono id (fun _ h => h) (fun _ _ => trivial) (wp_stackSpec stack)) fun spec hspec => ?_
    have hany : (cat.addRefs printable facts roles out spec.supported).wp True (fun _ => True) fun _ => True :=
      wp_of_exec (fun _ _ => trivial) (fun _ _ => trivial) fun _ => trivial
    refine wp_seq hany fun out' _ => ?_
    refine wp_mono id (fun _ h => ?_) (fun _ h => h) (wp_addStacks_known facts stackRoles out')
    intro s hmem
    rcases List.mem_cons.mp hmem with rfl | hmem
    · exact hspec ▸ rfl
    · exact h s hmem

include hs

theorem wp_addRoles_ok {ref : OsRef} (hdecl : (cat.oses.get? ref).isSome) : ∀ {roles : List Str}
    {out : Dict Str BoxEntry}, (∀ role ∈ roles, Bakes cat role ref) →
    (cat.addRoles printable ref out roles).wp False (fun _ => True) fun _ => False
  | [], out, _ => trivial
  | role :: roles, out, hbakes => by
    refine wp_seq (wp_box_of_bakes hs.entry (hbakes role List.mem_cons_self) hdecl) fun b _ => ?_
    exact wp_addRoles_ok hdecl fun r hr => hbakes r (List.mem_cons_of_mem role hr)

theorem wp_addRefs_ok {roles : List Str} : ∀ {refs : List OsRef} {out : Dict Str BoxEntry},
    (∀ r ∈ refs, (cat.oses.get? r).isSome ∧ ∀ role ∈ roles, Bakes cat role r) →
    (cat.addRefs printable none roles out refs).wp False (fun _ => True) fun _ => False
  | [], out, _ => trivial
  | ref :: refs, out, hrefs => by
    obtain ⟨hdecl, hbakes⟩ := hrefs ref List.mem_cons_self
    have hsorted : ∀ role ∈ sortedStrs roles, Bakes cat role ref := fun role hr =>
      hbakes role (by simpa [sortedStrs] using hr)
    show (cat.addRoles printable ref out (sortedStrs roles) >>= _).wp _ _ _
    refine wp_seq (wp_addRoles_ok hs hdecl hsorted) fun out' _ => ?_
    exact wp_addRefs_ok fun r hr => hrefs r (List.mem_cons_of_mem ref hr)

theorem wp_addStacks_ok : ∀ {stackRoles : List (Str × List Str)} {out : Dict Str BoxEntry},
    (∀ s ∈ stackRoles, (cat.stackSpecs.get? s.1).isSome) →
    (∀ p ∈ stackPairs cat none stackRoles, Bakes cat p.1 p.2) →
    (cat.addStacks printable none out stackRoles).wp False (fun _ => True) fun _ => False
  | [], out, _, _ => trivial
  | (stack, roles) :: stackRoles, out, hknown, hbakes => by
    obtain ⟨spec, hspec⟩ := Option.isSome_iff_exists.mp (hknown _ List.mem_cons_self)
    have hstack : cat.stackSpec printable stack = pure spec := by rw [Catalog.stackSpec, hspec]
    have hrefs : ∀ r ∈ spec.supported, (cat.oses.get? r).isSome ∧ ∀ role ∈ roles, Bakes cat role r := fun r hr =>
      ⟨(hs.stack stack spec hspec).declared r hr, fun role hrole => hbakes (role, r)
        ⟨stack, roles, spec, List.mem_cons_self, hspec, hrole, hr, fun f hf => absurd hf (by simp)⟩⟩
    rw [Catalog.addStacks, hstack]
    show (cat.addRefs printable none roles out spec.supported >>= _).wp _ _ _
    refine wp_seq (wp_addRefs_ok hs hrefs) fun out' _ => ?_
    refine wp_addStacks_ok (fun s hmem => hknown s (List.mem_cons_of_mem _ hmem)) fun p hp => ?_
    obtain ⟨stack', roles', spec', hmem, hrest⟩ := hp
    exact hbakes p ⟨stack', roles', spec', List.mem_cons_of_mem _ hmem, hrest⟩

theorem wp_addShared_ok : ∀ {roles : List Str} {out : Dict Str BoxEntry}, (∀ r ∈ roles, r ∈ sharedRoles) →
    (cat.addShared printable out roles).wp False (fun _ => True) fun _ => False
  | [], out, _ => trivial
  | role :: roles, out, hroles => by
    have hrole := hroles role List.mem_cons_self
    refine wp_seq (wp_sharedOs hrole) fun ref href => ?_
    subst href
    refine wp_seq (wp_box_of_bakes hs.entry (hs.shared role hrole) (hs.sharedRef_declared role)) fun b _ => ?_
    exact wp_addShared_ok fun r hr => hroles r (List.mem_cons_of_mem role hr)

/-- All boxes can be enumerated just when every stack is known and bakes its roles. -/
theorem allBoxes_exec_iff (stackRoles : Dict Str (List Str)) :
    (∃ bs, (cat.allBoxes printable none stackRoles).exec = .ok bs) ↔
      (∀ s ∈ stackRoles.items, (cat.stackSpecs.get? s.1).isSome) ∧
        ∀ p ∈ stackPairs cat none stackRoles.items, Bakes cat p.1 p.2 := by
  constructor
  · intro ⟨bs, hexec⟩
    obtain ⟨out, -, hholds⟩ := post_of_exec (wp_allBoxes hs none stackRoles) hexec
    refine ⟨?_, fun p hp => ?_⟩
    · obtain ⟨shared, -, hrest⟩ := exec_bind_ok hexec
      obtain ⟨out', hstacks, -⟩ := exec_bind_ok hrest
      exact post_of_exec (wp_addStacks_known none stackRoles.items shared) hstacks
    · obtain ⟨b, -, hb⟩ := hholds.complete p (.inr hp)
      exact hb.bakes
  · intro ⟨hknown, hbakes⟩
    have hwp : (cat.allBoxes printable none stackRoles).wp False (fun _ => True) fun _ => False := by
      refine wp_seq (wp_addShared_ok hs fun _ h => h) fun shared _ => ?_
      exact wp_seq (wp_addStacks_ok hs hknown hbakes) fun out _ => trivial
    obtain ⟨bs, hexec, -⟩ := exec_ok_of_wp hwp
    exact ⟨bs, hexec⟩

end

/-- The pairs of the stacks' roles and of the versions that the stacks support. -/
def topologyPairs (topo : Topology) (cat : Catalog) : Set (Str × OsRef) :=
  {p | ∃ stack spec, HasRole topo stack p.1 ∧ cat.stackSpecs.get? stack = some spec ∧ p.2 ∈ spec.supported}

/-- Every stack is in the catalog, and its roles bake on all that it supports. -/
def Enumerable (topo : Topology) (cat : Catalog) : Prop :=
  (∀ stack ∈ topo.labStacks.keys, (cat.stackSpecs.get? stack).isSome) ∧
    ∀ p ∈ topologyPairs topo cat, Bakes cat p.1 p.2

/-- **All boxes of a topology**: the shared ones, and each role of each stack on
each version that the stack supports. -/
theorem allBoxes_of_topology (printable : Char → Bool) {topo : Topology} {cat : Catalog} (hs : Sound cat)
    (hdecl : ∀ p ∈ topo.nodes.items, ∃ role, Declares cat p.2 role) :
    ∃ roles, (stackRoles printable topo cat).exec = .ok roles ∧
      ((∃ bs, (cat.allBoxes printable none roles).exec = .ok bs) ↔ Enumerable topo cat) ∧
      ∀ bs, (cat.allBoxes printable none roles).exec = .ok bs → ∀ n, n ∈ bs.map BoxEntry.name ↔
        ∃ p ∈ sharedPairs cat ∪ topologyPairs topo cat, n = boxName p.1 p.2 := by
  obtain ⟨roles, hexec, hkeys, hroles⟩ := stackRoles_law printable hdecl
  have hpairs : stackPairs cat none roles.items = topologyPairs topo cat := by
    ext p
    constructor
    · intro ⟨stack, rs, spec, hmem, hspec, hrole, hsupp, _⟩
      exact ⟨stack, spec, (hroles stack p.1).mp ⟨rs, Dict.get?_eq_some.mpr hmem, hrole⟩, hspec, hsupp⟩
    · intro ⟨stack, spec, hhas, hspec, hsupp⟩
      obtain ⟨rs, hget, hrole⟩ := (hroles stack p.1).mpr hhas
      exact ⟨stack, rs, spec, Dict.get?_eq_some.mp hget, hspec, hrole, hsupp, fun f hf => absurd hf (by simp)⟩
  refine ⟨roles, hexec, ?_, fun bs hbs n => ?_⟩
  · rw [allBoxes_exec_iff hs, hpairs]
    refine and_congr_left fun _ => ?_
    constructor
    · intro hknown stack hstack
      obtain ⟨s, hmem, rfl⟩ := List.mem_map.mp ((hkeys stack).mpr hstack)
      exact hknown s hmem
    · intro hknown s hmem
      exact hknown s.1 ((hkeys s.1).mp (List.mem_map_of_mem hmem))
  · obtain ⟨out, rfl, hholds⟩ := post_of_exec (wp_allBoxes hs none roles) hbs
    rw [← hpairs]
    constructor
    · intro hn
      obtain ⟨b, hb, rfl⟩ := List.mem_map.mp hn
      obtain ⟨⟨key, b'⟩, hitem, rfl⟩ := List.mem_map.mp hb
      obtain ⟨p, hp, -, hbox⟩ := hholds.sound key b' (Dict.get?_eq_some.mpr hitem)
      exact ⟨p, hp, hbox.name⟩
    · intro ⟨p, hp, hn⟩
      obtain ⟨b, hget, hbox⟩ := hholds.complete p hp
      refine List.mem_map.mpr ⟨b, List.mem_map.mpr ⟨_, Dict.get?_eq_some.mp hget, rfl⟩, ?_⟩
      rw [hn, hbox.name]

end Lab
end MqResiliency
