/-
# What the vms phase boots, and how

The steps of the vms phase boot a list of guests (`BootsAll`) if their targets,
one step after the other, are the guests in order, a step has at most as many
as the batch size and only the last fewer, and the targets of a step without
`--no-parallel` boot different boxes.

`boots_or_refuses`: where the box of every node can be told, the phase boots
all VMs of the stack, each once, those of the `infra` group first. It refuses
if one of them is no node of the topology: the groups may name such a host
(`boxless`), and it has no box.

Key theorems: `boots_or_refuses`, `refuses_boxless`.
-/
import MqResiliency.Lab.NodeLaw
import MqResiliency.Lab.PhasesLaw
import MqResiliency.Lab.LoadLaw

namespace MqResiliency
namespace Lab

open Py Conv

/-! ### Batches -/

section
variable {size : ℕ} (hsize : 0 < size)

theorem batchGuests_nil (hsize : 0 < size) : batchGuests [] size = [] := by
  have hzero : (0 + size - 1) / size = 0 := by
    apply Nat.div_eq_of_lt
    omega
  unfold batchGuests
  rw [List.length_nil, hzero]
  rfl

/-- The first batch, and the batches of the rest. -/
theorem batchGuests_cons (hsize : 0 < size) {guests : List Str} (h : guests ≠ []) :
    batchGuests guests size = guests.take size :: batchGuests (guests.drop size) size := by
  have hlen : 0 < guests.length := List.length_pos_iff.mpr h
  have hcount : (guests.length + size - 1) / size = ((guests.drop size).length + size - 1) / size + 1 := by
    rw [List.length_drop]
    by_cases hle : size ≤ guests.length
    · have hsum : guests.length + size - 1 = guests.length - size + size - 1 + size := by omega
      rw [hsum, Nat.add_div_right _ hsize]
    · have hzero : (guests.length - size + size - 1) / size = 0 := by
        apply Nat.div_eq_of_lt
        omega
      have hsum : guests.length + size - 1 = guests.length - 1 + size := by omega
      have hone : (guests.length - 1) / size = 0 := by
        apply Nat.div_eq_of_lt
        omega
      rw [hzero, hsum, Nat.add_div_right _ hsize, hone]
  unfold batchGuests
  rw [hcount, List.range_succ_eq_map, List.map_cons, List.map_map, Nat.zero_mul, List.drop_zero]
  congr 1
  apply List.map_congr_left
  intro i _
  simp only [Function.comp_apply, List.drop_drop]
  rw [Nat.succ_mul, Nat.add_comm]

theorem length_of_mem_batchGuests {guests batch : List Str} (h : batch ∈ batchGuests guests size) :
    batch.length ≤ size := by
  obtain ⟨i, -, rfl⟩ := List.mem_map.mp h
  exact List.length_take_le size _

/-- One batch after the other, these are the guests. -/
theorem flatten_batchGuests (hsize : 0 < size) (guests : List Str) : (batchGuests guests size).flatten = guests := by
  by_cases h : guests = []
  · rw [h, batchGuests_nil hsize]
    rfl
  · have hlen : 0 < guests.length := List.length_pos_iff.mpr h
    rw [batchGuests_cons hsize h, List.flatten_cons, flatten_batchGuests hsize (guests.drop size),
      List.take_append_drop]
termination_by guests.length
decreasing_by
  rw [List.length_drop]
  omega

/-- All batches but the last are full. -/
theorem length_of_mem_dropLast (hsize : 0 < size) (guests : List Str) :
    ∀ batch ∈ (batchGuests guests size).dropLast, batch.length = size := by
  intro batch hbatch
  by_cases h : guests = []
  · rw [h, batchGuests_nil hsize] at hbatch
    exact absurd hbatch (by simp)
  · have hlen : 0 < guests.length := List.length_pos_iff.mpr h
    rw [batchGuests_cons hsize h] at hbatch
    by_cases hrest : guests.drop size = []
    · rw [hrest, batchGuests_nil hsize] at hbatch
      exact absurd hbatch (by simp)
    · -- guests are left, so the first batch is full
      have hmore : size < guests.length := by simpa using hrest
      rw [batchGuests_cons hsize hrest, List.dropLast_cons_cons, ← batchGuests_cons hsize hrest] at hbatch
      rcases List.mem_cons.mp hbatch with rfl | hbatch
      · rw [List.length_take]
        omega
      · exact length_of_mem_dropLast hsize (guests.drop size) batch hbatch
termination_by guests.length
decreasing_by
  rw [List.length_drop]
  omega

end

/-! ### The boxes of a batch -/

/-- All of a list is mapped, or an element of it raises. -/
theorem mapM_ok_or_error {α β ε : Type} (f : α → Except ε β) : ∀ as : List α,
    (∃ bs, as.mapM f = .ok bs ∧ as.map f = bs.map .ok) ∨ ∃ a ∈ as, ∃ e, f a = .error e ∧ as.mapM f = .error e
  | [] => .inl ⟨[], rfl, rfl⟩
  | a :: as => by
    rw [List.mapM_cons, List.map_cons]
    cases ha : f a with
    | error e => exact .inr ⟨a, List.mem_cons_self, e, ha, rfl⟩
    | ok b =>
      obtain ⟨bs, hbs, hall⟩ | ⟨a', hmem, e, he, hraise⟩ := mapM_ok_or_error f as
      · exact .inl ⟨b :: bs, by rw [hbs]; rfl, by rw [hall]; rfl⟩
      · exact .inr ⟨a', List.mem_cons_of_mem a hmem, e, he, by rw [hraise]; rfl⟩

/-- The refusal of a guest that is no node. -/
def boxless (guest : Str) : Str :=
  "guest ".toList ++ guest ++ " is not a node in lab/topology.yaml — add it under nodes:".toList

/-- The box that a guest boots, if it is a node. -/
def bootedBox (boxes : Dict Str BoxEntry) (guest : Str) : Option Str := (boxes.get? guest).map BoxEntry.name

section
variable {boxes : Dict Str BoxEntry}

theorem guestBox_toOption (guest : Str) : (guestBox boxes guest).toOption = bootedBox boxes guest := by
  unfold guestBox bootedBox
  cases boxes.get? guest <;> rfl

theorem guestBox_error {guest e : Str} (h : guestBox boxes guest = .error e) :
    guest ∉ boxes.keys ∧ e = boxless guest := by
  unfold guestBox at h
  split at h
  · cases h
  · rename_i hnone
    exact ⟨Dict.get?_eq_none.mp hnone, (Except.error.inj h).symm⟩

/-- The step of a batch, or the refusal of a guest of it. -/
theorem batchStep_ok_or_error (boxes : Dict Str BoxEntry) (batch : List Str) :
    (∃ step, batchStep boxes batch = .ok step ∧ (∀ g ∈ batch, g ∈ boxes.keys) ∧ step.guests = batch ∧
      ("--no-parallel".toList ∉ step.flags → (batch.map (bootedBox boxes)).Nodup)) ∨
    ∃ g ∈ batch, g ∉ boxes.keys ∧ batchStep boxes batch = .error (boxless g) := by
  unfold batchStep batchSharesBox
  obtain ⟨names, hnames, hall⟩ | ⟨g, hg, e, he, hraise⟩ := mapM_ok_or_error (guestBox boxes) batch
  · have hbooted : batch.map (bootedBox boxes) = names.map some := by
      have hopt := congrArg (List.map Except.toOption) hall
      rw [List.map_map, List.map_map] at hopt
      calc batch.map (bootedBox boxes) = batch.map (Except.toOption ∘ guestBox boxes) :=
            List.map_congr_left fun g _ => (guestBox_toOption g).symm
        _ = names.map (Except.toOption ∘ Except.ok) := hopt
        _ = names.map some := rfl
    left
    refine ⟨⟨if decide (¬ names.Nodup) then ["--no-parallel".toList] else [], batch⟩, ?_, ?_, rfl, ?_⟩
    · rw [hnames]
      rfl
    · intro g hg
      have hmem : bootedBox boxes g ∈ names.map some := hbooted ▸ List.mem_map_of_mem hg
      obtain ⟨n, -, hn⟩ := List.mem_map.mp hmem
      obtain ⟨b, hb, -⟩ := Option.map_eq_some_iff.mp hn.symm
      exact Dict.mem_keys_of_get? hb
    · intro hflag
      by_cases hdup : names.Nodup
      · rw [hbooted]
        exact hdup.map (Option.some_injective Str)
      · simp [hdup] at hflag
  · right
    obtain ⟨hnot, rfl⟩ := guestBox_error he
    exact ⟨g, hg, hnot, by rw [hraise]; rfl⟩

end

/-! ### The nodes that have a box -/

theorem wp_keys_nodeBoxesFrom {printable : Char → Bool} {topo : Topology} {cat : Catalog} {refs : Dict Str OsRef} :
    ∀ (nodes : List (Str × Node)) (out : Dict Str BoxEntry),
      (nodeBoxesFrom printable topo cat refs out nodes).wp True
        (fun boxes => ∀ g, g ∈ boxes.keys ↔ g ∈ out.keys ∨ g ∈ nodes.map Prod.fst) fun _ => True
  | [], out => fun g => by simp
  | (node, spec) :: nodes, out => by
    refine wp_seq (wp_trivial _) fun declared _ => ?_
    refine wp_seq (wp_trivial _) fun role _ => ?_
    refine wp_seq (wp_trivial _) fun ref _ => ?_
    refine wp_seq (wp_trivial _) fun b _ => ?_
    refine wp_mono id (fun boxes hboxes g => ?_) (fun _ h => h) (wp_keys_nodeBoxesFrom nodes (out.set node b))
    rw [hboxes g, Dict.mem_keys_set, List.map_cons, List.mem_cons]
    tauto

/-- The nodes have boxes, and no other host has. -/
theorem mem_keys_of_nodeBoxes {printable : Char → Bool} {topo : Topology} {cat : Catalog}
    {records : Str → V (Option OsRef)} {boxes : Dict Str BoxEntry}
    (h : (nodeBoxes printable topo cat records).exec = .ok boxes) (g : Str) :
    g ∈ boxes.keys ↔ g ∈ topo.nodes.keys := by
  obtain ⟨refs, -, hboxes⟩ := exec_bind_ok h
  have hkeys := post_of_exec (wp_keys_nodeBoxesFrom topo.nodes.items .empty) hboxes g
  rw [hkeys]
  exact or_iff_right (by simp [Dict.keys, Dict.empty])

/-! ### The steps of the phase -/

/-- The steps boot these VMs, each once, those that lead first, at most `size`
at a time and no two of one box in parallel. -/
structure BootsAll (boxes : Dict Str BoxEntry) (size : ℕ) (lead vms : List Str) (steps : List VagrantUp) : Prop where
  order : steps.flatMap VagrantUp.guests = vms.filter (· ∈ lead) ++ vms.filter (· ∉ lead)
  once : (steps.flatMap VagrantUp.guests).Nodup
  atMost : ∀ step ∈ steps, step.guests.length ≤ size
  full : ∀ step ∈ steps.dropLast, step.guests.length = size
  apart : ∀ step ∈ steps, "--no-parallel".toList ∉ step.flags → (step.guests.map (bootedBox boxes)).Nodup

section
variable (topo : Topology) (stack : Stack) (noDr : Bool)

theorem nodup_allVms (name : Str) : (allVms topo name noDr).Nodup := by
  apply nodup_addHosts
  unfold stackMembersEffective stackMembers
  cases topo.labStacks.get? name with
  | none => exact List.nodup_nil
  | some cfg =>
    cases noDr with
    | false => exact topo.nodup_hostsOf cfg.groups
    | true => exact (topo.nodup_hostsOf cfg.groups).filter _

/-- The hosts that boot first are those of the `infra` group. -/
theorem bootOrder_eq : bootOrder topo stack noDr =
    (allVms topo stack.name noDr).filter (· ∈ topo.hosts "infra".toList) ++
      (allVms topo stack.name noDr).filter (· ∉ topo.hosts "infra".toList) := by
  have hlead : ∀ g, g ∈ nonMqCommonsHosts topo ↔ g ∈ topo.hosts "infra".toList := fun g => by
    rw [nonMqCommonsHosts, topo.mem_hostsOf]
    simp
  unfold bootOrder
  simp only [hlead]

theorem nodup_bootOrder : (bootOrder topo stack noDr).Nodup := by
  unfold bootOrder
  simp only [decide_not]
  rw [(List.filter_append_perm _ _).nodup_iff]
  exact nodup_allVms topo noDr stack.name

variable {boxes : Dict Str BoxEntry}

/-- The steps of some batches, or the refusal of a guest of one. -/
theorem batchSteps_ok_or_error (boxes : Dict Str BoxEntry) (batches : List (List Str)) :
    (∃ steps, batches.mapM (batchStep boxes) = .ok steps ∧ steps.map VagrantUp.guests = batches ∧
      (∀ g ∈ batches.flatten, g ∈ boxes.keys) ∧ ∀ step ∈ steps,
        "--no-parallel".toList ∉ step.flags → (step.guests.map (bootedBox boxes)).Nodup) ∨
    ∃ g ∈ batches.flatten, g ∉ boxes.keys ∧ batches.mapM (batchStep boxes) = .error (boxless g) := by
  obtain ⟨steps, hsteps, hall⟩ | ⟨batch, hbatch, e, he, hraise⟩ := mapM_ok_or_error (batchStep boxes) batches
  · left
    refine ⟨steps, hsteps, guests_of_mapM hsteps, fun g hg => ?_, fun step hstep => ?_⟩
    · obtain ⟨batch, hbatch, hg⟩ := List.mem_flatten.mp hg
      obtain ⟨step, -, hok⟩ := List.mem_map.mp (hall ▸ List.mem_map_of_mem hbatch : batchStep boxes batch ∈ _)
      obtain ⟨-, -, hknown, -⟩ | ⟨g', -, -, herr⟩ := batchStep_ok_or_error boxes batch
      · exact hknown g hg
      · rw [herr] at hok
        cases hok
    · obtain ⟨batch, -, hok⟩ := List.mem_map.mp (hall ▸ List.mem_map_of_mem hstep : Except.ok step ∈ batches.map (batchStep boxes))
      obtain ⟨step', hok', -, hguests, hapart⟩ | ⟨g', -, -, herr⟩ := batchStep_ok_or_error boxes batch
      · obtain rfl : step' = step := Except.ok.inj (hok'.symm.trans hok)
        exact hguests ▸ hapart
      · rw [herr] at hok
        cases hok
  · right
    obtain ⟨step, hok, -⟩ | ⟨g, hg, hnot, herr⟩ := batchStep_ok_or_error boxes batch
    · rw [hok] at he
      cases he
    · obtain rfl : boxless g = e := Except.error.inj (herr.symm.trans he)
      exact ⟨g, List.mem_flatten.mpr ⟨batch, hbatch, hg⟩, hnot, hraise⟩

/-- **The vms phase boots every VM of the stack, or refuses one** that is no
node of the topology. -/
theorem boots_or_refuses {printable : Char → Bool} {cat : Catalog} {records : Str → V (Option OsRef)}
    (h : (nodeBoxes printable topo cat records).exec = .ok boxes) {bootBatch : ℕ} (hsize : 0 < bootBatch) :
    ((∀ g ∈ allVms topo stack.name noDr, g ∈ topo.nodes.keys) →
      ∃ steps, vmsBuildSteps topo stack boxes bootBatch noDr = .ok steps ∧
        BootsAll boxes bootBatch (topo.hosts "infra".toList) (allVms topo stack.name noDr) steps) ∧
    ((∃ g ∈ allVms topo stack.name noDr, g ∉ topo.nodes.keys) →
      ∃ g ∈ allVms topo stack.name noDr, g ∉ topo.nodes.keys ∧
        vmsBuildSteps topo stack boxes bootBatch noDr = .error (boxless g)) := by
  have hflat : (batchGuests (bootOrder topo stack noDr) bootBatch).flatten = bootOrder topo stack noDr :=
    flatten_batchGuests hsize _
  have hmem : ∀ g, g ∈ (batchGuests (bootOrder topo stack noDr) bootBatch).flatten ↔
      g ∈ allVms topo stack.name noDr := fun g => by rw [hflat, mem_bootOrder]
  unfold vmsBuildSteps
  obtain ⟨steps, hsteps, hguests, hknown, hapart⟩ | ⟨g, hg, hnot, hraise⟩ :=
    batchSteps_ok_or_error boxes (batchGuests (bootOrder topo stack noDr) bootBatch)
  · constructor
    · intro _
      have horder : steps.flatMap VagrantUp.guests = bootOrder topo stack noDr := by
        rw [List.flatMap_def, hguests, hflat]
      refine ⟨steps, hsteps, ?_, ?_, fun step hstep => ?_, fun step hstep => ?_, hapart⟩
      · rw [horder, bootOrder_eq]
      · rw [horder]
        exact nodup_bootOrder topo stack noDr
      · apply length_of_mem_batchGuests
        rw [← hguests]
        exact List.mem_map_of_mem hstep
      · apply length_of_mem_dropLast hsize (bootOrder topo stack noDr)
        rw [← hguests, ← List.map_dropLast]
        exact List.mem_map_of_mem hstep
    · intro ⟨g, hg, hnot⟩
      exact absurd ((mem_keys_of_nodeBoxes h g).mp (hknown g ((hmem g).mpr hg))) hnot
  · have hvm := (hmem g).mp hg
    have hnode : g ∉ topo.nodes.keys := fun hk => hnot ((mem_keys_of_nodeBoxes h g).mpr hk)
    exact ⟨fun hall => absurd (hall g hvm) hnode, fun _ => ⟨g, hvm, hnode, hraise⟩⟩

end

/-! ### A stack of one node, and the commons -/

/-- The commons are an observer and a resolver. -/
def commonsTopology (nodes : List (Str × Node)) : Topology where
  nodes := .ofList nodes
  groups := .ofList [("nativeha".toList, ["n1".toList]), ("obs_box".toList, ["obs".toList]),
    ("infra".toList, ["dns".toList])]
  labStacks := .ofList [("nativeha".toList, ⟨some "ubuntu".toList, none, ["nativeha".toList], []⟩)]
  commons := ["obs_box".toList, "infra".toList]
  memoryBacking := none

def nativehaStack : Stack := ⟨"nativeha".toList, none, false, 0⟩

def noRecord : Str → V (Option OsRef) := fun _ => pure none

def threeNodes : List (Str × Node) := [("n1".toList, ⟨some "pcmk".toList⟩), ("obs".toList, ⟨some "obs".toList⟩),
  ("dns".toList, ⟨some "infra".toList⟩)]

theorem boots_three : ∃ cat boxes steps, (Load.loadCatalog Load.openFiles Load.ubuntuCatalog).exec = .ok cat ∧
    (nodeBoxes Load.openFiles.printable (commonsTopology threeNodes) cat noRecord).exec = .ok boxes ∧
    vmsBuildSteps (commonsTopology threeNodes) nativehaStack boxes 2 false = .ok steps ∧
    BootsAll boxes 2 ["dns".toList] ["n1".toList, "obs".toList, "dns".toList] steps := by
  have hok : (Load.loadCatalog Load.openFiles Load.ubuntuCatalog >>= fun cat =>
      nodeBoxes Load.openFiles.printable (commonsTopology threeNodes) cat noRecord).exec.isOk = true := by
    decide +kernel
  obtain ⟨boxes, hexec⟩ := exec_of_isOk hok
  obtain ⟨cat, hcat, hboxes⟩ := exec_bind_ok hexec
  obtain ⟨steps, hsteps, hall⟩ := (boots_or_refuses (commonsTopology threeNodes) nativehaStack false hboxes
    (by decide : 0 < 2)).1 (by decide +kernel)
  exact ⟨cat, boxes, steps, hcat, hboxes, hsteps, hall⟩

/-- The observer is in a group, and is no node: the boxes are told, and nothing boots. -/
theorem refuses_boxless : ∃ cat boxes, (Load.loadCatalog Load.openFiles Load.ubuntuCatalog).exec = .ok cat ∧
    (nodeBoxes Load.openFiles.printable (commonsTopology (threeNodes.eraseIdx 1)) cat noRecord).exec = .ok boxes ∧
    ¬ ∃ steps, vmsBuildSteps (commonsTopology (threeNodes.eraseIdx 1)) nativehaStack boxes 2 false = .ok steps ∧
      BootsAll boxes 2 ["dns".toList] ["n1".toList, "obs".toList, "dns".toList] steps := by
  have hok : (Load.loadCatalog Load.openFiles Load.ubuntuCatalog >>= fun cat =>
      nodeBoxes Load.openFiles.printable (commonsTopology (threeNodes.eraseIdx 1)) cat noRecord >>= fun boxes =>
        pure (vmsBuildSteps (commonsTopology (threeNodes.eraseIdx 1)) nativehaStack boxes 2 false).isOk).exec =
      .ok false := by
    decide +kernel
  obtain ⟨cat, hcat, hrest⟩ := exec_bind_ok hok
  obtain ⟨boxes, hboxes, hnone⟩ := exec_bind_ok hrest
  refine ⟨cat, boxes, hcat, hboxes, fun ⟨steps, hsteps, _⟩ => ?_⟩
  rw [hsteps] at hnone
  cases hnone

end Lab
end MqResiliency
