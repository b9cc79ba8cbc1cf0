/-
# Where a bootstrap resumes

A bootstrap resumes (`Resumes`) if it starts at the first phase of which not
all is up that the phase builds under the flag, and selects nothing if all is.

Without `--no-dr` it does. With it the probe of the vms phase asks for more
than the phase builds, the guests of the DR groups; `resumes_iff` says exactly
in which worlds that shows. What the phase does build are the guests of
`allVms` under the flag (`mem_vmsBuildSteps`).
-/
import MqResiliency.Lab.Phases

namespace MqResiliency
namespace Lab

open Py

/-! ### What the vms phase boots -/

theorem mem_batchGuests {guests : List Str} {size : ℕ} (hsize : 0 < size) {g : Str} :
    (∃ batch ∈ batchGuests guests size, g ∈ batch) ↔ g ∈ guests := by
  unfold batchGuests
  constructor
  · intro ⟨batch, hb, hg⟩
    obtain ⟨i, _, rfl⟩ := List.mem_map.mp hb
    exact List.mem_of_mem_drop (List.mem_of_mem_take hg)
  · intro hg
    obtain ⟨n, hn, rfl⟩ := List.mem_iff_getElem.mp hg
    -- the guest at `n` is in the batch `n / size`, at `n % size`
    have hlt : n % size < size := Nat.mod_lt n hsize
    have hsplit : n / size * size + n % size = n := Nat.div_add_mod' n size
    refine ⟨(guests.drop (n / size * size)).take size, List.mem_map.mpr ⟨n / size, ?_, rfl⟩, ?_⟩
    · have hle : n / size + 1 ≤ (guests.length + size - 1) / size := by
        rw [Nat.le_div_iff_mul_le hsize, Nat.add_mul]
        omega
      exact List.mem_range.mpr (by omega)
    · refine List.mem_iff_getElem.mpr ⟨n % size, ?_, ?_⟩
      · rw [List.length_take, List.length_drop]
        omega
      · rw [List.getElem_take, List.getElem_drop]
        simp only [hsplit]

section
variable {labNets : List Str} {topo : Topology} {stack : Stack}

theorem mem_bootOrder {noDr : Bool} {g : Str} :
    g ∈ bootOrder topo stack noDr ↔ g ∈ allVms topo stack.name noDr := by
  unfold bootOrder
  by_cases hg : g ∈ nonMqCommonsHosts topo <;> simp [hg]

theorem guests_of_mapM {boxes : Dict Str BoxEntry} : ∀ {batches : List (List Str)} {steps : List VagrantUp},
    batches.mapM (batchStep boxes) = .ok steps → steps.map VagrantUp.guests = batches
  | [], steps, h => by
    cases h
    rfl
  | batch :: batches, steps, h => by
    rw [List.mapM_cons] at h
    cases hb : batchStep boxes batch with
    | error e =>
      rw [hb] at h
      cases h
    | ok step =>
      cases hbs : batches.mapM (batchStep boxes) with
      | error e =>
        rw [hb, hbs] at h
        cases h
      | ok steps' =>
        rw [hb, hbs] at h
        cases h
        have hguests : step.guests = batch := by
          unfold batchStep at hb
          cases hs : batchSharesBox boxes batch with
          | error e =>
            rw [hs] at hb
            cases hb
          | ok shared =>
            rw [hs] at hb
            cases hb
            rfl
        rw [List.map_cons, hguests, guests_of_mapM hbs]

/-- **The vms phase boots the guests of its flag.** -/
theorem mem_vmsBuildSteps {boxes : Dict Str BoxEntry} {bootBatch : ℕ} {noDr : Bool} {steps : List VagrantUp}
    (hsize : 0 < bootBatch) (h : vmsBuildSteps topo stack boxes bootBatch noDr = .ok steps) {g : Str} :
    (∃ step ∈ steps, g ∈ step.guests) ↔ g ∈ allVms topo stack.name noDr := by
  rw [← mem_bootOrder, ← mem_batchGuests hsize, ← guests_of_mapM h]
  simp

/-! ### The first phase that is not up -/

/-- What is selected are the phases from the first on that is not up, if any is. -/
def Resumes (labNets : List Str) (topo : Topology) (stack : Stack) (noDr : Bool) (s : States)
    (selected : List Phase) : Prop :=
  ∃ done, phases = done ++ selected ∧ (∀ p ∈ done, p.up labNets topo stack noDr s) ∧
    ∀ p, selected.head? = some p → p.up labNets topo stack noDr s = false

/-- Where all is up, nothing is selected. -/
theorem Resumes.eq_nil {noDr : Bool} {s : States} {selected : List Phase}
    (h : Resumes labNets topo stack noDr s selected) (hup : ∀ p : Phase, p.up labNets topo stack noDr s) :
    selected = [] := by
  obtain ⟨done, _, _, hhead⟩ := h
  cases selected with
  | nil => rfl
  | cons p ps => exact absurd (hhead p rfl) (by simp [hup p])

theorem dropWhile_eq_of_append {α : Type} {up : α → Bool} : ∀ {done selected : List α}, (∀ a ∈ done, up a) →
    (∀ a, selected.head? = some a → up a = false) → (done ++ selected).dropWhile up = selected
  | [], [], _, _ => rfl
  | [], a :: _, _, h => List.dropWhile_cons_of_neg (by simp [h a rfl])
  | a :: done, selected, hd, h => by
    rw [List.cons_append, List.dropWhile_cons_of_pos (hd a List.mem_cons_self)]
    exact dropWhile_eq_of_append (fun b hb => hd b (List.mem_cons_of_mem a hb)) h

theorem resumes_iff_dropWhile {noDr : Bool} {s : States} {selected : List Phase} :
    Resumes labNets topo stack noDr s selected ↔ selected = phases.dropWhile (·.up labNets topo stack noDr s) := by
  constructor
  · intro ⟨done, heq, hdone, hhead⟩
    rw [heq]
    exact (dropWhile_eq_of_append hdone hhead).symm
  · intro h
    refine ⟨phases.takeWhile (·.up labNets topo stack noDr s), ?_, fun p hp => ?_, fun p hp => ?_⟩
    · rw [h, List.takeWhile_append_dropWhile]
    · exact List.mem_takeWhile_imp hp
    · rw [h] at hp
      have := List.head?_dropWhile_not (·.up labNets topo stack noDr s) phases
      rw [hp] at this
      simpa using this

/-- The code starts at the first phase whose probe is not satisfied. -/
theorem selectPhases_eq (s : States) : selectPhases labNets topo stack s none none =
    phases.dropWhile (·.satisfied labNets topo stack s) := by
  rw [List.dropWhile_eq_drop_findIdx_not]
  unfold selectPhases
  dsimp only
  split
  · rename_i hnone
    have hlen := List.findIdx?_eq_none_iff_findIdx_eq.mp hnone
    rw [hlen, List.drop_length]
  · rename_i start hstart
    rw [(List.findIdx?_eq_some_iff_findIdx_eq.mp hstart).2]

/-! ### The guests of the DR groups -/

/-- What the probe of the vms phase asks for besides the guests of `--no-dr`. -/
theorem vmsSatisfied_iff {s : States} : vmsSatisfied topo stack s ↔
    allRunning s.domains (allVms topo stack.name true) ∧
      ∀ g ∈ (stackMembers topo stack.name).getD [], g ∈ stackDrHosts topo stack.name →
        classify s.domains g = .running := by
  simp only [vmsSatisfied, allRunning, List.all_eq_true, decide_eq_true_eq, mem_allVms]
  unfold stackMembersEffective
  cases hm : stackMembers topo stack.name with
  | none => simp
  | some ms =>
    simp only [Option.map_some, Option.getD_some, Bool.false_eq_true, if_false, if_true, List.mem_filter,
      decide_eq_true_eq]
    constructor
    · intro h
      exact ⟨fun g hg => h g (hg.imp_left And.left), fun g hg _ => h g (.inl hg)⟩
    · intro ⟨hno, hdr⟩ g hg
      by_cases hd : g ∈ ms ∧ g ∈ stackDrHosts topo stack.name
      · exact hdr g hd.1 hd.2
      · exact hno g (hg.imp_left fun hms => ⟨hms, fun h => hd ⟨hms, h⟩⟩)

/-- The probes of the other phases ask for what the phases build. -/
theorem satisfied_eq_up {noDr : Bool} {s : States} {p : Phase} (hp : p ≠ .vms) :
    p.satisfied labNets topo stack s = p.up labNets topo stack noDr s := by
  cases p with
  | vms => exact absurd rfl hp
  | net | provision | observe => rfl

/-- **When a bootstrap resumes.** It does without `--no-dr`; with it, unless
the networks and the guests of the flag are all up, or the guests of the DR
groups are as well. -/
theorem resumes_iff (noDr : Bool) (host : Host) :
    Resumes labNets topo stack noDr (probeAll topo stack host)
        (selectPhases labNets topo stack (probeAll topo stack host) none none) ↔
      (noDr = true → netSatisfied labNets (probeAll topo stack host) →
        allRunning (probeAll topo stack host).domains (allVms topo stack.name true) →
        ∀ g ∈ (stackMembers topo stack.name).getD [], g ∈ stackDrHosts topo stack.name →
          classify (probeAll topo stack host).domains g = .running) := by
  generalize probeAll topo stack host = s
  rw [resumes_iff_dropWhile, selectPhases_eq]
  have hnet : Phase.satisfied labNets topo stack s .net = netSatisfied labNets s := rfl
  have hnet' : Phase.up labNets topo stack noDr s .net = netSatisfied labNets s := rfl
  have hvms : Phase.satisfied labNets topo stack s .vms = vmsSatisfied topo stack s := rfl
  have hvms' : Phase.up labNets topo stack noDr s .vms = allRunning s.domains (allVms topo stack.name noDr) := rfl
  -- the two lists agree unless the vms phase is the first to tell them apart
  have hsame : vmsSatisfied topo stack s = allRunning s.domains (allVms topo stack.name noDr) →
      phases.dropWhile (·.satisfied labNets topo stack s) = phases.dropWhile (·.up labNets topo stack noDr s) := by
    intro h
    have heq : (fun p : Phase => p.satisfied labNets topo stack s) = fun p => p.up labNets topo stack noDr s := by
      funext p
      by_cases hp : p = .vms
      · rw [hp, hvms, hvms', h]
      · exact satisfied_eq_up hp
    rw [heq]
  cases noDr with
  | false => simpa using hsame rfl
  | true =>
    by_cases hn : netSatisfied labNets s
    · by_cases hv : allRunning s.domains (allVms topo stack.name true)
      · by_cases hd : vmsSatisfied topo stack s
        · have hdr := (vmsSatisfied_iff.mp hd).2
          simp only [hsame (hd.trans hv.symm), true_iff]
          exact fun _ _ _ => hdr
        · have hcode : phases.dropWhile (·.satisfied labNets topo stack s) = [.vms, .provision, .observe] := by
            simp [phases, hnet, hn, hvms, hd]
          have hflag : phases.dropWhile (·.up labNets topo stack true s) =
              [.provision, .observe].dropWhile (·.up labNets topo stack true s) := by
            simp [phases, hnet', hn, hvms', hv]
          have hlen := (List.dropWhile_suffix (·.up labNets topo stack true s)
            (l := [Phase.provision, .observe])).length_le
          constructor
          · intro h
            rw [hcode, hflag] at h
            rw [← h] at hlen
            exact absurd hlen (by decide)
          · intro h
            exact absurd (vmsSatisfied_iff.mpr ⟨hv, h rfl hn hv⟩) hd
      · have hd : vmsSatisfied topo stack s = false := by
          by_contra hd
          exact hv (vmsSatisfied_iff.mp (by simpa using hd)).1
        have hv' : allRunning s.domains (allVms topo stack.name true) = false := by simpa using hv
        simp only [hsame (hd.trans hv'.symm), true_iff]
        exact fun _ _ h => absurd h hv
    · have hall : phases.dropWhile (·.satisfied labNets topo stack s) =
          phases.dropWhile (·.up labNets topo stack true s) := by
        simp [phases, hnet, hnet', hn]
      simp only [hall, true_iff]
      exact fun _ h => absurd h hn

end

/-! ### A stack with a DR site -/

/-- Two sites of one node each. -/
def rdqmTopology : Topology where
  nodes := .empty
  groups := .ofList [("rdqm_a".toList, ["rdqm-a1".toList]), ("rdqm_b".toList, ["rdqm-b1".toList]),
    ("obs_box".toList, ["obs".toList])]
  labStacks := .ofList [("rdqm-rhel".toList,
    ⟨some "rhel".toList, some "rdqm_a".toList, ["rdqm_a".toList, "rdqm_b".toList], ["rdqm_b".toList]⟩)]
  commons := ["obs_box".toList]
  memoryBacking := none

def rdqmStack : Stack := ⟨"rdqm-rhel".toList, some "rdqm_a".toList, true, 9159⟩

/-- After `bootstrap rdqm-rhel --no-dr`. -/
def haSiteUp : Host where
  netList := " Name State Autostart Persistent\n---\n net-mgmt active yes yes".toList
  domainList := " Id Name State\n---\n 1 lab_rdqm-a1 running\n 2 lab_obs running".toList
  qmStatus := 0
  targets := some [⟨"http://10.50.0.3:9159/metrics".toList, "up".toList⟩]

/-- All that `--no-dr` builds is up, and the same bootstrap would run three phases again. -/
theorem rerun_not_empty :
    (∀ p : Phase, p.up ["net-mgmt".toList] rdqmTopology rdqmStack true (probeAll rdqmTopology rdqmStack haSiteUp)) ∧
      ¬ Resumes ["net-mgmt".toList] rdqmTopology rdqmStack true (probeAll rdqmTopology rdqmStack haSiteUp)
        (selectPhases ["net-mgmt".toList] rdqmTopology rdqmStack (probeAll rdqmTopology rdqmStack haSiteUp)
          none none) := by
  have hup : ∀ p : Phase,
      p.up ["net-mgmt".toList] rdqmTopology rdqmStack true (probeAll rdqmTopology rdqmStack haSiteUp) := by
    intro p
    cases p <;> decide +kernel
  have hsel : selectPhases ["net-mgmt".toList] rdqmTopology rdqmStack (probeAll rdqmTopology rdqmStack haSiteUp)
      none none = [.vms, .provision, .observe] := by decide +kernel
  refine ⟨hup, fun h => ?_⟩
  have := h.eq_nil hup
  rw [hsel] at this
  exact absurd this (by simp)

end Lab
end MqResiliency
