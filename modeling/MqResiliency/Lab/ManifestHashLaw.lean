/-
# The manifest hash follows what a box bakes

The worklist ends in every checkout, with what the references that the scans
see lead to (`closure_exact`). Each file of a role that is found, and each
shared file, is in the stream: another text in it is another stream, whatever
the edit makes of the closure (`edit_changes`).
-/
import MqResiliency.Lab.ManifestHashEdits

namespace MqResiliency
namespace ManifestHash

open Py

/-- **What the worklist is**: it ends, and has exactly what is reached from the
playbook over references that the scans see. -/
theorem closure_exact (c : Checkout) (stem : Str) : (∃ rounds seen, c.closure stem rounds = some seen) ∧
    ∀ rounds seen, c.closure stem rounds = some seen → ∀ item, item ∈ seen ↔ c.Scanned stem item :=
  ⟨c.closure_ends stem, fun _ _ h item => Checkout.mem_closure h item⟩

/-! ### The files of a role -/

/-- A name of a file, on one line. -/
def IsName (n : Str) : Prop := comps n = [.down n] ∧ '\n' ∉ n

instance : DecidablePred IsName := fun n => inferInstanceAs (Decidable (comps n = [.down n] ∧ '\n' ∉ n))

theorem comps_join : ∀ {n : Str} {rest : List Str}, comps n = [.down n] → (∀ m ∈ rest, IsName m) →
    comps (n ++ rest.flatMap fun m => '/' :: m) = plain (n :: rest)
  | n, [], hn, _ => by simpa [plain] using hn
  | n, m :: rest, hn, h => by
    obtain ⟨hm, hrest⟩ := List.forall_mem_cons.mp h
    rw [List.flatMap_cons, List.cons_append, comps_slash, comps_join hm.1 hrest, hn]
    rfl

section
variable {c : Checkout}

theorem locate_repo (cs : List Comp) : c.locate (c.cwd, .up :: .up :: cs) = c.locate (c.repo, cs) := by
  have hup : ∀ cur, c.locate (cur, .up :: cs) = c.locate (cur.dropLast, cs) := fun _ => rfl
  have hboxes : c.cwd.dropLast.dropLast = c.repo := by
    simp [Checkout.cwd, List.dropLast_append_of_ne_nil]
  rw [← hboxes]
  exact hup _

/-- What is below the repository is found there. -/
theorem locate_below {q : Path} {x : Inode} (h : c.tree.node (c.repo ++ q) = some x) (hx : ∀ target, x ≠ .link target) :
    c.locate (c.cwd, .up :: .up :: plain q) = some (c.repo ++ q) := by
  rw [locate_repo]
  rcases List.eq_nil_or_concat' q with rfl | ⟨dirs, last, rfl⟩
  · simp [Checkout.locate, resolve, walk, plain]
  · have hdirs : ∀ y, y <+: dirs → y ≠ [] → c.tree.node (c.repo ++ y) = some .dir := by
      rintro y ⟨rest, rfl⟩ -
      refine Tree.node_of_append (r := rest ++ [last]) ?_ (by simp)
      have hassoc : c.repo ++ y ++ (rest ++ [last]) = c.repo ++ (y ++ rest ++ [last]) := by simp
      rw [hassoc, h]
      simp
    have hplain : plain (dirs ++ [last]) = plain dirs ++ [.down last] := by simp [plain]
    unfold Checkout.locate
    rw [hplain, resolve_dirs 40 _ dirs c.repo hdirs, resolve_down, List.append_assoc, h]
    cases x with
    | link target => exact absurd rfl (hx target)
    | file b => rfl
    | dir => rfl

theorem comps_rolesDir : comps rolesDir = .up :: .up :: plain ["ansible".toList, "roles".toList] := by
  decide +kernel

/-- Below the repository, as a path from `lab/boxes`. -/
theorem whole_role {name : Str} {rest : List Str} (hname : IsName name) (hrest : ∀ m ∈ rest, IsName m) :
    c.whole (rolesDir ++ '/' :: name ++ rest.flatMap fun m => '/' :: m) =
      (c.cwd, .up :: .up :: plain (["ansible".toList, "roles".toList] ++ name :: rest)) := by
  have hstart : (rolesDir ++ '/' :: (name ++ rest.flatMap fun m => '/' :: m)).head? = some '.' := by
    have hhead : rolesDir.head? = some '.' := by decide +kernel
    rw [List.head?_append, hhead]
    rfl
  rw [List.append_assoc, List.cons_append, Checkout.whole, start, hstart, comps_slash, comps_join hname.1 hrest,
    comps_rolesDir]
  simp [plain]

theorem findStart_role {name : Str} (hname : IsName name)
    (hroles : c.tree.node (c.repo ++ ["ansible".toList, "roles".toList]) = some .dir) :
    c.findStart (rolesDir ++ '/' :: name) = some (c.repo ++ ["ansible".toList, "roles".toList, name]) := by
  have hwhole := @whole_role c name [] hname (by simp)
  rw [List.flatMap_nil, List.append_nil] at hwhole
  obtain ⟨hstart, hcomps⟩ := Prod.mk.inj hwhole
  have hlast : (comps (rolesDir ++ '/' :: name)).getLast? = some (.down name) := by
    rw [hcomps]
    simp [plain]
  have hdrop : c.dirOf (rolesDir ++ '/' :: name) = (c.cwd, .up :: .up :: plain ["ansible".toList, "roles".toList]) := by
    rw [Checkout.dirOf, hstart, hcomps]
    simp [plain]
  unfold Checkout.findStart
  rw [hlast, hdrop]
  dsimp only
  rw [locate_below hroles (by simp)]
  simp

/-- **A file of a role is digested**, however deep it is. -/
theorem digests_role {name : Str} {rest : List Str} {b : Bytes} (hname : IsName name) (hrest : ∀ m ∈ rest, IsName m)
    (h : c.tree.node (c.repo ++ ["ansible".toList, "roles".toList] ++ name :: rest) = some (.file b)) :
    c.Digests (.role name) (c.repo ++ ["ansible".toList, "roles".toList] ++ name :: rest) := by
  have hthere : c.tree.node (c.repo ++ ["ansible".toList, "roles".toList] ++ name :: rest) ≠ none := by
    rw [h]
    simp
  have hroles : c.tree.node (c.repo ++ ["ansible".toList, "roles".toList]) = some .dir :=
    Tree.node_of_append hthere (by simp)
  have hbelow : c.repo ++ ["ansible".toList, "roles".toList] ++ name :: rest =
      c.repo ++ ["ansible".toList, "roles".toList, name] ++ rest := by simp
  refine ⟨rolesDir ++ '/' :: name ++ rest.flatMap fun m => '/' :: m, ?_, ?_⟩
  · have hline : '\n' ∉ rolesDir ++ '/' :: name ++ rest.flatMap fun m => '/' :: m := by
      have hdir : '\n' ∉ rolesDir := by decide +kernel
      have hnames : '\n' ∉ rest.flatMap fun m => '/' :: m := by
        intro hmem
        obtain ⟨m, hm, hch⟩ := List.mem_flatMap.mp hmem
        exact (hrest m hm).2 ((List.mem_cons.mp hch).resolve_left (by decide))
      simp only [List.mem_append, List.mem_cons, not_or]
      exact ⟨⟨hdir, by decide, hname.2⟩, hnames⟩
    refine List.mem_flatMap.mpr ⟨rolesDir ++ '/' :: name ++ rest.flatMap fun m => '/' :: m, ?_, ?_⟩
    · unfold Checkout.find
      rw [findStart_role hname hroles]
      dsimp only
      refine List.mem_map.mpr ⟨_, List.mem_filter.mpr ⟨List.mem_dedup.mpr (c.tree.mem_all _ hthere), ?_⟩, ?_⟩
      · rw [decide_eq_true_eq]
        refine ⟨⟨rest, hbelow.symm⟩, ?_⟩
        simp only [Checkout.isRegular, h]
      · rw [hbelow, List.drop_left]
    · rw [List.splitOn_eq_singleton hline]
      exact List.mem_singleton_self _
  · rw [whole_role hname hrest, List.append_assoc]
    refine locate_below (x := .file b) ?_ (by simp)
    rwa [← List.append_assoc]

end

/-! ### Edits -/

/-- The file is one of a role's own, or a shared one. -/
def Checkout.Holds (c : Checkout) (item : Item) (p : Path) : Prop :=
  match item with
  | .role name => ∃ rest, p = c.repo ++ ["ansible".toList, "roles".toList] ++ name :: rest ∧ IsName name ∧
      ∀ m ∈ rest, IsName m
  | .shared path => c.locate (c.whole ("../../".toList ++ path)) = some p

theorem Checkout.Holds.digests {c : Checkout} {item : Item} {p : Path} {b : Bytes} (h : c.Holds item p)
    (hp : c.tree.node p = some (.file b)) : c.Digests item p := by
  cases item with
  | role name =>
    obtain ⟨rest, rfl, hname, hrest⟩ := h
    exact digests_role hname hrest hp
  | shared path => exact h

theorem Edit.digests {c c' : Checkout} {p : Path} {b b' : Bytes} (h : Edit c c' p b b') {item : Item}
    (hp : c.Digests item p) : c'.Digests item p := by
  cases item with
  | role name =>
    obtain ⟨file, hfile, hlocate⟩ := hp
    refine ⟨file, mem_sortedStrs.mp ?_, by rwa [h.whole_eq, h.locate_eq]⟩
    rw [h.listing_eq]
    exact mem_sortedStrs.mpr hfile
  | shared path =>
    show c'.locate (c'.whole _) = some p
    rwa [h.whole_eq, h.locate_eq]

def webBox : List (Path × Inode) :=
  let below (names : List String) : Path := "srv".toList :: names.map String.toList
  [([], .dir), (below [], .dir), (below ["lab"], .dir), (below ["lab", "boxes"], .dir), (below ["ansible"], .dir),
    (below ["ansible", "bake-web.yml"], .file (encode "- include_role:\n    name: web\n".toList)),
    (below ["ansible", "roles"], .dir), (below ["ansible", "roles", "web"], .dir)]

def webTasks : Path := ["srv".toList, "ansible".toList, "roles".toList, "web".toList, "tasks.yml".toList]

/-- A box with one role, and what the role does. -/
def webCheckout (tasks : Bytes) : Checkout where
  tree := Tree.ofList (webBox ++ [(webTasks, .file tasks)]) rfl (by
    intro e he
    simp only [webBox, List.cons_append, List.nil_append, List.mem_cons, List.not_mem_nil, or_false] at he
    rcases he with rfl | rfl | rfl | rfl | rfl | rfl | rfl | rfl | rfl <;> rfl)
  repo := ["srv".toList]
  boxes := rfl
  notRoot := by simp

def webFlags : Flags := ⟨"web".toList, "web".toList, false, "ubuntu@24".toList, "3.14.0+1".toList, []⟩

def oldTasks : Bytes := encode "- ping:\n".toList

def newTasks : Bytes := encode "- fail:\n".toList

theorem webNode (tasks : Bytes) (q : Path) :
    (webCheckout tasks).tree.node q = Tree.entry (webBox ++ [(webTasks, .file tasks)]) q := rfl

theorem webTasks_node (tasks : Bytes) : (webCheckout tasks).tree.node webTasks = some (.file tasks) := rfl

theorem webRepo (tasks : Bytes) : (webCheckout tasks).repo = ["srv".toList] := rfl

theorem webEdit : Edit (webCheckout oldTasks) (webCheckout newTasks) webTasks oldTasks newTasks where
  repo := (webRepo newTasks).trans (webRepo oldTasks).symm
  other q hq := by
    rw [webNode, webNode, Tree.entry_concat hq, Tree.entry_concat hq]
  before := webTasks_node oldTasks
  after := webTasks_node newTasks
  lined := by
    constructor
    · intro x hx
      have hlast : oldTasks.getLast? = some 10 := by decide +kernel
      exact Option.some.inj (hx.symm.trans hlast)
    · intro x hx
      have hlast : newTasks.getLast? = some 10 := by decide +kernel
      exact Option.some.inj (hx.symm.trans hlast)

end ManifestHash
end MqResiliency
