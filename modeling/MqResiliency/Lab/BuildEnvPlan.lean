/-
# What `mqlab build migrate` plans

Each legacy entry that is there has a route to its bucket (`routes`). The plan
is free of conflicts exactly when an entry has nothing where it goes, or may be
merged and differs nowhere from what is there (`planAll_iff`), and then it
clears all of every route (`planAll_clears`).
-/
import MqResiliency.Lab.BuildEnv
import MqResiliency.Lib.Relocate

namespace MqResiliency
namespace Lab
namespace BuildEnv

open Py

variable {t : Tree} {repo : Path}

/-! ### Looking -/

section
variable {d d' : Path} {n n' : Str}

theorem lstat_child (hd : t.node d = some .dir) : t.lstat (d ++ [n]) = t.node (d ++ [n]) := by
  rw [Tree.lstat, Tree.place_append (Tree.find_dir hd) hd]
  rfl

theorem isSymlink_child (hd : t.node d = some .dir) :
    t.isSymlink (d ++ [n]) = true ↔ ∃ target, t.node (d ++ [n]) = some (.link target) := by
  unfold Tree.isSymlink
  rw [lstat_child hd]
  split
  · rename_i target h
    exact ⟨fun _ => ⟨target, h⟩, fun _ => rfl⟩
  · rename_i h
    refine ⟨fun hfalse => absurd hfalse (by simp), ?_⟩
    rintro ⟨target, ht⟩
    exact absurd ht (h target)

theorem isRealDir_child (hd : t.node d = some .dir) :
    isRealDir t (d ++ [n]) = true ↔ t.node (d ++ [n]) = some .dir := by
  unfold isRealDir
  rw [Bool.and_eq_true, Bool.not_eq_true', ← Bool.not_eq_true, isSymlink_child hd]
  constructor
  · rintro ⟨hdir, hlink⟩
    have hreal : ∀ target, t.node (d ++ [n]) ≠ some (.link target) := fun target h => hlink ⟨target, h⟩
    rw [Tree.isDir, Tree.find_child hd hreal] at hdir
    split at hdir
    · simp at hdir
    · simpa using hdir
  · intro h
    refine ⟨?_, ?_⟩
    · rw [Tree.isDir, Tree.find_dir h]
      simpa using h
    · rintro ⟨target, hl⟩
      rw [h] at hl
      cases hl

theorem lacks_child (hd : t.node d = some .dir) :
    (t.exists? (d ++ [n]) = false ∧ t.isSymlink (d ++ [n]) = false) ↔ t.node (d ++ [n]) = none := by
  rw [← Bool.not_eq_true (t.isSymlink _), isSymlink_child hd]
  constructor
  · rintro ⟨hlost, hlink⟩
    have hreal : ∀ target, t.node (d ++ [n]) ≠ some (.link target) := fun target h => hlink ⟨target, h⟩
    rw [Tree.exists?, Tree.find_child hd hreal] at hlost
    by_contra hne
    rw [if_neg hne] at hlost
    cases hlost
  · intro h
    have hreal : ∀ target, t.node (d ++ [n]) ≠ some (.link target) := by simp [h]
    refine ⟨?_, ?_⟩
    · rw [Tree.exists?, Tree.find_child hd hreal, if_pos h]
      rfl
    · rintro ⟨target, hl⟩
      exact hreal target hl

theorem isFile_child (hd : t.node d = some .dir) (hreal : ∀ target, t.node (d ++ [n]) ≠ some (.link target)) :
    t.isFile (d ++ [n]) = true ↔ ∃ content, t.node (d ++ [n]) = some (.file content) := by
  unfold Tree.isFile
  rw [Tree.find_child hd hreal]
  by_cases hnone : t.node (d ++ [n]) = none
  · simp [hnone]
  · rw [if_neg hnone, Option.bind_some]
    split
    · rename_i content h
      exact ⟨fun _ => ⟨content, h⟩, fun _ => rfl⟩
    · rename_i h
      refine ⟨fun hfalse => absurd hfalse (by simp), ?_⟩
      rintro ⟨content, hc⟩
      exact absurd hc (h content)

theorem identical_child (hd : t.node d = some .dir) (hd' : t.node d' = some .dir) :
    identical t (d ++ [n]) (d' ++ [n']) = true ↔ t.node (d ++ [n]) = t.node (d' ++ [n']) ∧
      t.node (d ++ [n]) ≠ none ∧ t.node (d ++ [n]) ≠ some .dir := by
  unfold identical
  rw [lstat_child hd, lstat_child hd']
  by_cases hlink : (∃ target, t.node (d ++ [n]) = some (.link target)) ∨
      ∃ target, t.node (d' ++ [n']) = some (.link target)
  · have hor : (t.isSymlink (d ++ [n]) || t.isSymlink (d' ++ [n'])) = true := by
      rw [Bool.or_eq_true, isSymlink_child hd, isSymlink_child hd']
      exact hlink
    rw [if_pos hor]
    simp only [Bool.and_eq_true, isSymlink_child hd, isSymlink_child hd', decide_eq_true_eq]
    constructor
    · rintro ⟨⟨⟨target, h⟩, -⟩, heq⟩
      exact ⟨heq, by simp [h], by simp [h]⟩
    · rintro ⟨heq, -, -⟩
      rcases hlink with h | h
      · exact ⟨⟨h, heq ▸ h⟩, heq⟩
      · exact ⟨⟨heq ▸ h, h⟩, heq⟩
  · obtain ⟨hl, hl'⟩ := not_or.mp hlink
    have hreal : ∀ target, t.node (d ++ [n]) ≠ some (.link target) := fun target h => hl ⟨target, h⟩
    have hreal' : ∀ target, t.node (d' ++ [n']) ≠ some (.link target) := fun target h => hl' ⟨target, h⟩
    have hor : ¬ (t.isSymlink (d ++ [n]) || t.isSymlink (d' ++ [n'])) = true := by
      rw [Bool.or_eq_true, isSymlink_child hd, isSymlink_child hd']
      exact hlink
    rw [if_neg hor]
    simp only [Bool.and_eq_true, isFile_child hd hreal, isFile_child hd' hreal', decide_eq_true_eq]
    constructor
    · rintro ⟨⟨⟨content, h⟩, -⟩, heq⟩
      exact ⟨heq, by simp [h], by simp [h]⟩
    · rintro ⟨heq, hne, hfile⟩
      have hcontent : ∃ content, t.node (d ++ [n]) = some (.file content) := by
        cases hx : t.node (d ++ [n]) with
        | none => exact absurd hx hne
        | some x =>
          cases x with
          | file content => exact ⟨content, rfl⟩
          | link target => exact absurd hx (hreal target)
          | dir => exact absurd hx hfile
      exact ⟨⟨hcontent, heq ▸ hcontent⟩, heq⟩

end

/-! ### What is found -/

/-- What is found of a plan without conflicts. -/
def Found.of (ms us ps : List Spot) : Found :=
  ⟨ms.map fun x => (x.src, x.dst), us.map fun x => (x.src, x.dst), ps.map Spot.src, []⟩

theorem Found.of_add (ms us ps ms' us' ps' : List Spot) :
    (Found.of ms us ps).add (Found.of ms' us' ps') = Found.of (ms ++ ms') (us ++ us') (ps ++ ps') := by
  simp [Found.of, Found.add]

theorem Found.conflicts_concat : ∀ {fs : List Found}, (Found.concat fs).conflicts = [] ↔ ∀ f ∈ fs, f.conflicts = []
  | [] => by simp [Found.concat, Found.none]
  | f :: fs => by
    rw [Found.concat, Found.add, List.append_eq_nil_iff, Found.conflicts_concat, List.forall_mem_cons]

theorem Found.none_add (f : Found) : Found.none.add f = f := rfl

/-- What finds nothing adds nothing. -/
theorem Found.concat_filter {α : Type} {f : α → Found} {p : α → Bool} : ∀ {as : List α},
    (∀ a ∈ as, p a = false → f a = Found.none) → Found.concat (as.map f) = Found.concat ((as.filter p).map f)
  | [], _ => rfl
  | a :: as, h => by
    have ih := Found.concat_filter fun a' ha' => h a' (List.mem_cons_of_mem a ha')
    rw [List.map_cons, Found.concat, ih]
    cases hp : p a with
    | true => rw [List.filter_cons_of_pos hp, List.map_cons, Found.concat]
    | false => rw [List.filter_cons_of_neg (by simp [hp]), h a List.mem_cons_self hp, Found.none_add]

/-- What is found clears some items. -/
def Finds (t : Tree) (f : Found) (xs : List Spot) : Prop := ∃ ms us ps, f = Found.of ms us ps ∧ Clears t xs ms us ps

theorem Finds.concat {α : Type} {f : α → Found} {item : α → Spot} : ∀ {as : List α},
    (as.Pairwise fun a b => Apart (item a).src (item b).src) → (∀ a ∈ as, Finds t (f a) [item a]) →
    Finds t (Found.concat (as.map f)) (as.map item)
  | [], _, _ => ⟨[], [], [], rfl, .nil⟩
  | a :: as, hapart, h => by
    obtain ⟨hfirst, hrest⟩ := List.pairwise_cons.mp hapart
    obtain ⟨ms, us, ps, hf, hclears⟩ := h a List.mem_cons_self
    obtain ⟨ms', us', ps', hf', hclears'⟩ := Finds.concat hrest fun a' ha' => h a' (List.mem_cons_of_mem a ha')
    refine ⟨ms ++ ms', us ++ us', ps ++ ps', ?_, ?_⟩
    · rw [List.map_cons, Found.concat, hf, hf', Found.of_add]
    · refine hclears.append hclears' fun x hx y hy => ?_
      obtain rfl := List.mem_singleton.mp hx
      obtain ⟨b, hb, rfl⟩ := List.mem_map.mp hy
      exact hfirst b hb

/-! ### Merging -/

/-- What is in both places is the same. -/
def Agrees (t : Tree) (x : Spot) : Prop :=
  ∀ r, t.node (x.src ++ r) = none ∨ t.node (x.dst ++ r) = none ∨ t.node (x.src ++ r) = t.node (x.dst ++ r)

/-- What is planned for an entry of a directory that is merged. -/
def planChild (t : Tree) (merge : Path → Path → Found) (src dst : Path) (name : Str) : Found :=
  let child := src ++ [name]
  let target := dst ++ [name]
  if t.exists? target = false ∧ t.isSymlink target = false then { Found.none with moves := [(child, target)] }
  else if isRealDir t child && isRealDir t target then merge child target
  else if identical t child target then { Found.none with duplicates := [(child, target)] }
  else { Found.none with conflicts := [pathText child ++ " differs from ".toList ++ pathText target] }

theorem planMerge_succ (k : ℕ) (src dst : Path) : planMerge t (k + 1) src dst =
    (Found.concat ((t.iterdir src).map (planChild t (planMerge t k) src dst))).add
      { Found.none with prune := [src] } := rfl

theorem iterdir_of_dir {d : Path} (hd : t.node d = some .dir) : t.iterdir d = t.names d := by
  rw [Tree.iterdir, Tree.find_dir hd]

/-- A directory that is there is not that deep. -/
theorem length_lt_depth {p : Path} (h : t.node p ≠ none) : p.length < depth t := by
  have hmax : ∀ {ls : List ℕ} {n : ℕ}, n ∈ ls → n ≤ ls.foldr max 0 := by
    intro ls
    induction ls with
    | nil => simp
    | cons m ls ih =>
      intro n hn
      rcases List.mem_cons.mp hn with rfl | hn
      · exact le_max_left _ _
      · exact (ih hn).trans (le_max_right _ _)
  have hle := hmax (List.mem_map_of_mem (f := List.length) (t.mem_all p h))
  rw [depth]
  omega

theorem Agrees.child {x : Spot} (h : Agrees t x) (n : Str) : Agrees t (x.child n) := by
  intro r
  rw [Spot.src_child, Spot.dst_child, List.append_assoc, List.append_assoc]
  exact h ([n] ++ r)

/-- Directories agree when their entries do. -/
theorem agrees_of_children {x : Spot} (hsrc : t.node x.src = some .dir) (hdst : t.node x.dst = some .dir)
    (h : ∀ n, t.node (x.child n).src ≠ none → Agrees t (x.child n)) : Agrees t x := by
  intro r
  cases r with
  | nil => exact .inr (.inr (by rw [List.append_nil, List.append_nil, hsrc, hdst]))
  | cons n r =>
    have hassoc : ∀ p : Path, p ++ n :: r = p ++ [n] ++ r := by simp
    rw [hassoc, hassoc, ← Spot.src_child, ← Spot.dst_child]
    by_cases hnone : t.node (x.child n).src = none
    · exact .inl (Tree.node_append_eq_none hnone r)
    · exact h n hnone r

/-- What is not there agrees with anything; so does what is the same and no directory. -/
theorem agrees_of_dst_none {x : Spot} (h : t.node x.dst = none) : Agrees t x :=
  fun r => .inr (.inl (Tree.node_append_eq_none h r))

theorem agrees_of_same {x : Spot} (h : t.node x.src = t.node x.dst) (hdir : t.node x.src ≠ some .dir) : Agrees t x := by
  intro r
  by_cases hr : r = []
  · exact .inr (.inr (by rw [hr, List.append_nil, List.append_nil, h]))
  · refine .inl (by_contra fun hne => hdir (Tree.node_of_append hne hr))

/-- **A merge is free of conflicts exactly where both agree**, and then it clears
the directory. -/
theorem planMerge_spec : ∀ {k : ℕ} {x : Spot}, t.node x.src = some .dir → t.node x.dst = some .dir →
    depth t ≤ x.src.length + k →
    ((planMerge t k x.src x.dst).conflicts = [] → Agrees t x) ∧ (Agrees t x → Finds t (planMerge t k x.src x.dst) [x])
  | 0, x, hsrc, _, hdepth => by
    have hlt : x.src.length < depth t := length_lt_depth (by simp [hsrc])
    omega
  | k + 1, x, hsrc, hdst, hdepth => by
    have hdepth' : ∀ n, depth t ≤ (x.child n).src.length + k := fun n => by
      rw [Spot.src_child, List.length_append, List.length_singleton]
      omega
    have hnames : t.iterdir x.src = t.names x.src := iterdir_of_dir hsrc
    -- an entry of the directory, by what is at the two places
    have hchild : ∀ n, t.node (x.child n).src ≠ none →
        ((planChild t (planMerge t k) x.src x.dst n).conflicts = [] → Agrees t (x.child n)) ∧
        (Agrees t (x.child n) → Finds t (planChild t (planMerge t k) x.src x.dst n) [x.child n]) := by
      intro n hn
      have hstep := @planMerge_spec k (x.child n)
      have hdepth' := hdepth' n
      have hs := x.src_child n
      have hd := x.dst_child n
      unfold planChild
      rw [← hs, ← hd]
      dsimp only
      split
      · rename_i hlacks
        rw [hd, lacks_child hdst, ← hd] at hlacks
        have hdir : t.node (x.child n).dst.dropLast = some .dir := by
          rw [hd, List.dropLast_concat]
          exact hdst
        exact ⟨fun _ => agrees_of_dst_none hlacks,
          fun _ => ⟨[x.child n], [], [], rfl, .move_one hn hlacks fun _ => hdir⟩⟩
      · rename_i hhas
        rw [hd, lacks_child hdst, ← hd] at hhas
        split
        · rename_i hdirs
          rw [Bool.and_eq_true, hs, hd, isRealDir_child hsrc, isRealDir_child hdst, ← hs, ← hd] at hdirs
          exact hstep hdirs.1 hdirs.2 hdepth'
        · rename_i hdirs
          rw [Bool.and_eq_true, hs, hd, isRealDir_child hsrc, isRealDir_child hdst, ← hs, ← hd] at hdirs
          split
          · rename_i hsame
            rw [hs, hd, identical_child hsrc hdst, ← hs, ← hd] at hsame
            obtain ⟨heq, hne, hfile⟩ := hsame
            exact ⟨fun _ => agrees_of_same heq hfile,
              fun _ => ⟨[], [x.child n], [], rfl, .drop_one hn hfile hhas⟩⟩
          · rename_i hsame
            rw [hs, hd, identical_child hsrc hdst, ← hs, ← hd] at hsame
            refine ⟨fun h => absurd h (by simp), fun h => ?_⟩
            have h0 := h []
            rw [List.append_nil, List.append_nil] at h0
            rcases h0 with hnone | hnone | heq
            · exact absurd hnone hn
            · exact absurd hnone hhas
            · exact absurd ⟨heq, hn, fun hdir => hdirs ⟨hdir, heq ▸ hdir⟩⟩ hsame
    have hmem : ∀ n ∈ t.names x.src, t.node (x.child n).src ≠ none := fun n hn => by
      rw [Spot.src_child]
      exact Tree.mem_names.mp hn
    rw [planMerge_succ, hnames]
    constructor
    · intro hfree
      have hall : ∀ f ∈ (t.names x.src).map (planChild t (planMerge t k) x.src x.dst), f.conflicts = [] :=
        Found.conflicts_concat.mp (by simpa [Found.add, Found.none] using hfree)
      refine agrees_of_children hsrc hdst fun n hn => ?_
      have hn' : n ∈ t.names x.src := Tree.mem_names.mpr (x.src_child n ▸ hn)
      exact (hchild n hn).1 (hall _ (List.mem_map_of_mem hn'))
    · intro hagrees
      have hapart : (t.names x.src).Pairwise fun n m => Apart (x.child n).src (x.child m).src :=
        (t.nodup_names x.src).imp fun hne => by
          rw [Spot.src_child, Spot.src_child]
          exact apart_child x.src hne
      obtain ⟨ms, us, ps, hf, hclears⟩ := Finds.concat hapart fun n hn => (hchild n (hmem n hn)).2 (hagrees.child n)
      refine ⟨ms, us, ps ++ [x], ?_, hclears.dir (fun n hn => Tree.mem_names.mpr hn) hsrc (by simp [hdst])⟩
      rw [hf]
      simp [Found.add, Found.of, Found.none]

/-! ### Entries -/

/-- The route of an entry to its bucket. -/
def routeOf (repo : Path) (e : Str × Str) : Route := ⟨build repo ++ [e.1], build repo ++ [e.2], e.1⟩

/-- The legacy entries that are there. -/
def present (t : Tree) (repo : Path) : List (Str × Str) :=
  (entries t repo).filter fun e => t.node (build repo ++ [e.1]) ≠ none

/-- The route of the legacy dotfile. -/
def vagrantRoute (repo : Path) : Route :=
  ⟨repo ++ ["lab".toList, ".vagrant".toList], build repo ++ ["state".toList], "vagrant".toList⟩

/-- It is taken where the dotfile is there and nothing is where it goes. -/
def vagrantRoutes (t : Tree) (repo : Path) : List Route :=
  if t.node (vagrantRoute repo).src = some .dir ∧ t.node (vagrantRoute repo).dst = none then [vagrantRoute repo] else []

/-- The routes of a migration. -/
def routes (t : Tree) (repo : Path) : List Route := (present t repo).map (routeOf repo) ++ vagrantRoutes t repo

/-- A main checkout: its buckets are real, and no link stands for a legacy entry,
for where one goes, or for `lab/`. -/
structure Legacy (t : Tree) (repo : Path) : Prop where
  build : t.node (build repo) = some .dir
  buckets : ∀ b ∈ buckets, t.node (BuildEnv.build repo ++ [b]) = none ∨ t.node (BuildEnv.build repo ++ [b]) = some .dir
  src : ∀ e ∈ entries t repo, ∀ target, t.node (routeOf repo e).src ≠ some (.link target)
  dst : ∀ e ∈ entries t repo, ∀ target, t.node (routeOf repo e).dst ≠ some (.link target)
  lab : ∀ target, t.node (repo ++ ["lab".toList]) ≠ some (.link target)
  vagrant : ∀ target, t.node (vagrantRoute repo).dst ≠ some (.link target)

theorem mem_entries {e : Str × Str} (h : e ∈ entries t repo) :
    e ∈ migration ∨ (isDvd e.1 = true ∧ e.2 = "state".toList ∧ e.1 ∈ t.iterdir (build repo)) := by
  rcases List.mem_append.mp h with h | h
  · exact .inl h
  · obtain ⟨n, hn, rfl⟩ := List.mem_map.mp h
    obtain ⟨hmem, hdvd⟩ := List.mem_filter.mp hn
    exact .inr ⟨hdvd, rfl, hmem⟩

theorem bucket_of_entry {e : Str × Str} (h : e ∈ entries t repo) : e.2 ∈ buckets := by
  rcases mem_entries h with h | ⟨-, h, -⟩
  · have hall : ∀ e ∈ migration, e.2 ∈ buckets := by decide +kernel
    exact hall e h
  · rw [h]
    decide +kernel

theorem name_of_entry {e : Str × Str} (h : e ∈ entries t repo) : e.1 ∉ buckets ∧ e.1 ≠ "vagrant".toList := by
  rcases mem_entries h with h | ⟨h, -, -⟩
  · have hall : ∀ e ∈ migration, e.1 ∉ buckets ∧ e.1 ≠ "vagrant".toList := by decide +kernel
    exact hall e h
  · have hall : ∀ b ∈ "vagrant".toList :: buckets, isDvd b = false := by decide +kernel
    refine ⟨fun hb => ?_, fun hv => ?_⟩
    · rw [hall e.1 (List.mem_cons_of_mem _ hb)] at h
      cases h
    · rw [hall e.1 (hv ▸ List.mem_cons_self)] at h
      cases h

/-- An entry is there once. -/
theorem nodup_entries (hbuild : t.node (build repo) = some .dir) : ((entries t repo).map Prod.fst).Nodup := by
  have hmap : ((t.iterdir (build repo)).filter isDvd |>.map fun name => (name, "state".toList)).map Prod.fst =
      (t.iterdir (build repo)).filter isDvd := by
    rw [List.map_map]
    exact List.map_id _
  have hdvds : ((t.iterdir (build repo)).filter isDvd).Nodup := by
    rw [iterdir_of_dir hbuild]
    exact (t.nodup_names _).filter _
  rw [entries, List.map_append, hmap]
  refine List.nodup_append.mpr ⟨by decide +kernel, hdvds, fun a ha b hb => ?_⟩
  rintro rfl
  have hall : ∀ n ∈ migration.map Prod.fst, isDvd n = false := by decide +kernel
  have hdvd := (List.mem_filter.mp hb).2
  rw [hall a ha] at hdvd
  cases hdvd

theorem entry_unique (hbuild : t.node (build repo) = some .dir) {e e' : Str × Str} (h : e ∈ entries t repo)
    (h' : e' ∈ entries t repo) (hname : e.1 = e'.1) : e = e' :=
  List.inj_on_of_nodup_map (nodup_entries hbuild) h h' hname

/-! ### Routes are apart -/

theorem mem_routes {a : Route} (h : a ∈ routes t repo) : (∃ e ∈ entries t repo, t.node (routeOf repo e).src ≠ none ∧
    a = routeOf repo e) ∨ (a = vagrantRoute repo ∧ t.node a.src = some .dir ∧ t.node a.dst = none) := by
  rcases List.mem_append.mp h with h | h
  · obtain ⟨e, he, rfl⟩ := List.mem_map.mp h
    obtain ⟨hmem, hne⟩ := List.mem_filter.mp he
    exact .inl ⟨e, hmem, by simpa [routeOf] using hne, rfl⟩
  · unfold vagrantRoutes at h
    split at h
    · rename_i hthere
      obtain rfl := List.mem_singleton.mp h
      exact .inr ⟨rfl, hthere⟩
    · cases h

theorem src_there {a : Route} (h : a ∈ routes t repo) : t.node a.src ≠ none := by
  rcases mem_routes h with ⟨e, -, hne, rfl⟩ | ⟨-, hdir, -⟩
  · exact hne
  · simp [hdir]

theorem routeOf_dst (repo : Path) (e : Str × Str) : (routeOf repo e).dst = build repo ++ [e.2] ++ [e.1] := rfl

theorem vagrantRoute_src (repo : Path) : (vagrantRoute repo).src = repo ++ ["lab".toList] ++ [".vagrant".toList] := by
  simp [vagrantRoute]

theorem vagrantRoute_dst (repo : Path) :
    (vagrantRoute repo).dst = build repo ++ ["state".toList] ++ ["vagrant".toList] := rfl

/-- What is in `build/` is apart from what is in `lab/`. -/
theorem apart_lab (repo x y : Path) : Apart (build repo ++ x) (repo ++ ["lab".toList] ++ y) :=
  (apart_child repo (by decide +kernel)).appended x y

/-- Legacy names and names in buckets are apart. -/
theorem apart_bucket (repo : Path) {n b : Str} (hn : n ∉ buckets) (hb : b ∈ buckets) (x y : Path) :
    Apart (build repo ++ [n] ++ x) (build repo ++ [b] ++ y) :=
  (apart_child (build repo) fun heq : n = b => hn (heq ▸ hb)).appended x y

theorem separate_routes (hbuild : t.node (build repo) = some .dir) : Separate (routes t repo) where
  src a ha b hb hab := by
    rcases mem_routes ha with ⟨e, he, -, rfl⟩ | ⟨rfl, -⟩ <;> rcases mem_routes hb with ⟨e', he', -, rfl⟩ | ⟨rfl, -⟩
    · exact apart_child _ fun heq => hab (by rw [entry_unique hbuild he he' heq])
    · rw [vagrantRoute_src]
      exact apart_lab repo _ _
    · rw [vagrantRoute_src]
      exact (apart_lab repo _ _).symm
    · exact absurd rfl hab
  dst a ha b hb hab := by
    have hnames : ∀ {c c' n n' : Str}, (c, n) ≠ (c', n') →
        Apart (build repo ++ [c] ++ [n]) (build repo ++ [c'] ++ [n']) := by
      intro c c' n n' hne
      by_cases hc : c = c'
      · subst hc
        exact apart_child _ fun heq => hne (by rw [heq])
      · exact (apart_child _ hc).appended _ _
    rcases mem_routes ha with ⟨e, he, -, rfl⟩ | ⟨rfl, -⟩ <;> rcases mem_routes hb with ⟨e', he', -, rfl⟩ | ⟨rfl, -⟩
    · rw [routeOf_dst, routeOf_dst]
      exact hnames fun heq => hab (by rw [entry_unique hbuild he he' (Prod.mk.inj heq).2])
    · rw [routeOf_dst, vagrantRoute_dst]
      exact hnames fun heq => (name_of_entry he).2 (Prod.mk.inj heq).2
    · rw [routeOf_dst, vagrantRoute_dst]
      exact hnames fun heq => (name_of_entry he').2 (Prod.mk.inj heq).2.symm
    · exact absurd rfl hab
  across a ha b hb := by
    have hstate : "state".toList ∈ buckets := by decide +kernel
    rcases mem_routes ha with ⟨e, he, -, rfl⟩ | ⟨rfl, -⟩ <;> rcases mem_routes hb with ⟨e', he', -, rfl⟩ | ⟨rfl, -⟩
    · have hapart := apart_bucket repo (name_of_entry he).1 (bucket_of_entry he') [] [e'.1]
      rwa [List.append_nil] at hapart
    · have hapart := apart_bucket repo (name_of_entry he).1 hstate [] ["vagrant".toList]
      rwa [List.append_nil] at hapart
    · rw [vagrantRoute_src, routeOf_dst, List.append_assoc (build repo)]
      exact (apart_lab repo _ _).symm
    · rw [vagrantRoute_src, vagrantRoute_dst, List.append_assoc (build repo)]
      exact (apart_lab repo _ _).symm

/-! ### The plan -/

/-- Nothing is in the way of an entry: what is where it goes may be merged with
it, and agrees. -/
def Free (t : Tree) (repo : Path) (e : Str × Str) : Prop :=
  t.node (routeOf repo e).dst = none ∨
    (e.1 ∈ mergeable ∧ t.node (routeOf repo e).src = some .dir ∧ t.node (routeOf repo e).dst = some .dir ∧
      Agrees t (routeOf repo e, []))

/-- A place in a bucket leads to itself. -/
theorem find_dst {b n : Str} (hbuild : t.node (build repo) = some .dir)
    (hb : t.node (build repo ++ [b]) = none ∨ t.node (build repo ++ [b]) = some .dir)
    (hreal : ∀ target, t.node (build repo ++ [b] ++ [n]) ≠ some (.link target)) :
    t.find (build repo ++ [b] ++ [n]) =
      if t.node (build repo ++ [b] ++ [n]) = none then none else some (build repo ++ [b] ++ [n]) := by
  refine Tree.find_real fun x hx target => ?_
  rcases List.prefix_concat_iff.mp hx with rfl | hx
  · exact hreal target
  rcases List.prefix_concat_iff.mp hx with rfl | hx
  · rcases hb with hb | hb <;> simp [hb]
  · obtain ⟨r, hr⟩ := hx
    by_cases hnil : r = []
    · rw [hnil, List.append_nil] at hr
      rw [hr, hbuild]
      simp
    · rw [Tree.node_of_append (r := r) (by rw [hr, hbuild]; simp) hnil]
      simp

theorem find_routeOf_dst (h : Legacy t repo) {e : Str × Str} (he : e ∈ entries t repo) : t.find (routeOf repo e).dst =
    if t.node (routeOf repo e).dst = none then none else some (routeOf repo e).dst :=
  find_dst h.build (h.buckets e.2 (bucket_of_entry he)) (h.dst e he)

theorem exists_iff {p : Path} (h : t.find p = if t.node p = none then none else some p) :
    t.exists? p = false ↔ t.node p = none := by
  rw [Tree.exists?, h]
  by_cases hnone : t.node p = none <;> simp [hnone]

/-- Merging at the top is merging of a route. -/
theorem isRealDir_dst (h : Legacy t repo) {e : Str × Str} (he : e ∈ entries t repo) :
    isRealDir t (routeOf repo e).dst = true ↔ t.node (routeOf repo e).dst = some .dir := by
  rcases h.buckets e.2 (bucket_of_entry he) with hnone | hdir
  · have hdst : t.node (routeOf repo e).dst = none := Tree.node_append_eq_none hnone [e.1]
    have hfind := find_routeOf_dst h he
    rw [if_pos hdst] at hfind
    simp [isRealDir, Tree.isDir, hfind, hdst]
  · exact isRealDir_child hdir

/-- **An entry is planned without a conflict exactly if nothing is in its way.** -/
theorem planEntry_spec (h : Legacy t repo) {e : Str × Str} (he : e ∈ entries t repo)
    (hsrc : t.node (routeOf repo e).src ≠ none) :
    ((planEntry t repo e).conflicts = [] → Free t repo e) ∧
      (Free t repo e → Finds t (planEntry t repo e) [(routeOf repo e, [])]) := by
  have hsrc' : t.exists? (build repo ++ [e.1]) ≠ false := fun hlost =>
    hsrc ((exists_iff (Tree.find_child h.build (h.src e he))).mp hlost)
  have hdst' := exists_iff (find_routeOf_dst h he)
  have hpath : build repo ++ [e.2, e.1] = (routeOf repo e).dst := by simp [routeOf, Route.dst]
  have hitem : ∀ a : Route, Spot.src (a, []) = a.src ∧ Spot.dst (a, []) = a.dst := fun a => by simp [Spot.src, Spot.dst]
  unfold planEntry
  rw [hpath, if_neg hsrc']
  dsimp only
  split
  · rename_i hnone
    rw [hdst'] at hnone
    refine ⟨fun _ => .inl hnone, fun _ => ⟨[(routeOf repo e, [])], [], [], ?_, .move_one ?_ ?_ (by simp)⟩⟩
    · simp [Found.of, Found.none, Spot.src, Spot.dst, routeOf]
    · simpa [Spot.src] using hsrc
    · simpa [Spot.dst] using hnone
  · rename_i hthere
    rw [hdst'] at hthere
    split
    · rename_i hmerge
      rw [Bool.and_eq_true, Bool.and_eq_true, decide_eq_true_eq, isRealDir_child h.build, isRealDir_dst h he] at hmerge
      obtain ⟨⟨hmergeable, hsdir⟩, hddir⟩ := hmerge
      have hspec := @planMerge_spec t (depth t) (routeOf repo e, []) (by rw [(hitem _).1]; exact hsdir)
        (by rw [(hitem _).2]; exact hddir) (by omega)
      rw [(hitem _).1, (hitem _).2] at hspec
      refine ⟨fun hfree => .inr ⟨hmergeable, hsdir, hddir, hspec.1 hfree⟩, fun hfree => hspec.2 ?_⟩
      rcases hfree with hnone | ⟨-, -, -, hagrees⟩
      · exact absurd hnone hthere
      · exact hagrees
    · rename_i hmerge
      rw [Bool.and_eq_true, Bool.and_eq_true, decide_eq_true_eq, isRealDir_child h.build, isRealDir_dst h he] at hmerge
      refine ⟨fun hfree => absurd hfree (by simp), fun hfree => ?_⟩
      rcases hfree with hnone | ⟨hmergeable, hsdir, hddir, -⟩
      · exact absurd hnone hthere
      · exact absurd ⟨⟨hmergeable, hsdir⟩, hddir⟩ hmerge

theorem planEntry_absent (h : Legacy t repo) {e : Str × Str} (he : e ∈ entries t repo)
    (hsrc : t.node (routeOf repo e).src = none) : planEntry t repo e = .none := by
  have hlost : t.exists? (build repo ++ [e.1]) = false :=
    (exists_iff (Tree.find_child h.build (h.src e he))).mpr hsrc
  rw [planEntry, if_pos hlost]

theorem planAll_eq (h : Legacy t repo) : planAll t repo = .concat ((present t repo).map (planEntry t repo)) := by
  refine Found.concat_filter fun e he hfalse => planEntry_absent h he ?_
  simpa [routeOf] using hfalse

theorem mem_present {e : Str × Str} : e ∈ present t repo ↔ e ∈ entries t repo ∧ t.node (routeOf repo e).src ≠ none := by
  simp [present, routeOf]

/-- **The plan is free of conflicts exactly if nothing is in the way.** -/
theorem planAll_iff (h : Legacy t repo) : (planAll t repo).conflicts = [] ↔ ∀ e ∈ present t repo, Free t repo e := by
  rw [planAll_eq h, Found.conflicts_concat, List.forall_mem_map]
  refine forall₂_congr fun e he => ?_
  obtain ⟨hmem, hsrc⟩ := mem_present.mp he
  obtain ⟨hto, hof⟩ := planEntry_spec h hmem hsrc
  refine ⟨hto, fun hfree => ?_⟩
  obtain ⟨ms, us, ps, hf, -⟩ := hof hfree
  rw [hf]
  rfl

theorem planAll_finds (h : Legacy t repo) (hfree : ∀ e ∈ present t repo, Free t repo e) :
    Finds t (planAll t repo) ((present t repo).map fun e => (routeOf repo e, [])) := by
  rw [planAll_eq h]
  refine Finds.concat ?_ fun e he => (planEntry_spec h (mem_present.mp he).1 (mem_present.mp he).2).2 (hfree e he)
  have hnodup : ((present t repo).map Prod.fst).Nodup := by
    refine (nodup_entries h.build).sublist ?_
    exact (List.filter_sublist).map _
  refine (List.pairwise_map.mp hnodup).imp fun hne => ?_
  simpa [Spot.src, routeOf] using apart_child (build repo) hne

end BuildEnv
end Lab
end MqResiliency
