/-
# Files, directories and symbolic links

A tree of files by their paths (`Tree`). A path is looked up as the kernel
does, link by link (`resolve`), at most 40 of them; `looked` is what a lookup
meets on its way. A call that names a path follows the links before its last
name (`place`), or all of them (`find`).

Key theorems: `resolve_congr`, `resolve_dead`, `resolve_append`, `Tree.moved`.
-/
import Mathlib.Data.List.Dedup
import MqResiliency.Lib.Yaml

namespace MqResiliency
namespace Py

/-- The names from the root on. -/
abbrev Path : Type := List Str

inductive Inode : Type where
  | file (content : Bytes)
  | link (target : Str)
  | dir
deriving DecidableEq

/-! ### Looking up -/

/-- A part of the text of a link. -/
inductive Comp : Type where
  | here
  | up
  | down (name : Str)
deriving DecidableEq

/-- The parts of a text between slashes. -/
def comps (target : Str) : List Comp := (target.splitOn '/').map fun c =>
  if c = [] ∨ c = ['.'] then .here else if c = ['.', '.'] then .up else .down c

/-- Where a link in the directory `cur` starts from. -/
def start (target : Str) (cur : Path) : Path := if target.head? = some '/' then [] else cur

/-- The path of names only. -/
def plain (p : Path) : List Comp := p.map .down

theorem comps_slash (s t : Str) : comps (s ++ '/' :: t) = comps s ++ comps t := by
  rw [comps, List.splitOn_append_cons_self, List.map_append]
  rfl

section
variable (node : Path → Option Inode)

/-- What is at `cs`, from the directory `cur`; `follow` goes on at a link. -/
def walk (follow : Path → List Comp → Option Path) : Path → List Comp → Option Path
  | cur, [] => some cur
  | cur, .here :: cs => walk follow cur cs
  | cur, .up :: cs => walk follow cur.dropLast cs
  | cur, .down n :: cs => match node (cur ++ [n]) with
    | none => none
    | some (.file _) => if cs = [] then some (cur ++ [n]) else none
    | some (.link target) => follow (start target cur) (comps target ++ cs)
    | some .dir => walk follow (cur ++ [n]) cs

/-- The same, through that many links at most. -/
def resolve : ℕ → Path → List Comp → Option Path
  | 0 => walk node fun _ _ => none
  | n + 1 => walk node (resolve n)

/-- The paths that `walk` looks at; `follow` are those from a link on. -/
def walked (follow : Path → List Comp → List Path) : Path → List Comp → List Path
  | _, [] => []
  | cur, .here :: cs => walked follow cur cs
  | cur, .up :: cs => walked follow cur.dropLast cs
  | cur, .down n :: cs => (cur ++ [n]) :: match node (cur ++ [n]) with
    | none => []
    | some (.file _) => []
    | some (.link target) => follow (start target cur) (comps target ++ cs)
    | some .dir => walked follow (cur ++ [n]) cs

/-- The paths that `resolve` looks at. -/
def looked : ℕ → Path → List Comp → List Path
  | 0 => walked node fun _ _ => []
  | n + 1 => walked node (looked n)

end

section
variable {node node' : Path → Option Inode}

theorem walk_congr {follow follow' : Path → List Comp → Option Path} {seen : Path → List Comp → List Path}
    (hfollow : ∀ cur cs, (∀ q ∈ seen cur cs, node' q = node q) → follow' cur cs = follow cur cs) (cs : List Comp) :
    ∀ cur, (∀ q ∈ walked node seen cur cs, node' q = node q) → walk node' follow' cur cs = walk node follow cur cs := by
  induction cs with
  | nil => exact fun _ _ => rfl
  | cons c cs ih =>
    intro cur h
    cases c with
    | here => exact ih cur h
    | up => exact ih cur.dropLast h
    | down n =>
      simp only [walked, List.mem_cons, forall_eq_or_imp] at h
      obtain ⟨hn, hrest⟩ := h
      simp only [walk, hn]
      cases hnode : node (cur ++ [n]) with
      | none => rfl
      | some x =>
        rw [hnode] at hrest
        cases x with
        | file content => rfl
        | link target => exact hfollow _ _ hrest
        | dir => exact ih (cur ++ [n]) hrest

/-- Where nothing that a lookup meets has changed, it ends the same. -/
theorem resolve_congr : ∀ (n : ℕ) (cur : Path) (cs : List Comp),
    (∀ q ∈ looked node n cur cs, node' q = node q) → resolve node' n cur cs = resolve node n cur cs
  | 0, cur, cs, h => walk_congr (fun _ _ _ => rfl) cs cur h
  | n + 1, cur, cs, h => walk_congr (resolve_congr n) cs cur h

theorem walk_dead {follow follow' : Path → List Comp → Option Path} {seen : Path → List Comp → List Path}
    (hfollow : ∀ cur cs, (∀ q ∈ seen cur cs, node' q = node q ∨ node' q = none) → follow cur cs = none →
      follow' cur cs = none) (cs : List Comp) :
    ∀ cur, (∀ q ∈ walked node seen cur cs, node' q = node q ∨ node' q = none) → walk node follow cur cs = none →
      walk node' follow' cur cs = none := by
  induction cs with
  | nil => exact fun _ _ h => absurd h (by simp [walk])
  | cons c cs ih =>
    intro cur h hdead
    cases c with
    | here => exact ih cur h hdead
    | up => exact ih cur.dropLast h hdead
    | down n =>
      simp only [walked, List.mem_cons, forall_eq_or_imp] at h
      obtain ⟨hn, hrest⟩ := h
      simp only [walk] at hdead ⊢
      rcases hn with hn | hn
      · rw [hn]
        cases hnode : node (cur ++ [n]) with
        | none => rfl
        | some x =>
          rw [hnode] at hrest hdead
          cases x with
          | file content => exact hdead
          | link target => exact hfollow _ _ hrest hdead
          | dir => exact ih (cur ++ [n]) hrest hdead
      · rw [hn]

/-- A lookup that fails still does where what it meets has only gone. -/
theorem resolve_dead : ∀ (n : ℕ) (cur : Path) (cs : List Comp),
    (∀ q ∈ looked node n cur cs, node' q = node q ∨ node' q = none) → resolve node n cur cs = none →
      resolve node' n cur cs = none
  | 0, cur, cs, h, hdead => walk_dead (fun _ _ _ _ => rfl) cs cur h hdead
  | n + 1, cur, cs, h, hdead => walk_dead (resolve_dead n) cs cur h hdead

theorem walked_ne_none {follow : Path → List Comp → Option Path} {seen : Path → List Comp → List Path}
    (hfollow : ∀ cur cs, follow cur cs ≠ none → ∀ q ∈ seen cur cs, node q ≠ none) (cs : List Comp) :
    ∀ cur, walk node follow cur cs ≠ none → ∀ q ∈ walked node seen cur cs, node q ≠ none := by
  induction cs with
  | nil => exact fun _ _ _ hq => absurd hq (by simp [walked])
  | cons c cs ih =>
    intro cur hsome q hq
    cases c with
    | here => exact ih cur hsome q hq
    | up => exact ih cur.dropLast hsome q hq
    | down n =>
      simp only [walk] at hsome
      simp only [walked, List.mem_cons] at hq
      cases hnode : node (cur ++ [n]) with
      | none => simp [hnode] at hsome
      | some x =>
        rw [hnode] at hsome hq
        rcases hq with rfl | hq
        · simp [hnode]
        · cases x with
          | file content => simp at hq
          | link target => exact hfollow _ _ hsome q hq
          | dir => exact ih (cur ++ [n]) hsome q hq

/-- What a lookup that ends somewhere meets is there. -/
theorem looked_ne_none : ∀ (n : ℕ) (cur : Path) (cs : List Comp), resolve node n cur cs ≠ none →
    ∀ q ∈ looked node n cur cs, node q ≠ none
  | 0, cur, cs, h => walked_ne_none (fun _ _ h => absurd rfl h) cs cur h
  | n + 1, cur, cs, h => walked_ne_none (looked_ne_none n) cs cur h

theorem walk_kinds (h : ∀ q, node' q = node q ∨ ∃ b b', node q = some (.file b) ∧ node' q = some (.file b'))
    {follow follow' : Path → List Comp → Option Path} (hfollow : ∀ cur cs, follow' cur cs = follow cur cs)
    (cs : List Comp) : ∀ cur, walk node' follow' cur cs = walk node follow cur cs := by
  induction cs with
  | nil => exact fun _ => rfl
  | cons c cs ih =>
    intro cur
    cases c with
    | here => exact ih cur
    | up => exact ih cur.dropLast
    | down n =>
      simp only [walk]
      rcases h (cur ++ [n]) with heq | ⟨b, b', hb, hb'⟩
      · rw [heq]
        cases hnode : node (cur ++ [n]) with
        | none => rfl
        | some x =>
          cases x with
          | file content => rfl
          | link target => exact hfollow _ _
          | dir => exact ih (cur ++ [n])
      · rw [hb, hb']

/-- A lookup asks of a file only that it is one. -/
theorem resolve_kinds (h : ∀ q, node' q = node q ∨ ∃ b b', node q = some (.file b) ∧ node' q = some (.file b')) :
    ∀ (n : ℕ) (cur : Path) (cs : List Comp), resolve node' n cur cs = resolve node n cur cs
  | 0, cur, cs => walk_kinds h (fun _ _ => rfl) cs cur
  | n + 1, cur, cs => walk_kinds h (resolve_kinds h n) cs cur

theorem walk_append {d : Path} (hd : node d = some .dir) {k : ℕ} {follow : Path → List Comp → Option Path}
    (hk : resolve node k = walk node follow)
    (hfollow : ∀ cur cs, follow cur cs = some d → ∃ m, ∀ bs, follow cur (cs ++ bs) = resolve node m d bs)
    (cs : List Comp) :
    ∀ cur, walk node follow cur cs = some d → ∃ m, ∀ bs, walk node follow cur (cs ++ bs) = resolve node m d bs := by
  induction cs with
  | nil =>
    intro cur h
    obtain rfl : cur = d := Option.some.inj h
    exact ⟨k, fun bs => by rw [hk, List.nil_append]⟩
  | cons c cs ih =>
    intro cur h
    cases c with
    | here => exact ih cur h
    | up => exact ih cur.dropLast h
    | down n =>
      simp only [walk, List.cons_append] at h ⊢
      cases hnode : node (cur ++ [n]) with
      | none => simp [hnode] at h
      | some x =>
        cases x with
        | file content =>
          simp only [hnode, Option.ite_none_right_eq_some, Option.some.injEq] at h
          rw [h.2, hd] at hnode
          simp at hnode
        | link target =>
          simp only [hnode] at h
          obtain ⟨m, hm⟩ := hfollow _ _ h
          exact ⟨m, fun bs => by rw [← hm bs, List.append_assoc]⟩
        | dir =>
          simp only [hnode] at h
          exact ih (cur ++ [n]) h

/-- A lookup that ends in a directory goes on from there. -/
theorem resolve_append {d : Path} (hd : node d = some .dir) : ∀ (n : ℕ) (cs : List Comp) (cur : Path),
    resolve node n cur cs = some d → ∃ m, ∀ bs, resolve node n cur (cs ++ bs) = resolve node m d bs
  | 0, cs, cur, h => walk_append (k := 0) hd rfl (fun _ _ h => absurd h (by simp)) cs cur h
  | n + 1, cs, cur, h => walk_append (k := n + 1) hd rfl (fun cur cs => resolve_append hd n cs cur) cs cur h

/-- Through directories. -/
theorem resolve_dirs (m : ℕ) (bs : List Comp) : ∀ (p d : Path), (∀ x, x <+: p → x ≠ [] → node (d ++ x) = some .dir) →
    resolve node m d (plain p ++ bs) = resolve node m (d ++ p) bs
  | [], d, _ => by rw [List.append_nil]; rfl
  | n :: p, d, h => by
    have hn : node (d ++ [n]) = some .dir := h [n] ⟨p, rfl⟩ (by simp)
    have hrest : ∀ x, x <+: p → x ≠ [] → node (d ++ [n] ++ x) = some .dir := fun x hx _ => by
      have hcons : n :: x <+: n :: p := List.cons_prefix_cons.mpr ⟨rfl, hx⟩
      simpa using h (n :: x) hcons (by simp)
    have ih := resolve_dirs m bs p (d ++ [n]) hrest
    have hassoc : d ++ n :: p = d ++ [n] ++ p := by simp
    rw [hassoc, ← ih]
    cases m <;> simp [resolve, walk, plain, hn]

/-- The last name. -/
theorem resolve_down (m : ℕ) (d : Path) (n : Str) : resolve node m d [.down n] =
    match node (d ++ [n]), m with
    | none, _ => none
    | some (.link target), m + 1 => resolve node m (start target d) (comps target)
    | some (.link _), 0 => none
    | some _, _ => some (d ++ [n]) := by
  cases hnode : node (d ++ [n]) with
  | none => cases m <;> simp [resolve, walk, hnode]
  | some x => cases x <;> cases m <;> simp [resolve, walk, hnode]

end

/-! ### Trees -/

/-- The files below the root; `all` lists at least the paths that are there. -/
structure Tree : Type where
  node : Path → Option Inode
  all : List Path
  mem_all : ∀ p, node p ≠ none → p ∈ all
  root : node [] = some .dir
  parent : ∀ p n, node (p ++ [n]) ≠ none → node p = some .dir

namespace Tree

variable (t : Tree)

/-- What is found under a path, through at most 40 links. -/
def find (p : Path) : Option Path := resolve t.node 40 [] (plain p)

/-- `path.exists()`. -/
def exists? (p : Path) : Bool := (t.find p).isSome

/-- `path.is_dir()`. -/
def isDir (p : Path) : Bool := (t.find p).bind t.node = some .dir

/-- `path.is_file()`. -/
def isFile (p : Path) : Bool := match (t.find p).bind t.node with
  | some (.file _) => true
  | _ => false

/-- A name in a directory. -/
structure Place : Type where
  dir : Path
  name : Str
  isDir : t.node dir = some .dir

def Place.path {t : Tree} (a : t.Place) : Path := a.dir ++ [a.name]

/-- Where the entry that a path names is or would be. -/
def place (p : Path) : Option t.Place :=
  if p = [] then none
  else match t.find p.dropLast with
    | some d => if h : t.node d = some .dir then some ⟨d, p.getLastD [], h⟩ else none
    | none => none

/-- What a path names. -/
def lstat (p : Path) : Option Inode := (t.place p).bind fun a => t.node a.path

/-- `path.is_symlink()`. -/
def isSymlink (p : Path) : Bool := match t.lstat p with
  | some (.link _) => true
  | _ => false

/-- The names in a directory. -/
def names (d : Path) : List Str :=
  sortedStrs (((t.all.filter fun q => q ≠ [] ∧ q.dropLast = d ∧ t.node q ≠ none).map (·.getLastD [])).dedup)

/-- `sorted(path.iterdir())`, by their names. -/
def iterdir (p : Path) : List Str := match t.find p with
  | some d => t.names d
  | none => []

variable {t}

theorem mem_names {d : Path} {n : Str} : n ∈ t.names d ↔ t.node (d ++ [n]) ≠ none := by
  unfold names sortedStrs
  rw [List.mem_insertionSort, List.mem_dedup, List.mem_map]
  constructor
  · rintro ⟨q, hq, rfl⟩
    obtain ⟨-, hne, rfl, hnode⟩ : q ∈ t.all ∧ q ≠ [] ∧ q.dropLast = d ∧ t.node q ≠ none := by simpa using hq
    have hq : q.dropLast ++ [q.getLastD []] = q := by
      rw [List.getLastD_eq_getLast?, List.getLast?_eq_some_getLast hne, Option.getD_some, List.dropLast_append_getLast]
    rwa [hq]
  · intro h
    exact ⟨d ++ [n], by simpa using ⟨t.mem_all _ h, h⟩, by simp⟩

theorem nodup_names (d : Path) : (t.names d).Nodup :=
  (List.perm_insertionSort _ _).nodup_iff.mpr (List.nodup_dedup _)

/-- Above what is there are directories. -/
theorem node_of_append {p : Path} : ∀ {r : Path}, t.node (p ++ r) ≠ none → r ≠ [] → t.node p = some .dir := by
  intro r
  induction r using List.reverseRecOn with
  | nil => exact fun _ h => absurd rfl h
  | append_singleton r n ih =>
    intro h _
    have hr : t.node (p ++ r) = some .dir := t.parent (p ++ r) n (by rwa [List.append_assoc])
    by_cases hnil : r = []
    · rwa [hnil, List.append_nil] at hr
    · exact ih (by simp [hr]) hnil

theorem node_append_eq_none {p : Path} (h : t.node p = none) (r : Path) : t.node (p ++ r) = none := by
  by_contra hne
  by_cases hnil : r = []
  · rw [hnil, List.append_nil] at hne
    exact hne h
  · have hdir : t.node p = some .dir := node_of_append hne hnil
    rw [h] at hdir
    simp at hdir

theorem find_append {p d : Path} (hp : t.find p = some d) (hd : t.node d = some .dir) :
    ∃ m, ∀ r, t.find (p ++ r) = resolve t.node m d (plain r) := by
  obtain ⟨m, hm⟩ := resolve_append hd 40 (plain p) [] hp
  exact ⟨m, fun r => by rw [← hm, find, plain, plain, plain, List.map_append]⟩

/-- A directory below one that is found. -/
theorem find_append_dir {p d : Path} (hp : t.find p = some d) (hd : t.node d = some .dir) {r : Path}
    (hr : t.node (d ++ r) = some .dir) : t.find (p ++ r) = some (d ++ r) := by
  obtain ⟨m, hm⟩ := find_append hp hd
  have hdirs : ∀ x, x <+: r → x ≠ [] → t.node (d ++ x) = some .dir := by
    rintro x ⟨y, rfl⟩ -
    by_cases hy : y = []
    · rwa [hy, List.append_nil] at hr
    · exact node_of_append (r := y) (by rw [List.append_assoc, hr]; simp) hy
  have hend := resolve_dirs m [] r d hdirs
  rw [hm, ← List.append_nil (plain r), hend]
  cases m <;> rfl

theorem find_nil : t.find [] = some [] := rfl

theorem find_dir {p : Path} (hp : t.node p = some .dir) : t.find p = some p := by
  have h := find_append_dir (r := p) (find_nil (t := t)) t.root (by simpa using hp)
  simpa using h

theorem place_append {p d : Path} (hp : t.find p = some d) (hd : t.node d = some .dir) (n : Str) :
    t.place (p ++ [n]) = some ⟨d, n, hd⟩ := by
  unfold place
  rw [if_neg (by simp)]
  simp only [List.dropLast_concat, hp, dif_pos hd]
  simp

theorem names_eq_nil {d : Path} : t.names d = [] ↔ ∀ n, t.node (d ++ [n]) = none := by
  rw [List.eq_nil_iff_forall_not_mem]
  exact forall_congr' fun n => by rw [mem_names, not_not]

/-- Nothing is below what is no directory. -/
theorem child_eq_none {p : Path} (h : t.node p ≠ some .dir) (n : Str) : t.node (p ++ [n]) = none :=
  by_contra fun hne => h (t.parent p n hne)

/-- Where no link is on the way, a path leads to itself. -/
theorem resolve_real (m : ℕ) : ∀ (p cur : Path),
    (∀ x, x <+: p → x ≠ [] → ∀ target, t.node (cur ++ x) ≠ some (.link target)) → t.node cur ≠ none →
    resolve t.node m cur (plain p) = if t.node (cur ++ p) = none then none else some (cur ++ p)
  | [], cur, _, hcur => by
    rw [List.append_nil, if_neg hcur]
    cases m <;> rfl
  | n :: p, cur, hreal, _ => by
    have hassoc : cur ++ n :: p = cur ++ [n] ++ p := by simp
    have hstep : resolve t.node m cur (plain (n :: p)) =
        walk t.node (if m = 0 then fun _ _ => none else resolve t.node (m - 1)) cur (.down n :: plain p) := by
      cases m <;> rfl
    rw [hstep, walk, hassoc]
    cases hn : t.node (cur ++ [n]) with
    | none =>
      rw [if_pos (node_append_eq_none hn p)]
    | some x =>
      cases x with
      | file content =>
        cases p with
        | nil => simp [hn, plain]
        | cons k p =>
          have hbelow : t.node (cur ++ [n] ++ k :: p) = none := by
            by_contra hne
            have hdir := node_of_append hne (List.cons_ne_nil k p)
            rw [hn] at hdir
            cases hdir
          rw [if_pos hbelow]
          simp [plain]
      | link target => exact absurd hn (hreal [n] ⟨p, rfl⟩ (by simp) target)
      | dir =>
        have ih := resolve_real m p (cur ++ [n]) (fun x hx _ target => by
          have hcons : n :: x <+: n :: p := List.cons_prefix_cons.mpr ⟨rfl, hx⟩
          simpa using hreal (n :: x) hcons (by simp) target) (by simp [hn])
        rw [← ih]
        cases m <;> rfl

theorem find_real {p : Path} (h : ∀ x, x <+: p → ∀ target, t.node x ≠ some (.link target)) :
    t.find p = if t.node p = none then none else some p := by
  have hroot : t.node [] ≠ none := by simp [t.root]
  simpa [find] using resolve_real 40 p [] (fun x hx _ target => h x hx target) hroot

/-- A name in a directory that is no link leads to itself. -/
theorem find_child {d : Path} {n : Str} (hd : t.node d = some .dir)
    (h : ∀ target, t.node (d ++ [n]) ≠ some (.link target)) :
    t.find (d ++ [n]) = if t.node (d ++ [n]) = none then none else some (d ++ [n]) := by
  refine find_real fun x hx target => ?_
  rcases List.prefix_concat_iff.mp hx with rfl | hx
  · exact h target
  · obtain ⟨r, rfl⟩ := hx
    by_cases hr : r = []
    · rw [hr, List.append_nil] at hd
      simp [hd]
    · rw [node_of_append (r := r) (by simp [hd]) hr]
      simp

/-- What is first of a path in a list of entries. -/
def entry (es : List (Path × Inode)) (p : Path) : Option Inode := (es.find? fun e => e.1 = p).map Prod.snd

theorem exists_of_entry {es : List (Path × Inode)} {p : Path} (h : entry es p ≠ none) : ∃ e ∈ es, e.1 = p := by
  obtain ⟨x, hx⟩ := Option.ne_none_iff_exists'.mp h
  obtain ⟨e, he, -⟩ := Option.map_eq_some_iff.mp hx
  exact ⟨e, List.mem_of_find?_eq_some he, by simpa using List.find?_some he⟩

theorem entry_concat {es : List (Path × Inode)} {p q : Path} {x : Inode} (h : q ≠ p) :
    entry (es ++ [(p, x)]) q = entry es q := by
  unfold entry
  rw [List.find?_append, List.find?_singleton, if_neg (by simpa using h.symm), Option.or_none]

/-- The tree of some entries. -/
def ofList (es : List (Path × Inode)) (hroot : entry es [] = some .dir)
    (hparent : ∀ e ∈ es, entry es e.1.dropLast = some .dir) : Tree where
  node := entry es
  all := es.map Prod.fst
  mem_all p h := by
    obtain ⟨e, he, rfl⟩ := exists_of_entry h
    exact List.mem_map_of_mem he
  root := hroot
  parent p n h := by
    obtain ⟨e, he, heq⟩ := exists_of_entry h
    have hdir := hparent e he
    rwa [heq, List.dropLast_concat] at hdir

/-! ### Changes -/

variable (t)

/-- A directory more. -/
def added (a : t.Place) : Tree where
  node p := if p = a.path then some .dir else t.node p
  all := a.path :: t.all
  mem_all p h := by
    by_cases hp : p = a.path
    · exact hp ▸ List.mem_cons_self
    · rw [if_neg hp] at h
      exact List.mem_cons_of_mem _ (t.mem_all p h)
  root := by rw [if_neg (by simp [Place.path]), t.root]
  parent p n h := by
    by_cases hp : p = a.path
    · rw [if_pos hp]
    · rw [if_neg hp]
      by_cases hn : p ++ [n] = a.path
      · obtain ⟨rfl, -⟩ : p = a.dir ∧ [n] = [a.name] := List.append_inj' hn rfl
        exact a.isDir
      · rw [if_neg hn] at h
        exact t.parent p n h

/-- An entry less that has nothing below it. -/
def removed (a : t.Place) (h : ∀ n, t.node (a.path ++ [n]) = none) : Tree where
  node p := if p = a.path then none else t.node p
  all := t.all
  mem_all p hp := t.mem_all p fun hnone => hp (by rw [hnone]; exact ite_self _)
  root := by rw [if_neg (by simp [Place.path]), t.root]
  parent p n hn := by
    have hchild : t.node (p ++ [n]) ≠ none := fun hnone => hn (by rw [hnone]; exact ite_self _)
    have hp : p ≠ a.path := fun he => hchild (he.symm ▸ h n)
    rw [if_neg hp]
    exact t.parent p n hchild

/-- The entry `a` and all below it are at `b` instead. -/
def moved (a b : t.Place) (hab : ¬ a.path <+: b.path) : Tree where
  node p :=
    if b.path <+: p then t.node (a.path ++ p.drop b.path.length) else if a.path <+: p then none else t.node p
  all := t.all ++ t.all.map fun p => b.path ++ p.drop a.path.length
  mem_all p hp := by
    split at hp
    · rename_i hb
      obtain ⟨r, rfl⟩ := hb
      rw [List.drop_left] at hp
      exact List.mem_append_right _ (List.mem_map.mpr ⟨_, t.mem_all _ hp, by rw [List.drop_left]⟩)
    · split at hp
      · exact absurd rfl hp
      · exact List.mem_append_left _ (t.mem_all p hp)
  root := by
    rw [if_neg (by simp [Place.path]), if_neg (by simp [Place.path]), t.root]
  parent p n hp := by
    by_cases hb : b.path <+: p
    · obtain ⟨r, rfl⟩ := hb
      have hbn : b.path <+: b.path ++ r ++ [n] := ⟨r ++ [n], by simp⟩
      rw [if_pos hbn, List.append_assoc, List.drop_left, ← List.append_assoc] at hp
      rw [if_pos (List.prefix_append _ _), List.drop_left]
      exact t.parent _ n hp
    · rw [if_neg hb]
      by_cases hbn : b.path <+: p ++ [n]
      · -- only `b` itself is new here
        obtain rfl : p = b.dir := by
          rcases List.prefix_concat_iff.mp hbn with heq | hlt
          · exact (List.append_inj' heq rfl).1.symm
          · exact absurd hlt hb
        rw [if_neg fun ha => hab (ha.trans (List.prefix_append _ _)), b.isDir]
      · rw [if_neg hbn] at hp
        by_cases ha : a.path <+: p
        · rw [if_pos (ha.trans (List.prefix_append _ _))] at hp
          exact absurd rfl hp
        · rw [if_neg ha]
          split at hp
          · exact absurd rfl hp
          · exact t.parent p n hp

/-- May the one replace the other? -/
def mayReplace (a b : Option Inode) (empty : Bool) : Bool :=
  match a, b with
  | none, _ => false
  | some _, none => true
  | some .dir, some .dir => empty
  | some .dir, some _ => false
  | some _, some .dir => false
  | some _, some _ => true

/-- `path.mkdir(parents=True, exist_ok=True)` where the parents are there;
`none` is `FileExistsError`, or what is raised for a parent. -/
def mkdir (p : Path) : Option Tree :=
  if t.isDir p then some t
  else match t.place p with
    | some a => if t.node a.path = none then some (t.added a) else none
    | none => none

/-- `os.rename`. -/
def rename (src dst : Path) : Option Tree :=
  match t.place src, t.place dst with
  | some a, some b =>
    if a.path = b.path then some t
    else if hab : a.path <+: b.path then none
    else if mayReplace (t.node a.path) (t.node b.path) (t.names b.path = []) then some (t.moved a b hab) else none
  | _, _ => none

/-- `os.unlink`. -/
def unlink (p : Path) : Option Tree :=
  match t.place p with
  | some a =>
    if h : t.node a.path ≠ none ∧ t.node a.path ≠ some .dir then some (t.removed a (child_eq_none h.2)) else none
  | none => none

/-- `os.rmdir`. -/
def rmdir (p : Path) : Option Tree :=
  match t.place p with
  | some a =>
    if h : t.node a.path = some .dir ∧ t.names a.path = [] then some (t.removed a (names_eq_nil.mp h.2)) else none
  | none => none

/-! ### What the changes change -/

/-- All below `p` is below `q` instead. -/
structure Moves (t t' : Tree) (p q : Path) : Prop where
  dst : ∀ r, t'.node (q ++ r) = t.node (p ++ r)
  src : ∀ r, ¬ q <+: p ++ r → t'.node (p ++ r) = none
  other : ∀ u, ¬ p <+: u → ¬ q <+: u → t'.node u = t.node u

/-- Only `p` is another. -/
structure Puts (t t' : Tree) (p : Path) (x : Option Inode) : Prop where
  there : t'.node p = x
  other : ∀ u, u ≠ p → t'.node u = t.node u

variable {t}

theorem moves_moved (a b : t.Place) (hab : ¬ a.path <+: b.path) : Moves t (t.moved a b hab) a.path b.path where
  dst r := by
    show (if b.path <+: b.path ++ r then _ else _) = _
    rw [if_pos (List.prefix_append _ _), List.drop_left]
  src r hr := by
    show (if b.path <+: a.path ++ r then _ else if a.path <+: a.path ++ r then none else _) = none
    rw [if_neg hr, if_pos (List.prefix_append _ _)]
  other u ha hb := by
    show (if b.path <+: u then _ else if a.path <+: u then none else t.node u) = t.node u
    rw [if_neg hb, if_neg ha]

/-- A rename to where there is nothing. -/
theorem rename_eq {src dst : Path} {a b : t.Place} (ha : t.place src = some a) (hb : t.place dst = some b)
    (hab : ¬ a.path <+: b.path) (hsrc : t.node a.path ≠ none) (hdst : t.node b.path = none) :
    ∃ t', t.rename src dst = some t' ∧ Moves t t' a.path b.path := by
  have hne : a.path ≠ b.path := fun he => hab (he ▸ List.prefix_rfl)
  have hmay : mayReplace (t.node a.path) (t.node b.path) (t.names b.path = []) := by
    rw [hdst]
    cases h : t.node a.path with
    | none => exact absurd h hsrc
    | some x => rfl
  refine ⟨t.moved a b hab, ?_, moves_moved a b hab⟩
  simp [rename, ha, hb, hne, hab, hmay]

theorem unlink_eq {p : Path} {a : t.Place} (ha : t.place p = some a) (hnone : t.node a.path ≠ none)
    (hdir : t.node a.path ≠ some .dir) : ∃ t', t.unlink p = some t' ∧ Puts t t' a.path none := by
  refine ⟨t.removed a (child_eq_none hdir), ?_, if_pos rfl, fun u hu => if_neg hu⟩
  simp [unlink, ha, hnone, hdir]

theorem rmdir_eq {p : Path} {a : t.Place} (ha : t.place p = some a) (hdir : t.node a.path = some .dir)
    (hempty : ∀ n, t.node (a.path ++ [n]) = none) : ∃ t', t.rmdir p = some t' ∧ Puts t t' a.path none := by
  refine ⟨t.removed a hempty, ?_, if_pos rfl, fun u hu => if_neg hu⟩
  simp [rmdir, ha, hdir, names_eq_nil.mpr hempty]

theorem mkdir_eq {p : Path} {a : t.Place} (hp : t.isDir p = false) (ha : t.place p = some a)
    (hnone : t.node a.path = none) : ∃ t', t.mkdir p = some t' ∧ Puts t t' a.path (some .dir) := by
  refine ⟨t.added a, ?_, if_pos rfl, fun u hu => if_neg hu⟩
  simp [mkdir, hp, ha, hnone]

theorem mkdir_of_isDir {p : Path} (hp : t.isDir p) : t.mkdir p = some t := if_pos hp

end Tree

/-! ### Operations -/

inductive Op : Type where
  | mkdir (p : Path)
  | rename (src dst : Path)
  | unlink (p : Path)
  | rmdir (p : Path)

def Op.run (t : Tree) : Op → Option Tree
  | .mkdir p => t.mkdir p
  | .rename src dst => t.rename src dst
  | .unlink p => t.unlink p
  | .rmdir p => t.rmdir p

/-- Operations up to the first that fails: did all work, and what is there then? -/
def runOps : List Op → Tree → Bool × Tree
  | [], t => (true, t)
  | op :: ops, t => match op.run t with
    | some t' => runOps ops t'
    | none => (false, t)

end Py
end MqResiliency
