/-
# The collection spares what resolves, and only that

A name resolves if a selection of the catalog comes to it (`Selected`): these
are the names that the collection of unreferenced boxes protects
(`resolvableNames_law`). A protected box keeps its registration and its cache
files (`wp_collect`), whatever the host holds.

A node boots what its stack's instance record pins, and the record outlives
the catalog it was made under: the box of a version that the stack no longer
supports is not selected, and goes (`spared_iff`).
-/
import Mathlib.Data.Char
import Mathlib.Data.List.Lex
import MqResiliency.Lab.BoxGcLaw
import MqResiliency.Lab.LoadLaw
import MqResiliency.Lab.NodeLaw

namespace MqResiliency
namespace Lab
namespace BoxGc

open Py Prog

/-! ### The names that are protected -/

/-- A selection of the catalog, or the fleet of this host, comes to the name. -/
def Selected (topo : Topology) (cat : Catalog) (fleet : List Str) (n : Str) : Prop :=
  (∃ p ∈ sharedPairs cat ∪ topologyPairs topo cat, n = boxName p.1 p.2) ∨
    (∃ ref e, cat.oses.get? ref = some e ∧ n = e.baseBox) ∨ n ∈ fleet

theorem resolvableNames_law (printable : Char → Bool) {topo : Topology} {cat : Catalog} (hs : Sound cat)
    (hdecl : ∀ p ∈ topo.nodes.items, ∃ role, Declares cat p.2 role) (fleet : List Str) :
    (∀ names, (resolvableNames printable topo cat fleet).exec = .ok names →
      Enumerable topo cat ∧ ∀ n, n ∈ names ↔ Selected topo cat fleet n) ∧
    (Enumerable topo cat → ∃ names, (resolvableNames printable topo cat fleet).exec = .ok names) := by
  obtain ⟨roles, hroles, hall, hnames⟩ := allBoxes_of_topology printable hs hdecl
  have hexec : (resolvableNames printable topo cat fleet).exec =
      (cat.allBoxes printable none roles).exec >>= fun bs =>
        .ok (bs.map BoxEntry.name ++ cat.oses.values.map OsEntry.baseBox ++ fleet) := by
    rw [resolvableNames, Conv.exec_bind, hroles]
    show (resolvableBoxNames printable cat fleet roles).exec = _
    rw [resolvableBoxNames, Conv.exec_bind]
    rfl
  have hbase : ∀ n, n ∈ cat.oses.values.map OsEntry.baseBox ↔ ∃ ref e, cat.oses.get? ref = some e ∧ n = e.baseBox := by
    intro n
    constructor
    · intro hn
      obtain ⟨e, he, rfl⟩ := List.mem_map.mp hn
      obtain ⟨⟨ref, e⟩, hitem, rfl⟩ := List.mem_map.mp he
      exact ⟨ref, e, Dict.get?_eq_some.mpr hitem, rfl⟩
    · intro ⟨ref, e, hget, hn⟩
      exact List.mem_map.mpr ⟨e, List.mem_map.mpr ⟨_, Dict.get?_eq_some.mp hget, rfl⟩, hn.symm⟩
  constructor
  · intro names hok
    rw [hexec] at hok
    cases hbs : (cat.allBoxes printable none roles).exec with
    | error e =>
      rw [hbs] at hok
      exact absurd hok (by simp [Bind.bind, Except.bind])
    | ok bs =>
      rw [hbs] at hok
      obtain rfl : _ = names := by simpa [Bind.bind, Except.bind] using hok
      refine ⟨hall.mp ⟨bs, hbs⟩, fun n => ?_⟩
      rw [Selected, List.mem_append, List.mem_append, hnames bs hbs, hbase]
  · intro henum
    obtain ⟨bs, hbs⟩ := hall.mpr henum
    rw [hexec, hbs]
    exact ⟨_, rfl⟩

/-! ### A protected box is spared -/

/-- The command removes neither the box's registration nor a cache file of it. -/
def Spares (dir n : Str) : Cmd → Prop
  | .boxRemove m => m ≠ n
  | .unlink path => ∀ file, fatCache file = some n → path ≠ dir ++ '/' :: file
  | _ => True

theorem spares_of_reads {dir n : Str} : ∀ c : Cmd, c.Reads → Spares dir n c
  | .volList _, _ => trivial
  | .volDump _ _, _ => trivial
  | .boxStore, _ => trivial
  | .boxList, _ => trivial
  | .cacheFiles, _ => trivial

/-- The registration and the cache files of the box are still there. -/
def Kept (dir n : Str) (h : History Cmd Ans) : Prop := ∀ e ∈ h, Spares dir n e.1

/-- A name that a look can find: generated, and in one line. -/
def Findable (cat : Catalog) (n : Str) : Prop := generatedBoxName n cat = true ∧ '\n' ∉ n

/-- What may be removed. -/
def Loose (cat : Catalog) (shielded : List Str) (n : Str) : Prop :=
  Findable cat n ∧ n ∉ retiredBoxNames ∧ n ∉ shielded

/-- The files are those of findable names, each its own. -/
def Cached (dir : Str) (cat : Catalog) (out : Dict Str (List Str)) : Prop :=
  ∀ n files, out.get? n = some files → Findable cat n ∧
    ∀ path ∈ files, ∃ file, path = dir ++ '/' :: file ∧ fatCache file = some n

/-- A look finds findable names, each with its own files. -/
structure FoundSound (dir : Str) (cat : Catalog) (f : Found) : Prop where
  registered : ∀ n ∈ f.registered, Findable cat n
  pooled : ∀ n ∈ f.pooled, Findable cat n
  cached : Cached dir cat f.cached

section
variable {dir n : Str} {α : Type}

/-- The world that answers anything. -/
abbrev world : Env (History Cmd Ans) Cmd Ans := Hist fun _ _ => True

theorem kept_concat {h : History Cmd Ans} (hh : Kept dir n h) {c : Cmd} (hc : Spares dir n c) (a : Ans c) :
    Kept dir n (h ++ [⟨c, a⟩]) := by
  intro e he
  rcases List.mem_append.mp he with he | he
  · exact hh e he
  · obtain rfl := List.mem_singleton.mp he
    exact hc

/-- A program of such commands keeps the box. -/
theorem wp_of_spares {p : Gc α} (hp : p.Issues (Spares dir n)) {Q : α → History Cmd Ans → Prop}
    {E : Halt → History Cmd Ans → Prop} (hQ : ∀ a h, Kept dir n h → Q a h) (hE : ∀ e h, Kept dir n h → E e h)
    {h : History Cmd Ans} (hh : Kept dir n h) : p.wp world (Kept dir n) Q E h := by
  have hstep : ∀ (s : History Cmd Ans) (c : Cmd) (a : Ans c) (s' : History Cmd Ans), Spares dir n c → Kept dir n s →
      world s c a s' → Kept dir n s' ∧ Kept dir n s' := by
    intro s c a s' hc hs hstep
    obtain ⟨-, rfl⟩ := hstep
    exact ⟨kept_concat hs hc a, kept_concat hs hc a⟩
  exact wp_mono hQ hE p h (wp_of_issues hstep hp h hh)

variable {cat : Catalog}

theorem not_mem_of_fatCache {file box : Str} (h : fatCache file = some box) : '\n' ∉ box := by
  obtain ⟨-, hbox⟩ := Option.filter_eq_some_iff.mp h
  have hboth : box ≠ [] ∧ '\n' ∉ box := by simpa using hbox
  exact hboth.2

theorem not_mem_of_boxImage {name stem ds : Str} (h : boxImage name = some (stem, ds)) : '\n' ∉ stem := by
  simp only [boxImage, Option.bind_eq_bind, Option.bind_eq_some_iff] at h
  obtain ⟨front, -, stem', -, hstem⟩ := h
  split at hstem
  · rename_i hok
    obtain ⟨rfl, -⟩ : stem' = stem ∧ _ := by simpa using hstem
    exact hok.2.2
  · exact absurd hstem (by simp)

theorem not_mem_linesFrom : ∀ (s cur : Str) (cr : Bool), '\n' ∉ cur → ∀ l ∈ linesFrom cr cur s, '\n' ∉ l
  | [], cur, cr, hcur => by
    intro l hl
    unfold linesFrom at hl
    split at hl
    · exact absurd hl (by simp)
    · exact List.mem_singleton.mp hl ▸ hcur
  | c :: s, cur, cr, hcur => by
    unfold linesFrom
    split
    · exact not_mem_linesFrom s cur false hcur
    · split
      · intro l hl
        rcases List.mem_cons.mp hl with rfl | hl
        · exact hcur
        · exact not_mem_linesFrom s [] _ (by simp) l hl
      · rename_i hbreak
        refine not_mem_linesFrom s (cur ++ [c]) false fun hin => ?_
        rcases List.mem_append.mp hin with hin | hin
        · exact hcur hin
        · have hc : '\n' = c := List.mem_singleton.mp hin
          exact hbreak (hc ▸ rfl)

/-- A registered box has a name of one line. -/
theorem not_mem_of_registeredBoxes {text n : Str} (h : n ∈ registeredBoxes text) : '\n' ∉ n := by
  have hmem : n ∈ (splitlines text).filterMap listedBox := by simpa [registeredBoxes, mem_addHosts] using h
  obtain ⟨raw, hraw, hlisted⟩ := List.mem_filterMap.mp hmem
  have hline : '\n' ∉ raw := not_mem_linesFrom text [] false (by simp) raw hraw
  unfold listedBox at hlisted
  dsimp only at hlisted
  split at hlisted
  · exact absurd hlisted (by simp)
  · obtain rfl : _ = n := by simpa using hlisted
    intro hin
    have htrim : '\n' ∈ trim raw := (List.takeWhile_sublist _).mem hin
    have hdrop : '\n' ∈ raw.dropWhile Re.isSpace := (List.rdropWhile_prefix _ _).mem htrim
    exact hline ((List.dropWhile_sublist _).mem hdrop)

theorem cached_addFile {out : Dict Str (List Str)} (hout : Cached dir cat out) (file : Str) :
    Cached dir cat (addFile cat dir out file) := by
  unfold addFile
  split
  · rename_i box hbox
    obtain ⟨hfat, hgen⟩ := Option.filter_eq_some_iff.mp hbox
    intro n files hget
    rw [Dict.get?_push] at hget
    split at hget
    · rename_i heq
      subst heq
      obtain rfl : _ = files := by simpa using hget
      refine ⟨⟨hgen, not_mem_of_fatCache hfat⟩, fun path hpath => ?_⟩
      rcases List.mem_append.mp hpath with hpath | hpath
      · cases hold : out.get? n with
        | none => simp [hold] at hpath
        | some files => exact (hout n files hold).2 path (by simpa [hold] using hpath)
      · exact ⟨file, List.mem_singleton.mp hpath, hfat⟩
    · exact hout n files hget
  · exact hout

theorem cached_addFiles : ∀ (files : List Str) {out : Dict Str (List Str)}, Cached dir cat out →
    Cached dir cat (files.foldl (addFile cat dir) out)
  | [], _, hout => hout
  | file :: files, _, hout => cached_addFiles files (cached_addFile hout file)

theorem wp_ask_kept {c : Cmd} (hc : Spares dir n c) {Q : Ans c → History Cmd Ans → Prop}
    {E : Halt → History Cmd Ans → Prop} (hQ : ∀ a h, Kept dir n h → Q a h) {h : History Cmd Ans}
    (hh : Kept dir n h) : (ask c : Gc (Ans c)).wp world (Kept dir n) Q E h := by
  rintro a h' ⟨-, rfl⟩
  exact ⟨kept_concat hh hc a, hQ a _ (kept_concat hh hc a)⟩

/-- The pool's part of a look. -/
theorem wp_lookAtPool {pool : Str} {h : History Cmd Ans} (hh : Kept dir n h) :
    (lookAtPool pool cat).wp world (Kept dir n)
      (fun p h => (∀ stem ∈ p.1, Findable cat stem) ∧ Kept dir n h) (fun _ h => Kept dir n h) h := by
  unfold lookAtPool
  rw [wp_tryCatch, wp_bind]
  refine wp_of_spares ((scanPool_reads pool).mono spares_of_reads) (fun scan h hh => ?_) (fun e h hh => ?_) hh
  case refine_2 =>
    split
    · exact ⟨fun stem hstem => absurd hstem (by simp), hh⟩
    · exact hh
  rw [wp_bind]
  rcases boxImagesFrom_eq scan.names [] .empty grouped_empty with ⟨imgs, himgs, hgroup⟩ | hfail
  · rw [PoolScan.boxImages, himgs]
    refine ⟨fun stem hstem => ?_, hh⟩
    obtain ⟨hkey, hgen⟩ := List.mem_filter.mp hstem
    obtain ⟨name, -, ds, hname⟩ := hgroup.stems stem hkey
    exact ⟨hgen, not_mem_of_boxImage hname⟩
  · rw [PoolScan.boxImages, hfail]
    exact hh

theorem wp_lookAtHost {pool : Str} {h : History Cmd Ans} (hh : Kept dir n h) :
    (lookAtHost pool dir cat).wp world (Kept dir n) (fun f h => FoundSound dir cat f ∧ Kept dir n h)
      (fun _ h => Kept dir n h) h := by
  unfold lookAtHost
  rw [wp_bind]
  refine wp_mono (fun p h hp => ?_) (fun _ _ he => he) _ h (wp_lookAtPool hh)
  obtain ⟨hpooled, hh⟩ := hp
  rw [wp_bind]
  have hlist : Spares dir n Cmd.boxList := trivial
  refine wp_ask_kept hlist (fun text h hh => ?_) hh
  rw [wp_bind]
  have hfiles : Spares dir n Cmd.cacheFiles := trivial
  refine wp_ask_kept hfiles (fun files h hh => ?_) hh
  refine ⟨⟨fun m hm => ?_, hpooled, ?_⟩, hh⟩
  · obtain ⟨hin, hgen⟩ := List.mem_filter.mp hm
    exact ⟨hgen, not_mem_of_registeredBoxes (List.mem_filter.mp hin).1⟩
  exact cached_addFiles _ fun m files hget => absurd hget (by simp)

/-- A candidate has a findable name that is not retired. -/
theorem findable_of_candidates {f : Found} (hf : FoundSound dir cat f) {m : Str} (hm : m ∈ candidates f) :
    Findable cat m ∧ m ∉ retiredBoxNames := by
  have hmem : m ∈ (addHosts [] (f.registered ++ f.cached.keys ++ f.pooled)).filter (· ∉ retiredBoxNames) := by
    simpa [candidates, sortedStrs] using hm
  obtain ⟨hin, hretired⟩ := List.mem_filter.mp hmem
  refine ⟨?_, by simpa using hretired⟩
  have hwhere : m ∈ f.registered ∨ m ∈ f.cached.keys ∨ m ∈ f.pooled := by simpa [mem_addHosts] using hin
  rcases hwhere with hreg | hcached | hpool
  · exact hf.registered m hreg
  · obtain ⟨files, hfiles⟩ := Option.isSome_iff_exists.mp (Dict.get?_isSome.mpr hcached)
    exact (hf.cached m files hfiles).1
  · exact hf.pooled m hpool

/-- The removal of another box. -/
theorem removeBox_spares {f : Found} (hf : FoundSound dir cat f) {m : Str} (hm : m ≠ n) :
    (removeBox (f.boxOf m)).Issues (Spares dir n) := by
  have hpath : ∀ path ∈ (f.cached.get? m).getD [], Spares dir n (.unlink path) := by
    intro path hpath file hfile heq
    cases hget : f.cached.get? m with
    | none => simp [hget] at hpath
    | some files =>
      obtain ⟨file', rfl, hfile'⟩ := (hf.cached m files hget).2 path (by simpa [hget] using hpath)
      have hsame : file' = file := by simpa using heq
      rw [hsame, hfile] at hfile'
      exact hm (Option.some.inj hfile').symm
  have hunlink : ∀ files : List Str, (∀ path ∈ files, Spares dir n (.unlink path)) →
      (removeBox.unlinkAll files).Issues (Spares dir n) := by
    intro files
    induction files with
    | nil => exact fun _ => trivial
    | cons path files ih =>
      intro hfiles
      refine issues_bind (issues_ask (hfiles path List.mem_cons_self)) fun _ => ?_
      exact ih fun p hp => hfiles p (List.mem_cons_of_mem path hp)
  refine issues_bind (hunlink _ hpath) fun _ => ?_
  have hremove : (vagrantBoxRemove m).Issues (Spares dir n) := by
    refine issues_bind (issues_ask hm) fun r => ?_
    split <;> trivial
  split
  · exact hremove
  · trivial

variable {shielded : List Str}

theorem wp_cleanFrom {dryRun : Bool} {f : Found} (hf : FoundSound dir cat f) (hn : n ∈ shielded) :
    ∀ (names : List Str) (acc : UnreferencedResult) (h : History Cmd Ans),
    (∀ m ∈ names, Findable cat m ∧ m ∉ retiredBoxNames) →
    (∀ b ∈ acc.removed, Loose cat shielded b.name) → Kept dir n h →
    (cleanFrom dryRun shielded f acc names).wp world (Kept dir n)
      (fun r h => (∀ b ∈ r.removed, Loose cat shielded b.name) ∧ Kept dir n h) (fun _ h => Kept dir n h) h
  | [], acc, h, _, hacc, hh => ⟨hacc, hh⟩
  | m :: names, acc, h, hnames, hacc, hh => by
    have hrest : ∀ m' ∈ names, Findable cat m' ∧ m' ∉ retiredBoxNames := fun m' hm' =>
      hnames m' (List.mem_cons_of_mem m hm')
    unfold cleanFrom
    split
    · exact wp_cleanFrom hf hn names _ h hrest hacc hh
    · rename_i hshield
      split
      · exact wp_cleanFrom hf hn names _ h hrest hacc hh
      · have hne : m ≠ n := fun heq => hshield (heq ▸ hn)
        have hloose : ∀ b ∈ acc.removed ++ [f.boxOf m], Loose cat shielded b.name := by
          intro b hb
          rcases List.mem_append.mp hb with hb | hb
          · exact hacc b hb
          · obtain rfl := List.mem_singleton.mp hb
            obtain ⟨hgen, hretired⟩ := hnames m List.mem_cons_self
            exact ⟨hgen, hretired, hshield⟩
        dsimp only
        split
        · exact wp_cleanFrom hf hn names _ h hrest hloose hh
        · rw [wp_bind]
          refine wp_of_spares (removeBox_spares hf hne) (fun _ h hh => ?_) (fun _ h hh => hh) hh
          exact wp_cleanFrom hf hn names _ h hrest hloose hh

/-- **A protected box is kept**, and what is removed is generated, not retired
and not protected. -/
theorem wp_cleanUnreferenced {dryRun : Bool} {pool : Str} {names : V (List Str)} (hnames : names.exec = .ok shielded)
    (hn : n ∈ shielded) : (cleanUnreferenced dryRun pool dir cat names).wp world (Kept dir n)
      (fun r h => (∀ b ∈ r.removed, Loose cat shielded b.name) ∧ Kept dir n h) (fun _ h => Kept dir n h) [] := by
  have hlift : lift names = pure shielded := by rw [lift, hnames]
  have hstart : Kept dir n [] := fun e he => absurd he (by simp)
  unfold cleanUnreferenced
  rw [hlift, wp_bind, wp_pure, wp_bind]
  refine wp_mono (fun f h hf => ?_) (fun _ _ he => he) _ [] (wp_lookAtHost hstart)
  exact wp_cleanFrom hf.1 hn _ _ h (fun m hm => findable_of_candidates hf.1 hm) (fun b hb => absurd hb (by simp)) hf.2

/-- The pass over the images touches no registration and no cache file. -/
theorem gcOrphanedImages_spares {dryRun : Bool} {pool : Str} {dead : List Str} :
    (gcOrphanedImages dryRun pool dead).Issues (Spares dir n) := by
  have hscan : (some <$> scanPool pool : Gc (Option PoolScan)).Issues (Spares dir n) :=
    issues_bind ((scanPool_reads pool).mono spares_of_reads) fun _ => trivial
  have hdelete : ∀ name, (volDelete name pool).Issues (Spares dir n) := fun name => by
    have hcmd : Spares dir n (.volDelete name pool) := trivial
    refine issues_bind (issues_ask hcmd) fun r => ?_
    split <;> trivial
  have himages : ∀ (scan : PoolScan) (keep : List Str) (images : List (ℤ × Str)) (acc : GcResult),
      (gcImages dryRun pool scan keep acc images).Issues (Spares dir n) := by
    intro scan keep images
    induction images with
    | nil => exact fun _ => trivial
    | cons i images ih =>
      intro acc
      unfold gcImages
      split
      · exact ih _
      · split
        · exact ih _
        · dsimp only
          split
          · exact ih _
          · exact issues_bind (hdelete i.2) fun _ => ih _
  have hstems : ∀ (scan : PoolScan) (current : Dict Str (List Str)) (stems : List (Str × List (ℤ × Str)))
      (dead : List Str) (acc : GcResult), (gcStems dryRun pool scan dead current acc stems).Issues (Spares dir n) := by
    intro scan current stems dead
    induction stems with
    | nil => exact fun _ => trivial
    | cons s stems ih => exact fun acc => issues_bind (himages scan _ _ acc) fun acc' => ih acc'
  have hstore : Spares dir n Cmd.boxStore := trivial
  refine issues_bind (issues_ask hstore) fun store => ?_
  refine issues_bind (issues_tryCatch hscan fun e => ?_) fun scan => ?_
  · split <;> trivial
  · split
    · trivial
    · rename_i scan
      rcases boxImagesFrom_eq scan.names [] .empty grouped_empty with ⟨imgs, himgs, -⟩ | hfail
      · rw [gcScan, PoolScan.boxImages, himgs]
        exact hstems _ _ _ _ _
      · rw [gcScan, PoolScan.boxImages, hfail]
        trivial

/-- Both passes keep a protected box. -/
theorem wp_collect {dryRun : Bool} {pool : Str} {names : V (List Str)} (hnames : names.exec = .ok shielded)
    (hn : n ∈ shielded) : (collect dryRun pool dir cat names).wp world (Kept dir n) (fun _ h => Kept dir n h)
      (fun _ h => Kept dir n h) [] := by
  unfold collect
  rw [wp_bind]
  refine wp_mono (fun r h hr => ?_) (fun _ _ he => he) _ [] (wp_cleanUnreferenced hnames hn)
  rw [wp_bind]
  exact wp_of_spares gcOrphanedImages_spares (fun _ h hh => hh) (fun _ h hh => hh) hr.2

end

/-! ### What is not protected goes -/

/-- A host with this list of boxes and these cache files, and an empty pool. -/
def hostOf (boxes : Str) (files : List Str) : Oracle Cmd Ans := fun _ c =>
  match c with
  | .volList _ => (0, [])
  | .volDump _ _ => (0, [])
  | .volDelete _ _ => (0, [])
  | .boxStore => []
  | .boxList => boxes
  | .boxRemove _ => (0, [])
  | .cacheFiles => files
  | .unlink _ => ()

/-- The cache file of a box. -/
def cacheFile (m : Str) : Str := m ++ "-x86_64.box".toList

theorem dropSuffix_append (m s : Str) : dropSuffix s (m ++ s) = some m := by
  simp [dropSuffix]

theorem beforeEnd_cacheFile (m : Str) : beforeEnd (cacheFile m) = cacheFile m := by
  have hlast : (cacheFile m).getLast? = some 'x' := by simp [cacheFile]
  unfold beforeEnd
  rw [hlast]
  rfl

theorem fatCache_cacheFile {m : Str} (hne : m ≠ []) (hline : '\n' ∉ m) : fatCache (cacheFile m) = some m := by
  have hends : fatCacheEnds = ["-aarch64.box".toList, "-aarch64.manifest-hash".toList,
      "-aarch64.components.json".toList, "-x86_64.box".toList, "-x86_64.manifest-hash".toList,
      "-x86_64.components.json".toList] := by decide +kernel
  have hother : ∀ e ∈ ["-aarch64.box".toList, "-aarch64.manifest-hash".toList, "-aarch64.components.json".toList],
      dropSuffix e (cacheFile m) = none := by
    intro e he
    refine if_neg ?_
    show ¬ e.reverse.isPrefixOf (cacheFile m).reverse = true
    rw [cacheFile, List.reverse_append]
    simp only [List.mem_cons, List.not_mem_nil, or_false] at he
    rcases he with rfl | rfl | rfl <;> simp
  have hfind : fatCacheEnds.findSome? (fun e => dropSuffix e (cacheFile m)) = some m := by
    rw [hends]
    simp only [List.mem_cons, List.not_mem_nil, or_false, forall_eq_or_imp, forall_eq] at hother
    obtain ⟨h₁, h₂, h₃⟩ := hother
    simp only [List.findSome?_cons, h₁, h₂, h₃]
    rw [cacheFile, dropSuffix_append]
  rw [fatCache, beforeEnd_cacheFile, hfind]
  simp [hne, hline]

theorem not_isRetiredFile {m : Str} (hne : m ≠ []) (hline : '\n' ∉ m) (hretired : m ∉ retiredBoxNames)
    (hslash : '/' ∉ m) : isRetiredFile (cacheFile m) = false := by
  have hstem : fileStem (cacheFile m) = m ++ "-x86_64".toList := by
    have hfront : ((cacheFile m).rdropWhile (· ≠ '.')).dropLast = m ++ "-x86_64".toList := by
      have hsplit : cacheFile m = (m ++ "-x86_64".toList ++ ['.']) ++ "box".toList := by simp [cacheFile]
      rw [hsplit]
      simp [List.rdropWhile]
    unfold fileStem
    rw [hfront]
    simp
  have hnot : m ++ "-x86_64".toList ∉ retiredBoxNames := by
    intro hmem
    have hend : ∀ r ∈ retiredBoxNames, "-x86_64".toList.isSuffixOf r = true → '/' ∈ r := by decide +kernel
    have hsuffix : "-x86_64".toList.isSuffixOf (m ++ "-x86_64".toList) = true :=
      List.isSuffixOf_iff_suffix.mpr (List.suffix_append _ _)
    have hin := hend _ hmem hsuffix
    simp [hslash] at hin
  unfold isRetiredFile
  rw [fatCache_cacheFile hne hline, hstem, decide_eq_false hnot]
  simp [hretired]

/-- What a look finds there. -/
theorem lookAtHost_hostOf {cat : Catalog} {m : Str} (pool dir : Str) (hgen : generatedBoxName m cat = true)
    (hretired : m ∉ retiredBoxNames) (hne : m ≠ []) (hline : '\n' ∉ m) (hslash : '/' ∉ m) :
    ∃ h f, (lookAtHost pool dir cat).run (hostOf [] [cacheFile m]) [] = (h, some (.ok f)) ∧ m ∈ candidates f ∧
      f.inUse = [] := by
  have hpool : (lookAtPool pool cat).run (hostOf [] [cacheFile m]) [] =
      ([⟨.volList pool, (0, [])⟩], some (.ok ([], []))) := rfl
  have hcached : cachedBox cat (cacheFile m) = some m := by
    rw [cachedBox, fatCache_cacheFile hne hline]
    simp [hgen]
  have hfiles : [cacheFile m].filter (fun f => isRetiredFile f = false) = [cacheFile m] := by
    simp [not_isRetiredFile hne hline hretired hslash]
  unfold lookAtHost
  rw [run_bind, hpool]
  refine ⟨_, _, rfl, ?_, rfl⟩
  have hkey : m ∈ (([cacheFile m].filter fun f => isRetiredFile f = false).foldl (addFile cat dir) .empty).keys := by
    rw [hfiles, List.foldl_cons, List.foldl_nil, addFile, hcached]
    exact Dict.get?_isSome.mp (by rw [Dict.get?_push, if_pos rfl]; rfl)
  unfold candidates
  rw [sortedStrs, List.mem_insertionSort, List.mem_filter, mem_addHosts]
  refine ⟨.inr ?_, by simpa using hretired⟩
  exact List.mem_append_left _ (List.mem_append_right _ hkey)

theorem mem_removed_cleanFrom {shielded : List Str} {f : Found} (hf : f.inUse = []) {m : Str} (hm : m ∉ shielded)
    (o : Oracle Cmd Ans) (h : History Cmd Ans) : ∀ (names : List Str) (acc : UnreferencedResult),
    m ∈ names ∨ m ∈ acc.deadStems →
    ∃ r, ((cleanFrom true shielded f acc names).run o h).2 = some (.ok r) ∧ m ∈ r.deadStems
  | [], acc, hmem => ⟨acc, rfl, hmem.resolve_left (by simp)⟩
  | name :: names, acc, hmem => by
    unfold cleanFrom
    split
    · rename_i hshield
      refine mem_removed_cleanFrom hf hm o h names _ (hmem.imp_left fun hin => ?_)
      exact (List.mem_cons.mp hin).resolve_left fun heq => hm (heq ▸ hshield)
    · split
      · rename_i hin
        exact absurd hin (by simp [hf])
      · refine mem_removed_cleanFrom hf hm o h names _ ?_
        simp only [UnreferencedResult.deadStems, List.map_append, List.mem_append]
        rcases hmem with hin | hacc
        · rcases List.mem_cons.mp hin with rfl | hin
          · exact .inr (.inr (by simp [Found.boxOf]))
          · exact .inl hin
        · exact .inr (.inl hacc)

/-- A generated name that is not protected is removed where it has a cache file. -/
theorem deadStems_of_loose {cat : Catalog} {shielded : List Str} {names : V (List Str)} {m : Str}
    (pool dir : Str) (hnames : names.exec = .ok shielded) (hm : Loose cat shielded m) (hne : m ≠ [])
    (hslash : '/' ∉ m) : ∃ r, ((cleanUnreferenced true pool dir cat names).run (hostOf [] [cacheFile m]) []).2 =
      some (.ok r) ∧ m ∈ r.deadStems := by
  obtain ⟨⟨hgen, hline⟩, hretired, hshield⟩ := hm
  have hlift : lift names = pure shielded := by rw [lift, hnames]
  obtain ⟨h, f, hlook, hcand, huse⟩ := lookAtHost_hostOf pool dir hgen hretired hne hline hslash
  unfold cleanUnreferenced
  rw [hlift, run_bind, run_pure]
  dsimp only
  rw [run_bind, hlook]
  exact mem_removed_cleanFrom huse hshield _ h _ _ (.inl hcand)

/-! ### The box of a node -/

theorem not_mem_volumeStem (n : Str) : '/' ∉ volumeStem n := by
  intro hin
  obtain ⟨c, -, hc⟩ := List.mem_flatMap.mp hin
  split at hc
  · exact absurd hc (by decide)
  · rename_i hne
    exact hne (List.mem_singleton.mp hc).symm

theorem ne_nil_of_generated {cat : Catalog} {n : Str} (h : generatedBoxName n cat = true) : n ≠ [] := by
  intro hnil
  obtain ⟨role, -, hrole⟩ := List.any_eq_true.mp h
  have hpre : dropPrefix (role ++ ['-']) [] = none := by
    cases role <;> rfl
  rw [hnil, hpre] at hrole
  exact absurd hrole (by simp)

/-- The volumes of a retired box are retired. -/
theorem mem_retiredVolumeStems {n : Str} (h : n ∈ retiredBoxNames) (hslash : '/' ∉ n) : n ∈ retiredVolumeStems := by
  have hall : ∀ r ∈ retiredBoxNames, '/' ∈ r ∨ r ∈ retiredVolumeStems := by decide +kernel
  exact (hall n h).resolve_left hslash

section
variable (printable : Char → Bool) (topo : Topology) (cat : Catalog) (fleet : List Str)

/-- The collection protects the name, and whatever the host holds spares the
box: its registration, its cache files and its volumes. -/
structure Spared (n : Str) : Prop where
  protect : ∃ names, (resolvableNames printable topo cat fleet).exec = .ok names ∧ n ∈ names
  kept : ∀ o dryRun pool dir,
    Kept dir n ((collect dryRun pool dir cat (resolvableNames printable topo cat fleet)).run o []).1
  alive : ∀ o dryRun pool dir r,
    ((cleanUnreferenced dryRun pool dir cat (resolvableNames printable topo cat fleet)).run o []).2 = some (.ok r) →
      volumeStem n ∉ retiredVolumeStems ++ r.deadStems

/-- A selection comes to the box of the role on the OS, and none of its volumes
has the stem of a retired box, or of a generated name that is not selected. -/
structure Selectable (role : Str) (ref : OsRef) : Prop where
  enumerable : Enumerable topo cat
  selected : role ∈ sharedRoles ∨ (role, ref) ∈ topologyPairs topo cat ∨
    (∃ r e, cat.oses.get? r = some e ∧ boxName role ref = e.baseBox) ∨ boxName role ref ∈ fleet
  notRetired : volumeStem (boxName role ref) ∉ retiredVolumeStems
  notDead : Findable cat (volumeStem (boxName role ref)) →
    Selected topo cat fleet (volumeStem (boxName role ref))

variable {printable topo cat fleet} (hs : Sound cat)
  (hdecl : ∀ p ∈ topo.nodes.items, ∃ role, Declares cat p.2 role)
include hs hdecl

theorem spared_iff_selected (n : Str) : Spared printable topo cat fleet n ↔
    Enumerable topo cat ∧ Selected topo cat fleet n ∧ volumeStem n ∉ retiredVolumeStems ∧
      (Findable cat (volumeStem n) → Selected topo cat fleet (volumeStem n)) := by
  obtain ⟨hlaw, hexists⟩ := resolvableNames_law printable hs hdecl fleet
  constructor
  · intro hspared
    obtain ⟨names, hnames, hn⟩ := hspared.protect
    obtain ⟨henum, hmem⟩ := hlaw names hnames
    have hlift : lift (resolvableNames printable topo cat fleet) = pure names := by rw [lift, hnames]
    have hreturns : ((cleanUnreferenced true [] [] cat (resolvableNames printable topo cat fleet)).run (hostOf [] [])
        []).2 = some (.ok ⟨[], [], [], [], true⟩) := by
      unfold cleanUnreferenced
      rw [hlift]
      rfl
    have hretired : volumeStem n ∉ retiredVolumeStems := fun hin =>
      hspared.alive (hostOf [] []) true [] [] _ hreturns (List.mem_append_left _ hin)
    refine ⟨henum, (hmem n).mp hn, hretired, fun hfind => ?_⟩
    by_contra hunsel
    have hslash := not_mem_volumeStem n
    have hloose : Loose cat names (volumeStem n) :=
      ⟨hfind, fun hin => hretired (mem_retiredVolumeStems hin hslash), fun hin => hunsel ((hmem _).mp hin)⟩
    obtain ⟨r, hr, hdead⟩ := deadStems_of_loose [] [] hnames hloose (ne_nil_of_generated hfind.1) hslash
    exact hspared.alive _ true [] [] r hr (List.mem_append_right _ hdead)
  · intro ⟨henum, hsel, hretired, hdead⟩
    obtain ⟨names, hnames⟩ := hexists henum
    obtain ⟨-, hmem⟩ := hlaw names hnames
    have hn : n ∈ names := (hmem n).mpr hsel
    have hstart : ∀ dir, Kept dir n [] := fun dir e he => absurd he (by simp)
    refine ⟨⟨names, hnames, hn⟩, fun o dryRun pool dir => ?_, fun o dryRun pool dir r hr hin => ?_⟩
    · exact (wp_run (fun _ _ => trivial) _ [] (hstart dir) (wp_collect hnames hn)).1
    · have hclean : (cleanUnreferenced dryRun pool dir cat _).wp world _ _ _ [] := wp_cleanUnreferenced hnames hn
      obtain ⟨hloose, -⟩ := (wp_run (fun _ _ => trivial) _ [] (hstart dir) hclean).2.1 r hr
      rcases List.mem_append.mp hin with hin | hin
      · exact hretired hin
      · obtain ⟨b, hb, hname⟩ := List.mem_map.mp hin
        obtain ⟨hfind, -, hshield⟩ := hloose b hb
        rw [hname] at hfind hshield
        exact hshield ((hmem _).mpr (hdead hfind))

omit hdecl in
/-- The names of boxes tell the pairs apart. -/
theorem selected_boxName_iff {role : Str} {ref : OsRef} (href : (cat.oses.get? ref).isSome) :
    (∃ p ∈ sharedPairs cat ∪ topologyPairs topo cat, boxName role ref = boxName p.1 p.2) ↔
      (role, ref) ∈ sharedPairs cat ∪ topologyPairs topo cat := by
  have hknown : ∀ r, (cat.oses.get? r).isSome → isFamily r.family = true := fun r hr => by
    obtain ⟨e, he⟩ := Option.isSome_iff_exists.mp hr
    exact (hs.entry r e he).known
  constructor
  · intro ⟨p, hp, hname⟩
    have hp' : (cat.oses.get? p.2).isSome := by
      rcases hp with hp | ⟨stack, spec, -, hspec, hsupp⟩
      · rw [hp.2]
        exact hs.sharedRef_declared p.1
      · exact (hs.stack stack spec hspec).declared _ hsupp
    obtain ⟨hrole, href'⟩ := boxName_inj (hknown ref href) (hknown p.2 hp') hname
    have heq : (role, ref) = p := Prod.ext hrole href'
    exact heq ▸ hp
  · exact fun hp => ⟨(role, ref), hp, rfl⟩

end

/-- **The collection spares the box of a node** just when a selection of the
catalog comes to it, and no volume of it goes under another name. -/
theorem spared_iff {fs : Load.Files} {value : Yaml} {cat : Catalog}
    (hload : (Load.loadCatalog fs value).exec = .ok cat) {topo : Topology} {records : Str → V (Option OsRef)}
    {boxes : Dict Str BoxEntry} (hboxes : (nodeBoxes fs.printable topo cat records).exec = .ok boxes)
    (fleet : List Str) {node : Str} {b : BoxEntry} (hb : boxes.get? node = some b) :
    ∃ role ref, Boots topo cat records node role ref ∧ b.name = boxName role ref ∧
      (Spared fs.printable topo cat fleet b.name ↔ Selectable topo cat fleet role ref) := by
  have hs := Load.sound_of_load hload
  obtain ⟨hdecl, hnodes⟩ := boots_of_nodeBoxes hs hboxes
  obtain ⟨role, ref, hboots, hbox⟩ := hnodes node b hb
  refine ⟨role, ref, hboots, hbox.name, ?_⟩
  have hpair : _ ↔ (role, ref) ∈ sharedPairs cat ∪ topologyPairs topo cat :=
    selected_boxName_iff hs (hbox.os ▸ rfl : (cat.oses.get? ref).isSome)
  have hshared : (role, ref) ∈ sharedPairs cat ↔ role ∈ sharedRoles := by
    constructor
    · exact fun hp => hp.1
    · intro hrole
      rcases hboots.2 with ⟨-, href⟩ | ⟨hnot, -⟩
      · exact ⟨hrole, href⟩
      · exact absurd hrole hnot
  have hsel : Selected topo cat fleet (boxName role ref) ↔ role ∈ sharedRoles ∨ (role, ref) ∈ topologyPairs topo cat ∨
      (∃ r e, cat.oses.get? r = some e ∧ boxName role ref = e.baseBox) ∨ boxName role ref ∈ fleet := by
    rw [Selected, hpair, Set.mem_union, hshared, or_assoc]
  rw [hbox.name, spared_iff_selected hs hdecl, hsel]
  constructor
  · exact fun ⟨henum, hselected, hretired, hdead⟩ => ⟨henum, hselected, hretired, hdead⟩
  · exact fun h => ⟨h.enumerable, h.selected, h.notRetired, h.notDead⟩

/-! ### A stack that was re-pinned -/

/-- A stack of one node. -/
def oneNode : Topology where
  nodes := .ofList [("n1".toList, ⟨some "pcmk".toList⟩)]
  groups := .ofList [("g".toList, ["n1".toList])]
  labStacks := .ofList [("nativeha".toList, ⟨some "ubuntu".toList, none, ["g".toList], []⟩)]
  commons := []
  memoryBacking := none

theorem spared_iff_ubuntu : ∃ cat boxes b role ref,
    (Load.loadCatalog Load.openFiles Load.ubuntuCatalog).exec = .ok cat ∧
    (nodeBoxes Load.openFiles.printable oneNode cat fun _ => pure none).exec = .ok boxes ∧
    boxes.get? "n1".toList = some b ∧ b.name = boxName role ref ∧
    (Spared Load.openFiles.printable oneNode cat [] b.name ↔ Selectable oneNode cat [] role ref) := by
  have hok : (Load.loadCatalog Load.openFiles Load.ubuntuCatalog >>= fun cat =>
      nodeBoxes Load.openFiles.printable oneNode cat (fun _ => pure none) >>= fun boxes =>
        pure ((boxes.get? "n1".toList).isSome)).exec = .ok true := by decide +kernel
  obtain ⟨cat, hcat, hrest⟩ := Conv.exec_bind_ok hok
  obtain ⟨boxes, hboxes, hsome⟩ := Conv.exec_bind_ok hrest
  obtain ⟨b, hb⟩ := Option.isSome_iff_exists.mp (Except.ok.inj hsome)
  obtain ⟨role, ref, -, hname, hiff⟩ := spared_iff hcat hboxes [] hb
  exact ⟨cat, boxes, b, role, ref, hcat, hboxes, hb, hname, hiff⟩

/-- A catalog in which the stack moved from Ubuntu 24 to Ubuntu 26. -/
def rePinnedCatalog : Yaml :=
  Load.catalogOf [("ubuntu", .map [(.int 24, Load.keyed [("base_box", Load.text "cloud-image/ubuntu-24.04")]),
      (.int 26, Load.keyed [("base_box", Load.text "cloud-image/ubuntu-26.04")])])]
    [("pcmk", Load.keyed [("bake", Load.keyed [("ubuntu", Load.text "pcmk")])])] (Load.text "ubuntu:24")
    [("nativeha", Load.stackOn "ubuntu:26")]

/-- The stack's record, made before. -/
def oldRecord : Str → V (Option OsRef) := fun _ => pure (some ⟨"ubuntu".toList, 24⟩)

/-- The registration that an exchange removed. -/
def removedBy : Exchange Cmd Ans → Option Str
  | ⟨.boxRemove n, _⟩ => some n
  | _ => none

/-- The box of a node whose stack was re-pinned under it is deregistered. -/
theorem collect_removes_recorded_box : ∃ cat boxes b,
    (Load.loadCatalog Load.openFiles rePinnedCatalog).exec = .ok cat ∧
    (nodeBoxes Load.openFiles.printable oneNode cat oldRecord).exec = .ok boxes ∧
    boxes.get? "n1".toList = some b ∧ ¬ Spared Load.openFiles.printable oneNode cat [] b.name := by
  have hok : (Load.loadCatalog Load.openFiles rePinnedCatalog >>= fun cat =>
      nodeBoxes Load.openFiles.printable oneNode cat oldRecord >>= fun boxes =>
        pure ((boxes.get? "n1".toList).map BoxEntry.name,
          ((collect false [] [] cat (resolvableNames Load.openFiles.printable oneNode cat [])).run
            (hostOf "pcmk-ubuntu24 (libvirt, 0)".toList []) []).1.filterMap removedBy)).exec =
        .ok (some "pcmk-ubuntu24".toList, ["pcmk-ubuntu24".toList]) := by decide +kernel
  obtain ⟨cat, hcat, hrest⟩ := Conv.exec_bind_ok hok
  obtain ⟨boxes, hboxes, hboth⟩ := Conv.exec_bind_ok hrest
  obtain ⟨hname, hremoved⟩ := Prod.ext_iff.mp (Except.ok.inj hboth)
  obtain ⟨b, hb, hbname⟩ := Option.map_eq_some_iff.mp hname
  refine ⟨cat, boxes, b, hcat, hboxes, hb, fun hspared => ?_⟩
  rw [hbname] at hspared
  have hmem : "pcmk-ubuntu24".toList ∈ ((collect false [] [] cat (resolvableNames Load.openFiles.printable oneNode
      cat [])).run (hostOf "pcmk-ubuntu24 (libvirt, 0)".toList []) []).1.filterMap removedBy :=
    List.mem_of_mem_head? (congrArg List.head? hremoved)
  obtain ⟨⟨c, a⟩, he, hby⟩ := List.mem_filterMap.mp hmem
  have hkept := hspared.kept _ false [] [] _ he
  cases c with
  | boxRemove n =>
    obtain rfl : n = "pcmk-ubuntu24".toList := by simpa [removedBy] using hby
    exact hkept rfl
  | _ => exact absurd hby (by simp [removedBy])

end BoxGc
end Lab
end MqResiliency
