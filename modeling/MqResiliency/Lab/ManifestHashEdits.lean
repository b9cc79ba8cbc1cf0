/-
# Edits change the manifest hash

An edit of one file leaves every lookup as it is (`Edit.locate_eq`), so the
same items have the same files. Where the old text and the new one come apart
the streams do, at the first part that has the file; where one goes on the
other, whole lines are added, the scans lead to more and the stream is longer
(`stream_ne_of_edit`).
-/
import MqResiliency.Lab.ManifestHashScan
import MqResiliency.Lib.Parted

namespace MqResiliency
namespace ManifestHash

open Py

/-- Every line of the text is ended. -/
def Lined (b : Bytes) : Prop := ∀ x, b.getLast? = some x → x = 10

/-- The checkout `c'` has another text in the file `p`; before and after its lines are ended. -/
structure Edit (c c' : Checkout) (p : Path) (b b' : Bytes) : Prop where
  repo : c'.repo = c.repo
  other : ∀ q, q ≠ p → c'.tree.node q = c.tree.node q
  before : c.tree.node p = some (.file b)
  after : c'.tree.node p = some (.file b')
  lined : Lined b ∧ Lined b'

/-! ### What an edit leaves -/

namespace Edit

variable {c c' : Checkout} {p : Path} {b b' : Bytes} (h : Edit c c' p b b')

include h

theorem symm : Edit c' c p b' b where
  repo := h.repo.symm
  other q hq := (h.other q hq).symm
  before := h.after
  after := h.before
  lined := h.lined.symm

theorem kinds (q : Path) : c'.tree.node q = c.tree.node q ∨
    ∃ b b', c.tree.node q = some (.file b) ∧ c'.tree.node q = some (.file b') := by
  by_cases hq : q = p
  · exact .inr ⟨b, b', hq ▸ h.before, hq ▸ h.after⟩
  · exact .inl (h.other q hq)

theorem node_dir (q : Path) : c'.tree.node q = some .dir ↔ c.tree.node q = some .dir := by
  rcases h.kinds q with heq | ⟨b, b', hb, hb'⟩
  · rw [heq]
  · simp [hb, hb']

theorem node_none (q : Path) : c'.tree.node q = none ↔ c.tree.node q = none := by
  rcases h.kinds q with heq | ⟨b, b', hb, hb'⟩
  · rw [heq]
  · simp [hb, hb']

theorem locate_eq (d : Dir) : c'.locate d = c.locate d := resolve_kinds h.kinds 40 d.1 d.2

theorem cwd_eq : c'.cwd = c.cwd := by rw [Checkout.cwd, Checkout.cwd, h.repo]

theorem whole_eq (s : Str) : c'.whole s = c.whole s := by rw [Checkout.whole, Checkout.whole, h.cwd_eq]

theorem dirOf_eq (s : Str) : c'.dirOf s = c.dirOf s := by rw [Checkout.dirOf, Checkout.dirOf, h.cwd_eq]

theorem isRegular_eq (q : Path) : c'.isRegular q = c.isRegular q := by
  unfold Checkout.isRegular
  rcases h.kinds q with heq | ⟨b, b', hb, hb'⟩
  · rw [heq]
  · rw [hb, hb']

theorem located_eq (d : Dir) : c'.located d = c.located d := by
  unfold Checkout.located
  rw [h.locate_eq]
  congr 1
  funext q
  exact decide_eq_decide.mpr (h.node_dir q)

theorem isDir_eq (d : Dir) : c'.isDir d = c.isDir d := by rw [Checkout.isDir, Checkout.isDir, h.located_eq]

theorem normal_eq : ∀ (cs : List Comp) (cur : Path), c'.normal cur cs = c.normal cur cs
  | [], _ => rfl
  | .here :: cs, cur => normal_eq cs cur
  | .up :: cs, cur => by rw [Checkout.normal, Checkout.normal, h.isDir_eq, normal_eq cs]
  | .down name :: cs, cur => normal_eq cs (cur ++ [name])

theorem cd_eq (d : Dir) : c'.cd d = c.cd d := by
  unfold Checkout.cd
  rw [h.normal_eq, h.located_eq]
  simp only [h.located_eq]

/-- What a lookup finds is the old text or the new one only if it finds the file. -/
theorem content_cases (d : Dir) : c'.content d = c.content d ∨ (c.content d = some b ∧ c'.content d = some b') := by
  unfold Checkout.content
  rw [h.locate_eq]
  cases hd : c.locate d with
  | none => exact .inl rfl
  | some q =>
    by_cases hq : q = p
    · subst hq
      right
      simp [h.before, h.after]
    · left
      simp [h.other q hq]

theorem content_file {d : Dir} (hd : c.locate d = some p) : c.content d = some b ∧ c'.content d = some b' := by
  unfold Checkout.content
  rw [h.locate_eq, hd]
  simp [h.before, h.after]

theorem isFile_eq (d : Dir) : c'.isFile d = c.isFile d := by
  unfold Checkout.isFile
  rcases h.content_cases d with heq | ⟨hb, hb'⟩
  · rw [heq]
  · rw [hb, hb']
    rfl

theorem isRole_eq (ref : Str) : c'.isRole ref = c.isRole ref := by
  rw [Checkout.isRole, Checkout.isRole, h.whole_eq, h.isDir_eq]

theorem sharedIn_eq (d : Dir) (tok : Str) : c'.sharedIn d tok = c.sharedIn d tok := by
  unfold Checkout.sharedIn
  rw [h.isFile_eq, h.cd_eq, h.repo]

theorem searchDirs_eq (src : Str) : c'.searchDirs src = c.searchDirs src := by
  have hwhole : c'.whole = c.whole := funext h.whole_eq
  unfold Checkout.searchDirs Checkout.roleTasks
  rw [h.dirOf_eq, hwhole]

theorem sharedOf_eq (src tok : Str) : c'.sharedOf src tok = c.sharedOf src tok := by
  have hshared : (fun d => c'.sharedIn d tok) = fun d => c.sharedIn d tok := funext fun d => h.sharedIn_eq d tok
  unfold Checkout.sharedOf
  rw [h.searchDirs_eq, hshared]

theorem findStart_eq (s : Str) : c'.findStart s = c.findStart s := by
  unfold Checkout.findStart
  rw [h.dirOf_eq, h.whole_eq, h.locate_eq, h.locate_eq]

theorem find_perm (s : Str) : (c'.find s).Perm (c.find s) := by
  unfold Checkout.find
  rw [h.findStart_eq]
  cases c.findStart s with
  | none => exact .refl _
  | some d =>
    refine List.Perm.map _ ((List.perm_ext_iff_of_nodup ?_ ?_).mpr fun q => ?_)
    · exact (List.nodup_dedup _).filter _
    · exact (List.nodup_dedup _).filter _
    · have hmem : c.isRegular q → q ∈ c.tree.all ∧ q ∈ c'.tree.all := by
        intro hreg
        have hne : c.tree.node q ≠ none := fun hnone => by simp [Checkout.isRegular, hnone] at hreg
        exact ⟨c.tree.mem_all q hne, c'.tree.mem_all q fun hnone => hne ((h.node_none q).mp hnone)⟩
      simp only [List.mem_filter, List.mem_dedup, decide_eq_true_eq, h.isRegular_eq]
      constructor
      · rintro ⟨-, hpre, hreg⟩
        exact ⟨(hmem hreg).1, hpre, hreg⟩
      · rintro ⟨-, hpre, hreg⟩
        exact ⟨(hmem hreg).2, hpre, hreg⟩

/-- The sorted listing of a directory is the same. -/
theorem listing_eq (s : Str) : sortedStrs (printed (c'.find s)) = sortedStrs (printed (c.find s)) :=
  sortedStrs_perm ((h.find_perm s).flatMap_right _)

theorem files_eq (item : Item) : c'.files item = c.files item := by
  cases item with
  | role name => exact sortedStrs_perm (((h.find_perm _).filter _).flatMap_right _)
  | shared path => rfl

theorem cat_cases (s : Str) : c'.cat s = c.cat s ∨ (c.cat s = b ∧ c'.cat s = b') := by
  unfold Checkout.cat
  rw [h.whole_eq]
  rcases h.content_cases (c.whole s) with heq | ⟨hb, hb'⟩
  · rw [heq]
    exact .inl rfl
  · rw [hb, hb']
    exact .inr ⟨rfl, rfl⟩

theorem cat_file {s : Str} (hs : c.locate (c.whole s) = some p) : c.cat s = b ∧ c'.cat s = b' := by
  obtain ⟨hb, hb'⟩ := h.content_file hs
  unfold Checkout.cat
  rw [h.whole_eq, hb, hb']
  exact ⟨rfl, rfl⟩

end Edit

/-! ### Lines that are added -/

/-- The lines of an ended text stay what they are before more text. -/
theorem mem_lines_append {b : Bytes} (hb : Lined b) (z : Bytes) {line : Str} (h : line ∈ (chars b).splitOn '\n') :
    line = [] ∨ line ∈ (chars (b ++ z)).splitOn '\n' := by
  rcases List.eq_nil_or_concat' b with rfl | ⟨b, x, rfl⟩
  · exact .inl (by simpa [chars] using h)
  · obtain rfl := hb x List.getLast?_concat
    have hchars : ∀ y, chars (b ++ 10 :: y) = chars b ++ '\n' :: chars y := fun y => by
      rw [chars, List.map_append, List.map_cons]
      rfl
    rw [List.append_assoc, List.singleton_append, hchars, List.splitOn_append_cons_self]
    rw [hchars, List.splitOn_append_cons_self] at h
    rcases List.mem_append.mp h with h | h
    · exact .inr (List.mem_append_left _ h)
    · exact .inl (by simpa [chars] using h)

theorem RoleLine.ne_nil {line token : Str} (h : RoleLine line token) : line ≠ [] := by
  obtain ⟨indent, key, gap, quote, rest, rfl, -, hkey, -⟩ := h
  rcases hkey with rfl | rfl <;> simp

theorem mem_pathTokens {text tok : Str} : tok ∈ pathTokens text ↔ ∃ line ∈ text.splitOn '\n',
    (line.dropWhile isAsciiSpace).head? ≠ some '#' ∧ tok ∈ linePaths (uncommented line) := by
  simp only [pathTokens, List.mem_flatMap, List.mem_filter, decide_eq_true_eq, and_assoc]

theorem linePaths_nil : linePaths (uncommented []) = [] := by
  decide

namespace Edit

variable {c c' : Checkout} {p : Path} {b z : Bytes} (h : Edit c c' p b (b ++ z))

include h

/-- More lines refer to more. -/
theorem scan_subset (file : Str) : c.scan file ⊆ c'.scan file := by
  intro item hitem
  obtain ⟨x, hx, hseen⟩ := c.mem_scan.mp hitem
  obtain ⟨x', hx', hlines⟩ : ∃ x', c'.content (c'.whole file) = some x' ∧
      ∀ line ∈ (chars x).splitOn '\n', line = [] ∨ line ∈ (chars x').splitOn '\n' := by
    rw [h.whole_eq]
    rcases h.content_cases (c.whole file) with heq | ⟨hb, hb'⟩
    · exact ⟨x, heq.trans hx, fun line hline => .inr hline⟩
    · obtain rfl : b = x := Option.some.inj (hb.symm.trans hx)
      exact ⟨b ++ z, hb', fun line hline => mem_lines_append h.lined.1 z hline⟩
  refine c'.mem_scan.mpr ⟨x', hx', ?_⟩
  cases item with
  | role name =>
    obtain ⟨hrole, line, hline, hnamed⟩ := hseen
    exact ⟨h.isRole_eq name ▸ hrole, line, (hlines line hline).resolve_left hnamed.ne_nil, hnamed⟩
  | shared path =>
    obtain ⟨hne, tok, htok, out, hout, hpath⟩ := hseen
    obtain ⟨line, hline, hcomment, hmem⟩ := mem_pathTokens.mp htok
    have hnil : line ≠ [] := by
      rintro rfl
      rw [linePaths_nil] at hmem
      cases hmem
    refine ⟨hne, tok, mem_pathTokens.mpr ⟨line, (hlines line hline).resolve_left hnil, hcomment, hmem⟩, out, ?_, hpath⟩
    rwa [h.sharedOf_eq]

theorem scanned_of_scanned {stem : Str} {item : Item} (hitem : c.Scanned stem item) : c'.Scanned stem item := by
  refine ReachedFrom.mono (fun x => ?_) (h.scan_subset _) hitem
  unfold Checkout.refs
  rw [h.files_eq]
  intro y hy
  obtain ⟨file, hfile, hscan⟩ := List.mem_flatMap.mp hy
  exact List.mem_flatMap.mpr ⟨file, hfile, h.scan_subset file hscan⟩

end Edit

/-! ### The stream -/

theorem newline_mem_of_mem_encode {s : Str} (h : (10 : UInt8) ∈ encode s) : '\n' ∈ s := by
  obtain ⟨ch, hch, hbyte⟩ := List.mem_flatMap.mp h
  obtain rfl : ch = '\n' := char_eq_of_toNat (utf8EncodeChar_of_mem hbyte (by decide))
  exact hch

theorem encode_inj {s t : Str} (h : encode s = encode t) : s = t := by
  have hdec := congrArg decode h
  simpa using hdec

/-- Different lines come apart. -/
theorem parted_lines {s t : Str} (hs : '\n' ∉ s) (ht : '\n' ∉ t) (hne : s ≠ t) :
    Parted (encode (s ++ ['\n'])) (encode (t ++ ['\n'])) := by
  have hbreak : encode ['\n'] = [10] := by decide
  rw [encode_append, encode_append, hbreak]
  exact parted_of_ne (fun h => hs (newline_mem_of_mem_encode h)) (fun h => ht (newline_mem_of_mem_encode h))
    fun heq => hne (encode_inj heq)

/-- The line that comes before the files of an item. -/
def Item.header : Item → Str
  | .role name => "role=".toList ++ name
  | .shared path => "shared=".toList ++ path

/-- What comes after it. -/
def Checkout.body (c : Checkout) : Item → Bytes
  | .role name => (sortedStrs (printed (c.find (rolesDir ++ '/' :: name)))).flatMap fun file =>
      line "file" ((file.dropPrefix? "../../".toList).getD file) ++ c.cat file
  | .shared path => c.cat ("../../".toList ++ path)

theorem digested_eq (c : Checkout) (item : Item) : c.digested item = encode (item.header ++ ['\n']) ++ c.body item := by
  cases item <;> rfl

theorem header_injective {x y : Item} (h : x.header = y.header) : x = y := by
  cases x with
  | role name =>
    cases y with
    | role name' => rw [List.append_cancel_left h]
    | shared path => exact absurd (List.cons.inj h).1 (by decide)
  | shared path =>
    cases y with
    | role name => exact absurd (List.cons.inj h).1 (by decide)
    | shared path' => rw [List.append_cancel_left h]

theorem newline_notMem_header {x : Item} (h : '\n' ∉ x.text) : '\n' ∉ x.header := by
  cases x with
  | role name => exact fun hmem => h ((List.mem_append.mp hmem).resolve_left (by decide))
  | shared path => exact fun hmem => h ((List.mem_append.mp hmem).resolve_left (by decide))

/-- The items in the order of the stream. -/
def order (seen : List Item) : List Item :=
  (sortedStrs (resolved seen).dedup).map .role ++ (sortedStrs (shared seen).dedup).map .shared

theorem mem_order {seen : List Item} {item : Item} : item ∈ order seen ↔ item ∈ seen := by
  unfold order resolved shared
  cases item with
  | role name =>
    simp only [List.mem_append, List.mem_map, reduceCtorEq, and_false, exists_false, or_false, Item.role.injEq,
      exists_eq_right, mem_sortedStrs, List.mem_dedup, List.mem_filterMap]
    constructor
    · rintro ⟨x, hx, heq⟩
      cases x with
      | role name' => rwa [← Option.some.inj heq]
      | shared path => cases heq
    · exact fun hmem => ⟨_, hmem, rfl⟩
  | shared path =>
    simp only [List.mem_append, List.mem_map, reduceCtorEq, and_false, exists_false, false_or, Item.shared.injEq,
      exists_eq_right, mem_sortedStrs, List.mem_dedup, List.mem_filterMap]
    constructor
    · rintro ⟨x, hx, heq⟩
      cases x with
      | role name => cases heq
      | shared path' => rwa [← Option.some.inj heq]
    · exact fun hmem => ⟨_, hmem, rfl⟩

theorem nodup_order (seen : List Item) : (order seen).Nodup := by
  have hsorted : ∀ ts : List Str, (sortedStrs ts.dedup).Nodup := fun ts =>
    (List.perm_insertionSort _ _).nodup_iff.mpr (List.nodup_dedup ts)
  refine List.Nodup.append ((hsorted _).map fun _ _ heq => Item.role.inj heq)
    ((hsorted _).map fun _ _ heq => Item.shared.inj heq) ?_
  intro item hrole hshared
  obtain ⟨name, -, rfl⟩ := List.mem_map.mp hrole
  obtain ⟨path, -, heq⟩ := List.mem_map.mp hshared
  cases heq

/-- What the stream has before the items. -/
def Checkout.front (c : Checkout) (flags : Flags) : Bytes :=
  line "box" flags.box ++ line "bake" (bakeRel flags.bakeStem) ++ line "os_pin" flags.osPin ++
    c.cat pins ++
    (if flags.mqBearing ∧ c.isFile (c.whole mqVersionPin) then encode "mq_version_pin=".toList ++ c.cat mqVersionPin
     else []) ++
    (if flags.components = [] then []
     else line "runtime_pin" flags.runtimePin ++
      (sortedStrs flags.components).flatMap fun item => line "component" item) ++
    c.cat (bake flags.bakeStem)

theorem stream_eq (c : Checkout) (flags : Flags) (seen : List Item) :
    c.stream flags seen = c.front flags ++ (order seen).flatMap c.digested := by
  simp only [Checkout.stream, Checkout.front, order, List.flatMap_append, List.flatMap_map, List.append_assoc]

namespace Edit

variable {c c' : Checkout} {p : Path} {b b' : Bytes} (h : Edit c c' p b b')

include h

theorem body_role_eq (name : Str) : c'.body (.role name) =
    (sortedStrs (printed (c.find (rolesDir ++ '/' :: name)))).flatMap fun file =>
      line "file" ((file.dropPrefix? "../../".toList).getD file) ++ c'.cat file := by
  rw [Checkout.body, h.listing_eq]

/-! Texts that come apart. -/

theorem cat_parted (hb : Parted b b') (s : Str) : c.cat s = c'.cat s ∨ Parted (c.cat s) (c'.cat s) := by
  rcases h.cat_cases s with heq | ⟨hs, hs'⟩
  · exact .inl heq.symm
  · exact .inr (by rwa [hs, hs'])

theorem front_parted (hb : Parted b b') (flags : Flags) :
    c.front flags = c'.front flags ∨ Parted (c.front flags) (c'.front flags) := by
  unfold Checkout.front
  rw [h.whole_eq, h.isFile_eq]
  refine append_parted (append_parted (append_parted (append_parted (.inl rfl) (h.cat_parted hb pins)) ?_) (.inl rfl))
    (h.cat_parted hb (bake flags.bakeStem))
  split
  · exact append_parted (.inl rfl) (h.cat_parted hb mqVersionPin)
  · exact .inl rfl

theorem digested_parted (hb : Parted b b') (item : Item) :
    c.digested item = c'.digested item ∨ Parted (c.digested item) (c'.digested item) := by
  rw [digested_eq, digested_eq]
  refine append_parted (.inl rfl) ?_
  cases item with
  | role name =>
    rw [h.body_role_eq]
    exact flatMap_eq_or_parted fun file _ => append_parted (.inl rfl) (h.cat_parted hb file)
  | shared path => exact h.cat_parted hb _

/-! Texts that go on. -/

theorem length_cat_le (hb : b.length ≤ b'.length) (s : Str) : (c.cat s).length ≤ (c'.cat s).length := by
  rcases h.cat_cases s with heq | ⟨hs, hs'⟩
  · rw [heq]
  · rwa [hs, hs']

theorem length_front_le (hb : b.length ≤ b'.length) (flags : Flags) :
    (c.front flags).length ≤ (c'.front flags).length := by
  have hpins := h.length_cat_le hb pins
  have hbake := h.length_cat_le hb (bake flags.bakeStem)
  have hversion := h.length_cat_le hb mqVersionPin
  unfold Checkout.front
  rw [h.whole_eq, h.isFile_eq]
  simp only [List.length_append]
  split
  · simp only [List.length_append]
    omega
  · omega

theorem length_digested_le (hb : b.length ≤ b'.length) (item : Item) :
    (c.digested item).length ≤ (c'.digested item).length := by
  rw [digested_eq, digested_eq, List.length_append, List.length_append]
  refine Nat.add_le_add_left ?_ _
  cases item with
  | role name =>
    rw [h.body_role_eq]
    refine length_flatMap_le fun file _ => ?_
    rw [List.length_append, List.length_append]
    exact Nat.add_le_add_left (h.length_cat_le hb file) _
  | shared path => exact h.length_cat_le hb _

end Edit

/-- The file is one that is digested of the item. -/
def Checkout.Digests (c : Checkout) (item : Item) (p : Path) : Prop :=
  match item with
  | .role name => ∃ file ∈ printed (c.find (rolesDir ++ '/' :: name)), c.locate (c.whole file) = some p
  | .shared path => c.locate (c.whole ("../../".toList ++ path)) = some p

namespace Edit

variable {c c' : Checkout} {p : Path} {b b' : Bytes} (h : Edit c c' p b b')

include h

theorem digested_parted_of_digests (hb : Parted b b') {item : Item} (hp : c.Digests item p) :
    Parted (c.digested item) (c'.digested item) := by
  rw [digested_eq, digested_eq]
  refine Parted.append_left ?_ _
  cases item with
  | role name =>
    obtain ⟨file, hfile, hlocate⟩ := hp
    rw [h.body_role_eq]
    refine flatMap_parted (fun file _ => append_parted (.inl rfl) (h.cat_parted hb file))
      ⟨file, mem_sortedStrs.mpr hfile, Parted.append_left ?_ _⟩
    obtain ⟨hcat, hcat'⟩ := h.cat_file hlocate
    rwa [hcat, hcat']
  | shared path =>
    obtain ⟨hcat, hcat'⟩ := h.cat_file hp
    show Parted (c.cat _) (c'.cat _)
    rwa [hcat, hcat']

theorem length_digested_lt (hb : b.length < b'.length) {item : Item} (hp : c.Digests item p) :
    (c.digested item).length < (c'.digested item).length := by
  rw [digested_eq, digested_eq, List.length_append, List.length_append]
  refine Nat.add_lt_add_left ?_ _
  cases item with
  | role name =>
    obtain ⟨file, hfile, hlocate⟩ := hp
    rw [h.body_role_eq]
    refine length_flatMap_lt (fun file _ => ?_) ⟨file, mem_sortedStrs.mpr hfile, ?_⟩
    · rw [List.length_append, List.length_append]
      exact Nat.add_le_add_left (h.length_cat_le hb.le file) _
    · obtain ⟨hcat, hcat'⟩ := h.cat_file hlocate
      rw [List.length_append, List.length_append, hcat, hcat']
      exact Nat.add_lt_add_left hb _
  | shared path =>
    obtain ⟨hcat, hcat'⟩ := h.cat_file hp
    show (c.cat _).length < (c'.cat _).length
    rwa [hcat, hcat']

/-- A longer text, and what it leads to, in a longer stream. -/
theorem length_stream_lt (hb : b.length < b'.length) (flags : Flags) {seen seen' : List Item} {item : Item}
    (hitem : item ∈ seen') (hp : c.Digests item p) (hsub : seen ⊆ seen') :
    (c.stream flags seen).length < (c'.stream flags seen').length := by
  rw [stream_eq, stream_eq, List.length_append, List.length_append]
  have hfront := h.length_front_le hb.le flags
  have hmore : ((order seen).flatMap c.digested).length ≤ ((order seen').flatMap c.digested).length :=
    length_flatMap_subset (nodup_order seen) fun x hx => mem_order.mpr (hsub (mem_order.mp hx))
  have hlonger : ((order seen').flatMap c.digested).length < ((order seen').flatMap c'.digested).length :=
    length_flatMap_lt (fun x _ => h.length_digested_le hb.le x) ⟨item, mem_order.mpr hitem, h.length_digested_lt hb hp⟩
  omega

end Edit

theorem digested_ne_nil (c : Checkout) (item : Item) : c.digested item ≠ [] := by
  rw [digested_eq, encode_append]
  have hbreak : encode ['\n'] = [10] := by decide
  simp [hbreak]

end ManifestHash
end MqResiliency
