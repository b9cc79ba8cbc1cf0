/-
# What the scans of the manifest hash see

A role is seen in a line that starts with one of two keys (`RoleLine`), in a
value that is plain or in double quotes; a path is seen outside comments. The
worklist ends in every checkout (`closure_ends`): the names of roles are among
the texts of its files, and the shared files in its directories. What it has
then is what the scans lead to from the playbook (`mem_closure`).
-/
import MqResiliency.Lab.ManifestHash

namespace MqResiliency
namespace ManifestHash

open Py

/-! ### What the scan of a role's name sees -/

/-- What is left of a text behind the characters of a class. -/
theorem dropWhile_eq_iff {p : Char → Bool} {s r : Str} : s.dropWhile p = r ↔
    ∃ a, s = a ++ r ∧ (∀ ch ∈ a, p ch) ∧ ∀ ch t, r = ch :: t → p ch = false := by
  constructor
  · rintro rfl
    refine ⟨s.takeWhile p, List.takeWhile_append_dropWhile.symm, fun ch hch => List.mem_takeWhile_imp hch, ?_⟩
    intro ch t h
    have hhead := List.head?_dropWhile_not p s
    rwa [h] at hhead
  · rintro ⟨a, rfl, ha, hr⟩
    rw [List.dropWhile_append_of_pos ha]
    cases r with
    | nil => rfl
    | cons ch t => exact List.dropWhile_cons_of_neg (by simp [hr ch t rfl])

theorem takeWhile_eq_iff {p : Char → Bool} {s a : Str} : s.takeWhile p = a ↔
    ∃ r, s = a ++ r ∧ (∀ ch ∈ a, p ch) ∧ ∀ ch t, r = ch :: t → p ch = false := by
  constructor
  · rintro rfl
    obtain ⟨a', heq, ha', hr⟩ := dropWhile_eq_iff.mp (rfl : s.dropWhile p = _)
    exact ⟨s.dropWhile p, List.takeWhile_append_dropWhile.symm, fun ch hch => List.mem_takeWhile_imp hch, hr⟩
  · rintro ⟨r, rfl, ha, hr⟩
    rw [List.takeWhile_append_of_pos ha]
    cases r with
    | nil => simp
    | cons ch t => simp [hr ch t rfl]

theorem dropPrefix?_eq_some {s pre r : Str} : s.dropPrefix? pre = some r ↔ s = pre ++ r := by
  rw [List.dropPrefix?_eq_some_iff]
  constructor
  · rintro ⟨pre', rfl, hpre⟩
    rw [eq_of_beq hpre]
  · exact fun h => ⟨pre, h, beq_self_eq_true pre⟩

theorem isAsciiSpace_of_isTokenChar {ch : Char} (h : isTokenChar ch) : isAsciiSpace ch = false ∧ ch ≠ '"' := by
  have hrange : 45 ≤ ch.toNat := by
    have hkind : ch.isAlphanum ∨ ch = '.' ∨ ch = '_' ∨ ch = '-' := of_decide_eq_true h
    rcases hkind with hkind | rfl | rfl | rfl
    · exact le_trans (by decide) (isAlphanum_range hkind).1
    all_goals decide
  have hne : ∀ d : Char, d.toNat < 45 → ch ≠ d := by
    rintro d hd rfl
    omega
  refine ⟨?_, hne '"' (by decide)⟩
  rw [isAsciiSpace]
  simp [hne ' ' (by decide)]
  omega

/-- The line starts with one of the two keys, and its value with the token,
plain or behind a double quote. -/
def RoleLine (line token : Str) : Prop :=
  ∃ indent key gap quote rest, line = indent ++ (key ++ (gap ++ (quote ++ (token ++ rest)))) ∧
    (∀ ch ∈ indent, isAsciiSpace ch) ∧ (key = "name:".toList ∨ key = "role:".toList) ∧
    (∀ ch ∈ gap, isAsciiSpace ch) ∧ (quote = [] ∨ quote = ['"']) ∧ token ≠ [] ∧ (∀ ch ∈ token, isTokenChar ch) ∧
    ∀ ch t, rest = ch :: t → isTokenChar ch = false

theorem roleToken_eq_some {line token : Str} : roleToken line = some token ↔ RoleLine line token := by
  constructor
  · intro h
    obtain ⟨indent, hline, hindent, -⟩ := dropWhile_eq_iff.mp (rfl : line.dropWhile isAsciiSpace = _)
    unfold roleToken at h
    dsimp only at h
    split at h
    · cases h
    · rename_i value hvalue
      obtain ⟨key, hkey, heq⟩ : ∃ key, (key = "name:".toList ∨ key = "role:".toList) ∧
          line.dropWhile isAsciiSpace = key ++ value := by
        rcases Option.or_eq_some_iff.mp hvalue with hname | ⟨-, hrole⟩
        · exact ⟨_, .inl rfl, dropPrefix?_eq_some.mp hname⟩
        · exact ⟨_, .inr rfl, dropPrefix?_eq_some.mp hrole⟩
      obtain ⟨gap, hgapeq, hgap, -⟩ := dropWhile_eq_iff.mp (rfl : value.dropWhile isAsciiSpace = _)
      obtain ⟨quote, hquote, hquoted⟩ : ∃ quote, (quote = [] ∨ quote = ['"']) ∧ value.dropWhile isAsciiSpace = quote ++
          (if (value.dropWhile isAsciiSpace).head? = some '"' then (value.dropWhile isAsciiSpace).tail
           else value.dropWhile isAsciiSpace) := by
        split
        · rename_i hhead
          obtain ⟨t, ht⟩ := List.head?_eq_some_iff.mp hhead
          exact ⟨['"'], .inr rfl, by rw [ht]; rfl⟩
        · exact ⟨[], .inl rfl, rfl⟩
      generalize (if (value.dropWhile isAsciiSpace).head? = some '"' then (value.dropWhile isAsciiSpace).tail
        else value.dropWhile isAsciiSpace) = unquoted at h hquoted
      obtain ⟨rest, hresteq, htoken, hrest⟩ := takeWhile_eq_iff.mp (rfl : unquoted.takeWhile isTokenChar = _)
      split at h
      · cases h
      · rename_i hne
        obtain rfl := Option.some.inj h
        refine ⟨indent, key, gap, quote, rest, ?_, hindent, hkey, hgap, hquote, hne, htoken, hrest⟩
        rw [← hresteq, ← hquoted, ← hgapeq, ← heq, ← hline]
  · rintro ⟨indent, key, gap, quote, rest, rfl, hindent, hkey, hgap, hquote, hne, htoken, hrest⟩
    obtain ⟨first, token', rfl⟩ := List.exists_cons_of_ne_nil hne
    obtain ⟨hspace, hnoquote⟩ := isAsciiSpace_of_isTokenChar (htoken first List.mem_cons_self)
    have hkeyhead : (indent ++ (key ++ (gap ++ (quote ++ (first :: token' ++ rest))))).dropWhile isAsciiSpace =
        key ++ (gap ++ (quote ++ (first :: token' ++ rest))) := by
      refine dropWhile_eq_iff.mpr ⟨indent, rfl, hindent, fun ch t h => ?_⟩
      rcases hkey with rfl | rfl
      · rw [← (List.cons.inj h).1]
        rfl
      · rw [← (List.cons.inj h).1]
        rfl
    have hvalue : ((key ++ (gap ++ (quote ++ (first :: token' ++ rest)))).dropPrefix? "name:".toList).or
        ((key ++ (gap ++ (quote ++ (first :: token' ++ rest)))).dropPrefix? "role:".toList) =
          some (gap ++ (quote ++ (first :: token' ++ rest))) := by
      rcases hkey with rfl | rfl
      · rw [dropPrefix?_eq_some.mpr rfl, Option.some_or]
      · rw [dropPrefix?_eq_some.mpr rfl]
        rfl
    have hgapdrop : (gap ++ (quote ++ (first :: token' ++ rest))).dropWhile isAsciiSpace =
        quote ++ (first :: token' ++ rest) := by
      refine dropWhile_eq_iff.mpr ⟨gap, rfl, hgap, fun ch t h => ?_⟩
      rcases hquote with rfl | rfl
      · rw [← (List.cons.inj h).1]
        exact hspace
      · rw [← (List.cons.inj h).1]
        rfl
    have hunquoted : (if (quote ++ (first :: token' ++ rest)).head? = some '"'
        then (quote ++ (first :: token' ++ rest)).tail else quote ++ (first :: token' ++ rest)) =
          first :: token' ++ rest := by
      rcases hquote with rfl | rfl
      · rw [if_neg]
        · rfl
        · simpa using hnoquote
      · rfl
    have htake : (first :: token' ++ rest).takeWhile isTokenChar = first :: token' :=
      takeWhile_eq_iff.mpr ⟨rest, rfl, htoken, hrest⟩
    unfold roleToken
    simp only [hkeyhead, hvalue, hgapdrop, hunquoted, htake]
    rw [if_neg hne]

/-! ### The worklist -/

namespace Checkout

variable (c : Checkout)

/-- All texts of the checkout's files. -/
def texts : List Str := c.tree.all.filterMap fun p =>
  match c.tree.node p with
  | some (.file b) => some (chars b)
  | _ => none

/-- A base name in a directory, as a path from the repository's root. -/
def canonical (dir : Path) (tok : Str) : Str :=
  match (comps tok).getLast? with
  | some (.down base) => ['/'].intercalate ((dir ++ [base]).drop c.repo.length)
  | _ => []

/-- All that the worklist can hold. -/
def candidates : Finset Item :=
  ((c.texts.flatMap roleTokens).map Item.role ++
    (printed ((c.texts.flatMap pathTokens).flatMap fun tok => c.tree.all.map fun dir => c.canonical dir tok)).map
      Item.shared).toFinset

theorem mem_texts {d : Dir} {b : Bytes} (h : c.content d = some b) : chars b ∈ c.texts := by
  unfold content at h
  split at h
  · rename_i b' hnode
    obtain rfl := Option.some.inj h
    obtain ⟨p, -, hp⟩ := Option.bind_eq_some_iff.mp hnode
    exact List.mem_filterMap.mpr ⟨p, c.tree.mem_all p (by simp [hp]), by simp [hp]⟩
  · cases h

theorem mem_all_of_located {d : Dir} {p : Path} (h : c.located d = some p) : p ∈ c.tree.all := by
  have hdir := (Option.filter_eq_some_iff.mp h).2
  refine c.tree.mem_all p fun hnone => ?_
  simp [hnone] at hdir

theorem mem_all_of_cd {d : Dir} {p : Path} (h : c.cd d = some p) : p ∈ c.tree.all := by
  rcases Option.or_eq_some_iff.mp h with hlogical | ⟨-, hphysical⟩
  · obtain ⟨q, -, hq⟩ := Option.bind_eq_some_iff.mp hlogical
    exact c.mem_all_of_located hq
  · exact c.mem_all_of_located hphysical

theorem exists_canonical {d : Dir} {tok path : Str} (h : c.sharedIn d tok = some path) :
    ∃ dir ∈ c.tree.all, c.canonical dir tok = path := by
  unfold sharedIn at h
  split at h
  · split at h
    · rename_i dir base hdir hbase
      refine ⟨dir, c.mem_all_of_cd hdir, ?_⟩
      unfold canonical
      rw [hbase]
      dsimp only at h ⊢
      split at h
      · cases h
      · split at h
        · exact Option.some.inj h
        · cases h
    · cases h
  · cases h

/-- **What a scan gives**, in the texts that it reads. -/
theorem mem_scan {file : Str} {item : Item} : item ∈ c.scan file ↔ ∃ b, c.content (c.whole file) = some b ∧
    match item with
    | .role name => c.isRole name ∧ ∃ line ∈ (chars b).splitOn '\n', RoleLine line name
    | .shared path => path ≠ [] ∧
        ∃ tok ∈ pathTokens (chars b), ∃ out ∈ c.sharedOf file tok, path ∈ out.splitOn '\n' := by
  unfold scan emitRoleRefs emitSharedRefs
  cases hb : c.content (c.whole file) with
  | none => simp [printed]
  | some b =>
    cases item with
    | role name =>
      simp only [List.mem_append, List.mem_map, reduceCtorEq, and_false, exists_false, or_false, Item.role.injEq,
        exists_eq_right, List.mem_filter, roleTokens, List.mem_filterMap, roleToken_eq_some, Option.some.injEq,
        exists_eq_left']
      exact and_comm
    | shared path =>
      simp only [List.mem_append, List.mem_map, reduceCtorEq, and_false, exists_false, false_or, Item.shared.injEq,
        exists_eq_right, List.mem_filter, printed, List.mem_flatMap, decide_eq_true_eq, Option.some.injEq,
        exists_eq_left']
      constructor
      · rintro ⟨⟨out, ⟨tok, htok, hout⟩, hpath⟩, hne⟩
        exact ⟨hne, tok, htok, out, hout, hpath⟩
      · rintro ⟨hne, tok, htok, out, hout, hpath⟩
        exact ⟨⟨out, ⟨tok, htok, hout⟩, hpath⟩, hne⟩

theorem scan_subset (file : Str) : ∀ item ∈ c.scan file, item ∈ c.candidates := by
  intro item hitem
  rw [candidates, List.mem_toFinset, List.mem_append]
  obtain ⟨b, hb, hseen⟩ := c.mem_scan.mp hitem
  cases item with
  | role name =>
    obtain ⟨-, line, hline, hrole⟩ := hseen
    refine .inl (List.mem_map_of_mem (List.mem_flatMap.mpr ⟨_, c.mem_texts hb, ?_⟩))
    exact List.mem_filterMap.mpr ⟨line, hline, roleToken_eq_some.mpr hrole⟩
  | shared path =>
    obtain ⟨-, tok, htok, out, hout, hpath⟩ := hseen
    obtain ⟨d, -, hd⟩ := List.mem_filterMap.mp hout
    obtain ⟨dir, hdir, rfl⟩ := c.exists_canonical hd
    refine .inr (List.mem_map_of_mem (List.mem_flatMap.mpr ⟨_, ?_, hpath⟩))
    exact List.mem_flatMap.mpr ⟨tok, List.mem_flatMap.mpr ⟨_, c.mem_texts hb, htok⟩, List.mem_map_of_mem hdir⟩

/-- **The worklist loop ends**, whatever refers to what. -/
theorem closure_ends (stem : Str) : ∃ rounds seen, c.closure stem rounds = some seen := by
  refine crawl_ends c.candidates (fun item _ ref href => ?_) [] _ fun item hitem => ?_
  · obtain ⟨file, -, hfile⟩ := List.mem_flatMap.mp href
    exact c.scan_subset file ref hfile
  · exact c.scan_subset _ item hitem

/-- What the scans lead to from the playbook. -/
def Scanned (stem : Str) (item : Item) : Prop := ReachedFrom c.refs (c.scan (bake stem)) item

/-- **The closure is what the scans lead to.** -/
theorem mem_closure {c : Checkout} {stem : Str} {rounds : ℕ} {seen : List Item}
    (h : c.closure stem rounds = some seen) (item : Item) :
    item ∈ seen ↔ c.Scanned stem item := mem_crawl h item

/-! ### Items are lines -/

/-- What a scan gives has no newline. -/
theorem newline_notMem_of_mem_scan {file : Str} {item : Item} (h : item ∈ c.scan file) : '\n' ∉ item.text := by
  obtain ⟨b, -, hseen⟩ := c.mem_scan.mp h
  cases item with
  | role name =>
    obtain ⟨-, line, -, indent, key, gap, quote, rest, -, -, -, -, -, -, htoken, -⟩ := hseen
    exact fun hmem => absurd (htoken '\n' hmem) (by decide)
  | shared path =>
    obtain ⟨-, tok, -, out, -, hpath⟩ := hseen
    exact not_mem_of_mem_splitOn hpath

theorem newline_notMem {stem : Str} {item : Item} (h : c.Scanned stem item) : '\n' ∉ item.text := by
  refine ReachedFrom.induction (fun x hx => c.newline_notMem_of_mem_scan hx) (fun x _ _ y hy => ?_) h
  obtain ⟨file, -, hfile⟩ := List.mem_flatMap.mp hy
  exact c.newline_notMem_of_mem_scan hfile

end Checkout

end ManifestHash
end MqResiliency
