/-
# When a box that is current is the cached one

After an add all copies of the box are stamped with the identity of the cache,
also those that the add left alone; and a copy with that stamp is not looked
into. So stamped copies are what the cache has if and only if the copies that a
call passes over are (`stamped_iff`): those beside the one that the add
replaced, or all of a box that is current. Where each add meets this, the stamps
tell the truth over any number of calls (`Truthful.run`).

Key theorems: `get?_boxRegStamp`, `boxRegState_eq_current`, `stamped_iff`,
`Truthful.run`.
-/
import MqResiliency.Lab.BoxRegister

namespace MqResiliency
namespace Lab
namespace BoxRegister

open Py Shell

/-- The copy's stamp is the identity. -/
def Stamped (identity : Str) (copy : Copy) : Prop := copy.stamp.map captured = some identity

/-! ### Directories -/

section
variable {home : Home} {identity : Str} {cache : Cache}

theorem mem_providerDirs {dir : Str} : dir ∈ providerDirs home ↔ ∃ copy, home.get? dir = some copy := by
  rw [providerDirs, sortedStrs, List.mem_insertionSort, ← Dict.get?_isSome, Option.isSome_iff_exists]

theorem providerDirs_ne_nil {dir : Str} {copy : Copy} (h : home.get? dir = some copy) : providerDirs home ≠ [] :=
  List.ne_nil_of_mem (mem_providerDirs.mpr ⟨copy, h⟩)

@[simp] theorem withStamp_withStamp (copy : Copy) : (copy.withStamp identity).withStamp identity = copy.withStamp identity := rfl

theorem get?_stampAll (dir : Str) : ∀ (dirs : List Str) (home : Home),
    (dirs.foldl (fun home dir => home.modify dir (Copy.withStamp identity)) home).get? dir =
      if dir ∈ dirs then (home.get? dir).map (Copy.withStamp identity) else home.get? dir
  | [], home => by simp
  | d :: dirs, home => by
    rw [List.foldl_cons, get?_stampAll dir dirs, Dict.get?_modify]
    by_cases hd : dir = d
    · subst hd
      cases home.get? dir <;> simp
    · simp [hd]

/-- **Stamping reaches every copy**, and changes nothing else. -/
theorem get?_boxRegStamp {home' : Home} (h : boxRegStamp home identity = some home') (dir : Str) :
    home'.get? dir = (home.get? dir).map (Copy.withStamp identity) := by
  unfold boxRegStamp at h
  split at h
  · exact absurd h (by simp)
  rw [← Option.some.inj h, get?_stampAll]
  split
  · rfl
  · rename_i hdir
    cases hget : home.get? dir with
    | none => rfl
    | some copy => exact absurd (mem_providerDirs.mpr ⟨copy, hget⟩) hdir

theorem exists_boxRegStamp (h : providerDirs home ≠ []) : ∃ home', boxRegStamp home identity = some home' :=
  ⟨_, if_neg h⟩

theorem sameAsCache_eq_true : sameAsCache home cache = true ↔
    providerDirs home ≠ [] ∧ ∀ dir copy, home.get? dir = some copy → Same cache copy := by
  simp only [sameAsCache, Bool.and_eq_true, decide_eq_true_eq, List.all_eq_true, mem_providerDirs, forall_exists_index]
  refine and_congr_right fun _ => forall_congr' fun dir => ?_
  constructor
  · intro h copy hget
    simpa [hget] using h copy hget
  · intro h copy hget
    simpa [hget] using h copy hget

/-! ### What is said of a box -/

theorem stateLoop_eq_current : ∀ (copies : List (Option Copy)) (state : State),
    stateLoop identity state copies = .current ↔
      state = .current ∧ ∀ copy ∈ copies, (copy.bind Copy.stamp).map captured = some identity
  | [], state => by simp [stateLoop]
  | copy :: copies, state => by
    rw [List.forall_mem_cons]
    unfold stateLoop
    cases copy.bind Copy.stamp with
    | none => simp [stateLoop_eq_current copies]
    | some text =>
      by_cases htext : captured text = identity
      · simp [stateLoop_eq_current copies, htext]
      · simp [htext]

/-- **A box is current** if and only if there are copies, all with the stamp. -/
theorem boxRegState_eq_current : boxRegState home identity = .current ↔
    providerDirs home ≠ [] ∧ ∀ dir copy, home.get? dir = some copy → Stamped identity copy := by
  unfold boxRegState
  split
  · rename_i hnil
    simp [hnil]
  rename_i hne
  rw [stateLoop_eq_current, List.forall_mem_map]
  constructor
  · intro h
    refine ⟨hne, fun dir copy hget => ?_⟩
    have hcopy := h.2 dir (mem_providerDirs.mpr ⟨copy, hget⟩)
    rwa [hget, Option.bind_some] at hcopy
  · intro h
    refine ⟨rfl, fun dir hdir => ?_⟩
    obtain ⟨copy, hget⟩ := mem_providerDirs.mp hdir
    rw [hget, Option.bind_some]
    exact h.2 dir copy hget

/-- What is written as a stamp is read back. -/
theorem captured_identity (cache : Cache) (manifest : Str) :
    captured (cache.identity manifest ++ ['\n']) = cache.identity manifest := by
  unfold captured
  rw [List.rdropWhile_concat_pos _ _ _ (by simp)]
  exact List.rdropWhile_idempotent _ _

theorem stamped_withStamp (cache : Cache) (manifest : Str) (copy : Copy) :
    Stamped (cache.identity manifest) (copy.withStamp (cache.identity manifest)) :=
  congrArg some (captured_identity cache manifest)

end

/-! ### Calls -/

/-- Does the call add the box? -/
def Call.Adds (call : Call) (home : Home) (identity : Str) (cache : Cache) : Prop :=
  match call with
  | .register => True
  | .reuse => boxRegState home identity ≠ .current ∧
    ¬ (boxRegState home identity = .unstamped ∧ sameAsCache home cache = true)

/-- An add that fails has an exit status, and stamps nothing. -/
def Added.Ok (home : Home) : Added → Prop
  | .replaced _ => True
  | .failed status left => status ≠ 0 ∧ ∀ dir copy text, left.get? dir = some copy → copy.stamp = some text →
    ∃ copy₀, home.get? dir = some copy₀ ∧ copy₀.stamp = some text

/-- What has to hold after a call: a stamp stands for the cache's content, no
copy is touched without an add, and a failing add stamps nothing. -/
structure Kept (call : Call) (home : Home) (cache : Cache) (identity : Str) (added : Added) (ran : Ran) : Prop where
  stamped : ran.status = 0 → ∀ dir copy, ran.home.get? dir = some copy → Stamped identity copy → Same cache copy
  current : ran.status = 0 → boxRegState ran.home identity = .current →
    ∀ dir copy, ran.home.get? dir = some copy → Same cache copy
  untouched : ¬ call.Adds home identity cache → ∀ dir, (ran.home.get? dir).map (fun copy => (copy.image, copy.metadata)) =
    (home.get? dir).map fun copy => (copy.image, copy.metadata)
  failed : call.Adds home identity cache → ∀ status left, added = .failed status left →
    ∀ dir copy, ran.home.get? dir = some copy → Stamped identity copy →
      ∃ copy₀, home.get? dir = some copy₀ ∧ Stamped identity copy₀

/-- The copies that are stamped without a look are what the cache has. -/
def Covered (call : Call) (home : Home) (cache : Cache) (identity : Str) (added : Added) : Prop :=
  (call.Adds home identity cache → ∀ replaced, added = .replaced replaced →
    ∀ dir copy, dir ≠ replaced → home.get? dir = some copy → Same cache copy) ∧
  (¬ call.Adds home identity cache → boxRegState home identity = .current →
    ∀ dir copy, home.get? dir = some copy → Same cache copy)

section
variable {home : Home} {cache : Cache} {box manifest : Str} {added : Added}

/-- What an add leaves that works. -/
theorem get?_boxRegister (replaced dir : Str) :
    ((boxRegister home box (cache.identity manifest) cache (.replaced replaced)).home.get? dir =
      ((home.set replaced cache.copy).get? dir).map (Copy.withStamp (cache.identity manifest))) ∧
    (boxRegister home box (cache.identity manifest) cache (.replaced replaced)).status = 0 := by
  have hne : providerDirs (home.set replaced cache.copy) ≠ [] :=
    List.ne_nil_of_mem (mem_providerDirs.mpr ⟨cache.copy, by rw [Dict.get?_set, if_pos rfl]⟩)
  obtain ⟨home', hhome'⟩ := @exists_boxRegStamp _ (cache.identity manifest) hne
  simp only [boxRegister, hhome']
  exact ⟨get?_boxRegStamp hhome' dir, trivial⟩

/-- What an add comes to, whatever is printed before. -/
theorem kept_boxRegister (call : Call) (box : Str) (hok : added.Ok home) (hadds : call.Adds home (cache.identity manifest) cache)
    {ran : Ran} (hhome : ran.home = (boxRegister home box (cache.identity manifest) cache added).home)
    (hstatus : ran.status = (boxRegister home box (cache.identity manifest) cache added).status) :
    Kept call home cache (cache.identity manifest) added ran ↔ Covered call home cache (cache.identity manifest) added := by
  have hno : ¬ ¬ call.Adds home (cache.identity manifest) cache := not_not_intro hadds
  cases added with
  | failed status left =>
    have hne : ran.status ≠ 0 := hstatus ▸ hok.1
    refine iff_of_true ⟨fun h => absurd h hne, fun h => absurd h hne, fun h => absurd h hno, ?_⟩
      ⟨by simp, fun h => absurd h hno⟩
    rintro - status' left' - dir copy hget hstamped
    obtain ⟨text, htext, hcaptured⟩ := Option.map_eq_some_iff.mp hstamped
    have hleft : left.get? dir = some copy := by rwa [hhome] at hget
    obtain ⟨copy₀, hget₀, htext₀⟩ := hok.2 dir copy text hleft htext
    exact ⟨copy₀, hget₀, by rw [Stamped, htext₀, Option.map_some, hcaptured]⟩
  | replaced replaced =>
    have hget : ∀ dir, ran.home.get? dir =
        ((home.set replaced cache.copy).get? dir).map (Copy.withStamp (cache.identity manifest)) := fun dir =>
      hhome ▸ (get?_boxRegister replaced dir).1
    have hzero : ran.status = 0 := hstatus.trans (get?_boxRegister replaced replaced).2
    constructor
    · intro hkept
      refine ⟨?_, fun h => absurd h hno⟩
      rintro - replaced' heq dir copy hdir hcopy
      obtain rfl : replaced = replaced' := Added.replaced.inj heq
      have hran : ran.home.get? dir = some (copy.withStamp (cache.identity manifest)) := by
        rw [hget, Dict.get?_set, if_neg hdir, hcopy, Option.map_some]
      have hsame : Same cache (copy.withStamp (cache.identity manifest)) :=
        hkept.stamped hzero dir _ hran (stamped_withStamp cache manifest copy)
      exact hsame
    · intro hcovered
      have hall : ∀ dir copy, ran.home.get? dir = some copy → Same cache copy := by
        intro dir copy hcopy
        rw [hget, Dict.get?_set] at hcopy
        split at hcopy
        · rw [← Option.some.inj hcopy]
          exact ⟨rfl, rfl⟩
        · rename_i hdir
          obtain ⟨copy₀, hcopy₀, rfl⟩ := Option.map_eq_some_iff.mp hcopy
          exact hcovered.1 hadds replaced rfl dir copy₀ hdir hcopy₀
      exact ⟨fun _ dir copy hcopy _ => hall dir copy hcopy, fun _ _ => hall, fun h => absurd h hno, by simp⟩

/-- A box that is current is left alone. -/
theorem kept_current (hcurrent : boxRegState home (cache.identity manifest) = .current) {ran : Ran}
    (hhome : ran.home = home) (hstatus : ran.status = 0) :
    Kept .reuse home cache (cache.identity manifest) added ran ↔ Covered .reuse home cache (cache.identity manifest) added := by
  have hno : ¬ Call.reuse.Adds home (cache.identity manifest) cache := fun h => h.1 hcurrent
  constructor
  · exact fun hkept => ⟨fun h => absurd h hno, fun _ _ dir copy hget => hkept.current hstatus (hhome ▸ hcurrent) dir copy
      (hhome ▸ hget)⟩
  · intro hcovered
    have hall := hcovered.2 hno hcurrent
    refine ⟨fun _ dir copy hget _ => hall dir copy (hhome ▸ hget), fun _ _ dir copy hget => hall dir copy (hhome ▸ hget), ?_,
      fun h => absurd h hno⟩
    exact fun _ dir => by rw [hhome]

/-- A box that is what the cache has is adopted: its copies are stamped. -/
theorem kept_adopted (hsame : sameAsCache home cache = true) (hstate : boxRegState home (cache.identity manifest) = .unstamped)
    {ran : Ran} (hget : ∀ dir, ran.home.get? dir = (home.get? dir).map (Copy.withStamp (cache.identity manifest))) :
    Kept .reuse home cache (cache.identity manifest) added ran ↔ Covered .reuse home cache (cache.identity manifest) added := by
  have hno : ¬ Call.reuse.Adds home (cache.identity manifest) cache := fun h => h.2 ⟨hstate, hsame⟩
  have hall : ∀ dir copy, ran.home.get? dir = some copy → Same cache copy := by
    intro dir copy hcopy
    obtain ⟨copy₀, hcopy₀, rfl⟩ := Option.map_eq_some_iff.mp ((hget dir).symm.trans hcopy)
    exact (sameAsCache_eq_true.mp hsame).2 dir copy₀ hcopy₀
  refine iff_of_true ⟨fun _ dir copy hcopy _ => hall dir copy hcopy, fun _ _ => hall, ?_, fun h => absurd h hno⟩
    ⟨fun h => absurd h hno, fun _ h => absurd (hstate.symm.trans h) (by simp)⟩
  intro _ dir
  rw [hget, Option.map_map]
  rfl

/-- **When a stamp stands for the cache's content.** What has to hold after a
call does if and only if the copies that are stamped, or were found stamped,
without a look are what the cache has. -/
theorem stamped_iff (call : Call) (home : Home) (box manifest : Str) (cache : Cache) {added : Added} (hok : added.Ok home) :
    Kept call home cache (cache.identity manifest) added (call.run home box manifest cache added) ↔
      Covered call home cache (cache.identity manifest) added := by
  cases call with
  | register => exact kept_boxRegister .register box hok trivial rfl rfl
  | reuse =>
    simp only [Call.run, boxReuseRegister]
    cases hstate : boxRegState home (cache.identity manifest) with
    | current => exact kept_current hstate rfl rfl
    | stale => exact kept_boxRegister .reuse box hok ⟨by simp [hstate], by simp [hstate]⟩ rfl rfl
    | absent => exact kept_boxRegister .reuse box hok ⟨by simp [hstate], by simp [hstate]⟩ rfl rfl
    | unstamped =>
      by_cases hsame : sameAsCache home cache = true
      · simp only [if_pos hsame]
        obtain ⟨home', hhome'⟩ := @exists_boxRegStamp home (cache.identity manifest) (sameAsCache_eq_true.mp hsame).1
        simp only [hhome']
        exact kept_adopted hsame hstate (get?_boxRegStamp hhome')
      · simp only [if_neg hsame]
        exact kept_boxRegister .reuse box hok ⟨by simp [hstate], by simp [hsame]⟩ rfl rfl

/-! ### Any number of calls -/

/-- Of a stamp, what the cache had whose identity it is. -/
def Truthful (content : Str → Str × Str) (home : Home) : Prop :=
  ∀ dir copy text, home.get? dir = some copy → copy.stamp = some text →
    (copy.image, copy.metadata) = ((content (captured text)).1, some (content (captured text)).2)

/-- One call: an add that works leaves no other copy that is not what the cache
has, and one that fails leaves the stamped copies as they were. -/
structure Careful (call : Call) (home : Home) (cache : Cache) (identity : Str) (added : Added) : Prop where
  others : call.Adds home identity cache → ∀ replaced, added = .replaced replaced →
    ∀ dir copy, dir ≠ replaced → home.get? dir = some copy → Same cache copy
  failed : ∀ status left, added = .failed status left → ∀ dir copy, left.get? dir = some copy → copy.stamp ≠ none →
    home.get? dir = some copy

/-- What calls come to, one after the other, for caches whose identities stand
for their contents. -/
inductive Reached (content : Str → Str × Str) : Home → Home → Prop
  | refl (home : Home) : Reached content home home
  | call {home home' : Home} (call : Call) (box manifest : Str) (cache : Cache) (added : Added) :
    Reached content home home' → content (cache.identity manifest) = (cache.image, cache.metadata) →
    Careful call home' cache (cache.identity manifest) added →
    Reached content home (call.run home' box manifest cache added).home

variable {content : Str → Str × Str}

/-- Copies that are what the cache has may be stamped. -/
theorem truthful_stamped {home' : Home} (howns : content (cache.identity manifest) = (cache.image, cache.metadata))
    (hsame : ∀ dir copy, home.get? dir = some copy → Same cache copy)
    (hget : ∀ dir, home'.get? dir = (home.get? dir).map (Copy.withStamp (cache.identity manifest))) :
    Truthful content home' := by
  intro dir copy text hcopy htext
  obtain ⟨copy₀, hcopy₀, rfl⟩ := Option.map_eq_some_iff.mp ((hget dir).symm.trans hcopy)
  obtain rfl : cache.identity manifest ++ ['\n'] = text := Option.some.inj htext
  obtain ⟨hmetadata, himage⟩ := hsame dir copy₀ hcopy₀
  rw [captured_identity, howns]
  exact Prod.ext himage hmetadata

theorem Truthful.boxRegister (h : Truthful content home) (call : Call)
    (howns : content (cache.identity manifest) = (cache.image, cache.metadata))
    (hadds : call.Adds home (cache.identity manifest) cache)
    (hcareful : Careful call home cache (cache.identity manifest) added) :
    Truthful content (BoxRegister.boxRegister home box (cache.identity manifest) cache added).home := by
  cases added with
  | failed status left =>
    exact fun dir copy text hget htext => h dir copy text (hcareful.failed status left rfl dir copy hget (by simp [htext])) htext
  | replaced replaced =>
    have hsame : ∀ dir copy, (home.set replaced cache.copy).get? dir = some copy → Same cache copy := by
      intro dir copy hget
      rw [Dict.get?_set] at hget
      split at hget
      · rw [← Option.some.inj hget]
        exact ⟨rfl, rfl⟩
      · rename_i hdir
        exact hcareful.others hadds replaced rfl dir copy hdir hget
    exact truthful_stamped howns hsame fun dir => (get?_boxRegister replaced dir).1

theorem Truthful.call {call : Call} (h : Truthful content home)
    (howns : content (cache.identity manifest) = (cache.image, cache.metadata))
    (hcareful : Careful call home cache (cache.identity manifest) added) :
    Truthful content (call.run home box manifest cache added).home := by
  cases call with
  | register => exact h.boxRegister .register howns trivial hcareful
  | reuse =>
    simp only [Call.run, boxReuseRegister]
    cases hstate : boxRegState home (cache.identity manifest) with
    | current => exact h
    | stale => exact h.boxRegister .reuse howns ⟨by simp [hstate], by simp [hstate]⟩ hcareful
    | absent => exact h.boxRegister .reuse howns ⟨by simp [hstate], by simp [hstate]⟩ hcareful
    | unstamped =>
      by_cases hsame : sameAsCache home cache = true
      · simp only [if_pos hsame]
        obtain ⟨hne, hall⟩ := sameAsCache_eq_true.mp hsame
        obtain ⟨home', hhome'⟩ := @exists_boxRegStamp home (cache.identity manifest) hne
        simp only [hhome']
        exact truthful_stamped howns hall (get?_boxRegStamp hhome')
      · simp only [if_neg hsame]
        exact h.boxRegister .reuse howns ⟨by simp [hstate], by simp [hsame]⟩ hcareful

/-- **Stamps tell the truth over any number of careful calls.** -/
theorem Truthful.run {home' : Home} (h : Truthful content home) (hreached : Reached content home home') :
    Truthful content home' := by
  induction hreached with
  | refl => exact h
  | call call box manifest cache added _ howns hcareful ih => exact ih.call howns hcareful

/-- A box that is current then has what the cache has. -/
theorem Truthful.same_of_current (h : Truthful content home)
    (howns : content (cache.identity manifest) = (cache.image, cache.metadata))
    (hcurrent : boxRegState home (cache.identity manifest) = .current) :
    ∀ dir copy, home.get? dir = some copy → Same cache copy := by
  intro dir copy hget
  obtain ⟨text, htext, hcaptured⟩ := Option.map_eq_some_iff.mp ((boxRegState_eq_current.mp hcurrent).2 dir copy hget)
  have hcontent := h dir copy text hget htext
  rw [hcaptured, howns] at hcontent
  exact ⟨congrArg Prod.snd hcontent, congrArg Prod.fst hcontent⟩

end

/-- A box with a copy for another layout of directories, from an earlier bake. -/
def twoCopies : Home := Dict.ofList
  [("0/libvirt".toList, ⟨"old".toList, some "\x7b\x7d".toList, some "cache=obs.box size=9 mtime=1 manifest=h1\n".toList⟩),
   ("0/arm64/libvirt".toList, ⟨"old".toList, some "\x7b\x7d".toList, some "cache=obs.box size=9 mtime=1 manifest=h1\n".toList⟩)]

def rebaked : Cache := ⟨"obs.box".toList, 9, 2, "new".toList, "\x7b\x7d".toList⟩

theorem stamped_first : Kept .reuse .empty rebaked (rebaked.identity "h2".toList) (.replaced "0/arm64/libvirt".toList)
    (Call.reuse.run .empty "obs".toList "h2".toList rebaked (.replaced "0/arm64/libvirt".toList)) :=
  have hok : (Added.replaced "0/arm64/libvirt".toList).Ok .empty := trivial
  (stamped_iff .reuse .empty "obs".toList "h2".toList rebaked hok).mpr
    ⟨fun _ _ _ _ _ _ hget => absurd hget (by simp), fun _ _ _ _ hget => absurd hget (by simp)⟩

/-- The copy that the add left alone is stamped, too. -/
theorem old_copy_stamped : ¬ ∀ (call : Call) (home : Home) (box manifest : Str) (cache : Cache) (added : Added),
    added.Ok home → Kept call home cache (cache.identity manifest) added (call.run home box manifest cache added) := by
  intro h
  have hkept := h .reuse twoCopies "obs".toList "h2".toList rebaked (.replaced "0/arm64/libvirt".toList) trivial
  have hstatus : (boxReuseRegister twoCopies "obs".toList (rebaked.identity "h2".toList) rebaked
      (.replaced "0/arm64/libvirt".toList)).status = 0 := by decide +kernel
  have hget : (boxReuseRegister twoCopies "obs".toList (rebaked.identity "h2".toList) rebaked
      (.replaced "0/arm64/libvirt".toList)).home.get? "0/libvirt".toList =
        some ⟨"old".toList, some "\x7b\x7d".toList, some (rebaked.identity "h2".toList ++ ['\n'])⟩ := by decide +kernel
  have himage := (hkept.stamped hstatus _ _ hget (stamped_withStamp rebaked _ ⟨_, _, none⟩)).2
  have hne : "old".toList ≠ rebaked.image := by decide
  exact hne himage

end BoxRegister
end Lab
end MqResiliency
