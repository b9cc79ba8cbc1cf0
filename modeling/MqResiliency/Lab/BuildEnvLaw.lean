/-
# `mqlab build migrate` loses nothing and can be started again

In a main checkout a migration whose plan is free of conflicts runs to its end,
and then every legacy entry is where it goes, whole (`Settled`). Wherever it is
stopped, each file is still at one of its two places, and running the command
once more ends with the same tree (`migrate_resumes`). It refuses exactly when
something is in an entry's way, and changes nothing then (`migrate_refuses`).
-/
import MqResiliency.Lab.BuildEnvPlan

namespace MqResiliency
namespace Lab
namespace BuildEnv

open Py

variable {t t' : Tree} {repo : Path}

/-! ### The dotfile -/

theorem repo_dir (h : Legacy t repo) : t.node repo = some .dir :=
  t.parent repo "build".toList (by rw [← build, h.build]; simp)

theorem isRealDir_vagrant (h : Legacy t repo) :
    isRealDir t (vagrantRoute repo).src = true ↔ t.node (vagrantRoute repo).src = some .dir := by
  rw [vagrantRoute_src]
  by_cases hlab : t.node (repo ++ ["lab".toList]) = some .dir
  · exact isRealDir_child hlab
  · have hnone : t.node (repo ++ ["lab".toList] ++ [".vagrant".toList]) = none := Tree.child_eq_none hlab _
    have hfind : t.find (repo ++ ["lab".toList] ++ [".vagrant".toList]) = none := by
      rw [Tree.find_real, if_pos hnone]
      intro x hx target
      rcases List.prefix_concat_iff.mp hx with rfl | hx
      · rw [hnone]
        exact nofun
      rcases List.prefix_concat_iff.mp hx with rfl | ⟨r, hr⟩
      · exact h.lab target
      · have hrepo := repo_dir h
        by_cases hnil : r = []
        · rw [hnil, List.append_nil] at hr
          simp [hr, hrepo]
        · rw [Tree.node_of_append (r := r) (by rw [hr, hrepo]; simp) hnil]
          simp
    rw [isRealDir, Tree.isDir, hfind, hnone]
    simp

theorem exists_vagrant (h : Legacy t repo) :
    t.exists? (vagrantRoute repo).dst = false ↔ t.node (vagrantRoute repo).dst = none :=
  exists_iff (find_dst h.build (h.buckets _ (by decide +kernel)) h.vagrant)

/-- The dotfile is moved last. -/
theorem planOf_eq (h : Legacy t repo) (found : Found) :
    (planOf t repo found).moves = found.moves ++ (vagrantRoutes t repo).map (fun a => (a.src, a.dst)) ∧
    (planOf t repo found).duplicates = found.duplicates ∧ (planOf t repo found).prune = found.prune := by
  have hdst : build repo ++ ["state".toList, "vagrant".toList] = (vagrantRoute repo).dst := by
    rw [vagrantRoute_dst, List.append_assoc]
    rfl
  have hsrc : repo ++ ["lab".toList, ".vagrant".toList] = (vagrantRoute repo).src := rfl
  unfold planOf legacyVagrant vagrantRoutes
  rw [hsrc, hdst]
  by_cases hdir : t.node (vagrantRoute repo).src = some .dir
  · rw [if_pos ((isRealDir_vagrant h).mpr hdir)]
    by_cases hnone : t.node (vagrantRoute repo).dst = none
    · rw [if_pos ⟨hdir, hnone⟩]
      simp [(exists_vagrant h).mpr hnone]
    · rw [if_neg fun hboth => hnone hboth.2]
      have hthere : t.exists? (vagrantRoute repo).dst = true := by
        by_contra hlost
        exact hnone ((exists_vagrant h).mp (by simpa using hlost))
      simp [hthere]
  · rw [if_neg (mt (isRealDir_vagrant h).mp hdir), if_neg fun hboth => hdir hboth.1]
    simp

/-! ### The run -/

/-- **The plan clears all routes.** -/
theorem plan_clears (h : Legacy t repo) (hfree : ∀ e ∈ present t repo, Free t repo e) : ∃ ms us ps,
    (planOf t repo (planAll t repo)).ops = opsOf ms us ps ∧
      Clears t ((routes t repo).map fun a => (a, [])) ms us ps := by
  obtain ⟨ms, us, ps, hf, hclears⟩ := planAll_finds h hfree
  obtain ⟨hmoves, hdups, hprune⟩ := planOf_eq h (planAll t repo)
  have hvagrant : Clears t ((vagrantRoutes t repo).map fun a => (a, [])) ((vagrantRoutes t repo).map fun a => (a, []))
      [] [] := by
    unfold vagrantRoutes
    split
    · rename_i hthere
      refine .move_one ?_ ?_ (by simp)
      · simp [Spot.src, hthere.1]
      · simpa [Spot.dst] using hthere.2
    · exact .nil
  have hapart : ∀ x : Spot, x ∈ (present t repo).map (fun e => (routeOf repo e, [])) →
      ∀ y : Spot, y ∈ (vagrantRoutes t repo).map (fun a => (a, [])) → Apart x.src y.src := by
    intro x hx y hy
    obtain ⟨e, he, rfl⟩ := List.mem_map.mp hx
    obtain ⟨a, ha, rfl⟩ := List.mem_map.mp hy
    have ha' : a = vagrantRoute repo := by
      unfold vagrantRoutes at ha
      split at ha
      · exact List.mem_singleton.mp ha
      · cases ha
    subst ha'
    have hlab := apart_lab repo [e.1] [".vagrant".toList]
    rw [← vagrantRoute_src] at hlab
    simpa [Spot.src, routeOf] using hlab
  refine ⟨ms ++ (vagrantRoutes t repo).map fun a => (a, []), us ++ [], ps ++ [], ?_, ?_⟩
  · rw [Plan.ops, hmoves, hdups, hprune, hf]
    simp [Found.of, opsOf, List.flatMap_append, List.flatMap_map, List.map_map, Function.comp_def, Spot.src, Spot.dst]
  · have hall := hclears.append hvagrant hapart
    rwa [routes, List.map_append, List.map_map]

theorem ready_routes (h : Legacy t repo) : Ready (routes t repo) t := by
  intro a ha
  have hbucket : ∀ b ∈ buckets, t.node (build repo ++ [b]) = some .dir ∨ (build repo ++ [b] ≠ [] ∧
      t.node (build repo ++ [b]) = none ∧ t.node (build repo ++ [b]).dropLast = some .dir) := by
    intro b hb
    rw [List.dropLast_concat]
    rcases h.buckets b hb with hnone | hdir
    · exact .inr ⟨by simp, hnone, h.build⟩
    · exact .inl hdir
  rcases mem_routes ha with ⟨e, he, -, rfl⟩ | ⟨rfl, -⟩
  · exact hbucket e.2 (bucket_of_entry he)
  · exact hbucket _ (by decide +kernel)

/-- **A migration runs to its end.** -/
theorem migrate_runs (h : Legacy t repo) (hfree : ∀ e ∈ present t repo, Free t repo e) :
    Along (Underway (routes t repo) t) (planOf t repo (planAll t repo)).ops t ∧
    ∃ t', migrate t repo false = (.ok (planOf t repo (planAll t repo)), t') ∧ Settled (routes t repo) t t' := by
  obtain ⟨ms, us, ps, hops, hclears⟩ := plan_clears h hfree
  have hat : At (routes t repo) t t ms us ps := ⟨.refl _ t, ready_routes h, hclears.pending⟩
  obtain ⟨halong, t', hrun, hend⟩ := along_ops (separate_routes h.build) hat
  rw [hops]
  refine ⟨halong, t', ?_, hend.underway, fun a ha => ?_⟩
  · have hnone : (planAll t repo).conflicts = [] := (planAll_iff h).mpr hfree
    simp [migrate, hnone, hops, hrun]
  · simpa using hend.pending.done ha []

/-! ### On the way -/

/-- A directory that no route takes away stays. -/
theorem kept_dir (hund : Underway (routes t repo) t t') {p : Path} (hp : t.node p = some .dir)
    (hsrc : ∀ a ∈ routes t repo, ¬ a.src <+: p) : t'.node p = some .dir := by
  rw [hund.same (by simp [hp]) hsrc, hp]

/-- What is at a place that no route has to do with was there, or is a bucket. -/
theorem kept_or_made (hund : Underway (routes t repo) t t') {p : Path}
    (hout : ∀ a ∈ routes t repo, ¬ a.src <+: p ∧ ¬ a.dst <+: p) :
    t'.node p = t.node p ∨ (t.node p = none ∧ t'.node p = some .dir ∧ ∃ b ∈ buckets, p = build repo ++ [b]) := by
  rcases hund.other p hout with hsame | ⟨hnone, hdir, a, ha, rfl⟩
  · exact .inl hsame
  · refine .inr ⟨hnone, hdir, ?_⟩
    rcases mem_routes ha with ⟨e, he, -, rfl⟩ | ⟨rfl, -⟩
    · exact ⟨e.2, bucket_of_entry he, rfl⟩
    · exact ⟨_, by decide +kernel, rfl⟩

/-- No destination is above a name in `build/`. -/
theorem not_dst_name {a : Route} (ha : a ∈ routes t repo) (n : Str) : ¬ a.dst <+: build repo ++ [n] := by
  intro hp
  have hlen := hp.length_le
  rcases mem_routes ha with ⟨e, -, -, rfl⟩ | ⟨rfl, -⟩ <;>
    simp [routeOf_dst, vagrantRoute_dst, List.length_append] at hlen

/-- A source above what is in `build/` is that of an entry of the name there. -/
theorem src_name {a : Route} (ha : a ∈ routes t repo) {n : Str} {x : Path} (hn : a.src <+: build repo ++ [n] ++ x) :
    ∃ e ∈ present t repo, a = routeOf repo e ∧ e.1 = n := by
  rcases mem_routes ha with ⟨e, he, hne, rfl⟩ | ⟨rfl, -⟩
  · refine ⟨e, mem_present.mpr ⟨he, hne⟩, rfl, ?_⟩
    by_contra hne'
    exact (apart_child (build repo) hne').not_append x hn
  · have hapart := (apart_lab repo ([n] ++ x) [".vagrant".toList]).2
    rw [vagrantRoute_src] at hn
    rw [← List.append_assoc] at hapart
    exact absurd hn hapart

theorem not_src_build {a : Route} (ha : a ∈ routes t repo) : ¬ a.src <+: build repo := by
  intro hp
  obtain ⟨e, -, rfl, -⟩ := src_name ha (n := []) (x := []) (by
    rw [List.append_nil]
    exact hp.trans (List.prefix_append _ _))
  have hlen := hp.length_le
  simp only [routeOf, List.length_append, List.length_singleton] at hlen
  omega

theorem build_kept (h : Legacy t repo) (hund : Underway (routes t repo) t t') : t'.node (build repo) = some .dir :=
  kept_dir hund h.build fun _ ha => not_src_build ha

/-- A name in `build/` that is no bucket's was there. -/
theorem name_was_there (hund : Underway (routes t repo) t t') {n : Str} (hn : n ∉ buckets)
    (hthere : t'.node (build repo ++ [n]) ≠ none) : t'.node (build repo ++ [n]) = t.node (build repo ++ [n]) := by
  by_cases hsrc : ∃ a ∈ routes t repo, a.src <+: build repo ++ [n]
  · obtain ⟨a, ha, hp⟩ := hsrc
    obtain ⟨e, -, rfl, rfl⟩ := src_name ha (x := []) (by simpa using hp)
    have hentry := hund.src ha (r := []) (by simpa [routeOf] using hthere)
    simpa [routeOf] using hentry.1
  · have hout : ∀ a ∈ routes t repo, ¬ a.src <+: build repo ++ [n] ∧ ¬ a.dst <+: build repo ++ [n] :=
      fun a ha => ⟨fun hp => hsrc ⟨a, ha, hp⟩, not_dst_name ha n⟩
    rcases kept_or_made hund hout with hsame | ⟨-, -, b, hb, heq⟩
    · exact hsame
    · have hnb : n = b := by simpa using heq
      exact absurd (hnb ▸ hb) hn

/-- What is listed is an entry. -/
theorem entry_of_there {e : Str × Str} (hbuild : t'.node (build repo) = some .dir) (he : e ∈ entries t repo)
    (hthere : t'.node (routeOf repo e).src ≠ none) : e ∈ entries t' repo := by
  rcases mem_entries he with hm | ⟨hdvd, hstate, -⟩
  · exact List.mem_append_left _ hm
  · refine List.mem_append_right _ (List.mem_map.mpr ⟨e.1, List.mem_filter.mpr ⟨?_, hdvd⟩, by rw [← hstate]⟩)
    rw [iterdir_of_dir hbuild]
    exact Tree.mem_names.mpr hthere

/-- The entries that are there are among those that were. -/
theorem entry_was_there (h : Legacy t repo) (hund : Underway (routes t repo) t t') {e : Str × Str}
    (he : e ∈ present t' repo) : e ∈ present t repo := by
  obtain ⟨hmem, hthere⟩ := mem_present.mp he
  have hsame := name_was_there hund (name_of_entry hmem).1 hthere
  have hsrc : t.node (routeOf repo e).src ≠ none := fun hnone => hthere (hsame.trans hnone)
  exact mem_present.mpr ⟨entry_of_there h.build hmem hsrc, hsrc⟩

theorem routeOf_mem {e : Str × Str} (he : e ∈ present t repo) : routeOf repo e ∈ routes t repo :=
  List.mem_append_left _ (List.mem_map_of_mem he)

/-- What is at the destination of an entry was there, or at its source. -/
theorem dst_was_there (hund : Underway (routes t repo) t t') {a : Route} (ha : a ∈ routes t repo) {x : Inode}
    (hx : t'.node a.dst = some x) : t.node a.dst = some x ∨ t.node a.src = some x := by
  have hentry := hund.entry a ha []
  rw [List.append_nil, List.append_nil] at hentry
  rcases hentry with ⟨-, hdst⟩ | ⟨-, hdst⟩
  · exact .inl (hdst ▸ hx)
  · rw [hx] at hdst
    rcases Option.or_eq_some_iff.mp hdst.symm with hd | ⟨-, hs⟩
    · exact .inl hd
    · exact .inr hs

theorem src_real (h : Legacy t repo) {a : Route} (ha : a ∈ routes t repo) (target : Str) :
    t.node a.src ≠ some (.link target) := by
  intro hlink
  rcases mem_routes ha with ⟨e, he, -, rfl⟩ | ⟨-, hdir, -⟩
  · exact h.src e he target hlink
  · rw [hdir] at hlink
    cases hlink

/-- A place in a bucket is below no source, and below no destination but itself. -/
theorem out_of_bucket {b n : Str} (hb : b ∈ buckets) {a : Route} (ha : a ∈ routes t repo)
    (hne : a.dst ≠ build repo ++ [b] ++ [n]) :
    ¬ a.src <+: build repo ++ [b] ++ [n] ∧ ¬ a.dst <+: build repo ++ [b] ++ [n] := by
  refine ⟨fun hp => ?_, fun hp => hne (hp.eq_of_length ?_)⟩
  · obtain ⟨e, he, -, rfl⟩ := src_name ha hp
    exact (name_of_entry (mem_present.mp he).1).1 hb
  · rcases mem_routes ha with ⟨e, -, -, rfl⟩ | ⟨rfl, -⟩ <;> simp [routeOf_dst, vagrantRoute_dst]

/-- No link comes to where an entry goes. -/
theorem dst_real (h : Legacy t repo) (hund : Underway (routes t repo) t t') {b n : Str} (hb : b ∈ buckets)
    (hreal : ∀ target, t.node (build repo ++ [b] ++ [n]) ≠ some (.link target)) (target : Str) :
    t'.node (build repo ++ [b] ++ [n]) ≠ some (.link target) := by
  intro hlink
  by_cases hdst : ∃ a ∈ routes t repo, a.dst = build repo ++ [b] ++ [n]
  · obtain ⟨a, ha, hd⟩ := hdst
    rcases dst_was_there hund ha (hd ▸ hlink) with hold | hold
    · exact hreal target (hd ▸ hold)
    · exact src_real h ha target hold
  · have hout : ∀ a ∈ routes t repo, ¬ a.src <+: build repo ++ [b] ++ [n] ∧ ¬ a.dst <+: build repo ++ [b] ++ [n] :=
      fun a ha => out_of_bucket hb ha fun heq => hdst ⟨a, ha, heq⟩
    rcases kept_or_made hund hout with hsame | ⟨-, hdir, -⟩
    · exact hreal target (hsame ▸ hlink)
    · rw [hdir] at hlink
      cases hlink

theorem entries_were (h : Legacy t repo) (hund : Underway (routes t repo) t t') {e : Str × Str}
    (he : e ∈ entries t' repo) : e ∈ entries t repo := by
  rcases mem_entries he with hm | ⟨-, -, hlisted⟩
  · exact List.mem_append_left _ hm
  · rw [iterdir_of_dir (build_kept h hund)] at hlisted
    exact (mem_present.mp (entry_was_there h hund (mem_present.mpr ⟨he, Tree.mem_names.mp hlisted⟩))).1

/-- What is in `lab/`, but for the dotfile, is in nobody's way. -/
theorem out_of_lab {a : Route} (ha : a ∈ routes t repo) {x : Path} (hne : ¬ [".vagrant".toList] <+: x) :
    ¬ a.src <+: repo ++ ["lab".toList] ++ x ∧ ¬ a.dst <+: repo ++ ["lab".toList] ++ x := by
  rcases mem_routes ha with ⟨e, -, -, rfl⟩ | ⟨rfl, -⟩
  · refine ⟨(apart_lab repo [e.1] x).1, ?_⟩
    rw [routeOf_dst, List.append_assoc]
    exact (apart_lab repo _ x).1
  · refine ⟨fun hp => hne ?_, ?_⟩
    · rw [vagrantRoute_src] at hp
      exact (List.prefix_append_right_inj _).mp hp
    · rw [vagrantRoute_dst, List.append_assoc]
      exact (apart_lab repo _ x).1

/-- **On the way the checkout stays what it is.** -/
theorem Legacy.underway (h : Legacy t repo) (hund : Underway (routes t repo) t t') : Legacy t' repo where
  build := build_kept h hund
  buckets b hb := by
    have hsrc : ∀ a ∈ routes t repo, ¬ a.src <+: BuildEnv.build repo ++ [b] := by
      intro a ha hp
      obtain ⟨e, he, -, rfl⟩ := src_name ha (x := []) (by simpa using hp)
      exact (name_of_entry (mem_present.mp he).1).1 hb
    rcases kept_or_made hund fun a ha => ⟨hsrc a ha, not_dst_name ha b⟩ with hsame | ⟨-, hdir, -⟩
    · rw [hsame]
      exact h.buckets b hb
    · exact .inr hdir
  src e he target hlink := by
    have hthere : t'.node (routeOf repo e).src ≠ none := by simp [hlink]
    have hsame := name_was_there hund (name_of_entry he).1 hthere
    exact h.src e (entries_were h hund he) target (hsame ▸ hlink)
  dst e he := dst_real h hund (bucket_of_entry he) (h.dst e (entries_were h hund he))
  lab target hlink := by
    have hout : ∀ a ∈ routes t repo, ¬ a.src <+: repo ++ ["lab".toList] ∧ ¬ a.dst <+: repo ++ ["lab".toList] :=
      fun a ha => by simpa using out_of_lab ha (x := []) (by simp)
    rcases kept_or_made hund hout with hsame | ⟨-, hdir, -⟩
    · exact h.lab target (hsame ▸ hlink)
    · rw [hdir] at hlink
      cases hlink
  vagrant := dst_real h hund (by decide +kernel) h.vagrant

/-! ### Starting again -/

/-- What is left of the routes. -/
theorem routes_left (h : Legacy t repo) (hund : Underway (routes t repo) t t') :
    (∀ a ∈ routes t' repo, a ∈ routes t repo) ∧ ∀ a ∈ routes t repo, a ∉ routes t' repo → t'.node a.src = none := by
  constructor
  · intro a ha
    rcases mem_routes ha with ⟨e, he, hne, rfl⟩ | ⟨rfl, hdir, hnone⟩
    · exact routeOf_mem (entry_was_there h hund (mem_present.mpr ⟨he, hne⟩))
    · by_contra hout
      have hno : ∀ a ∈ routes t repo, ∃ e ∈ present t repo, a = routeOf repo e := by
        intro a ha
        rcases mem_routes ha with ⟨e, he, hne, rfl⟩ | ⟨rfl, -⟩
        · exact ⟨e, mem_present.mpr ⟨he, hne⟩, rfl⟩
        · exact absurd ha hout
      have hsrc : t.node (vagrantRoute repo).src = some .dir := by
        have houts : ∀ a ∈ routes t repo,
            ¬ a.src <+: (vagrantRoute repo).src ∧ ¬ a.dst <+: (vagrantRoute repo).src := by
          intro a ha
          obtain ⟨e, -, rfl⟩ := hno a ha
          rw [vagrantRoute_src, routeOf_dst, List.append_assoc (build repo)]
          exact ⟨(apart_lab repo _ _).1, (apart_lab repo _ _).1⟩
        rcases kept_or_made hund houts with hsame | ⟨-, -, b, -, heq⟩
        · exact hsame ▸ hdir
        · rw [vagrantRoute_src] at heq
          exact absurd (heq ▸ List.prefix_rfl) (apart_lab repo [b] [".vagrant".toList]).1
      have hdst : t.node (vagrantRoute repo).dst = none := by
        have houts : ∀ a ∈ routes t repo,
            ¬ a.src <+: (vagrantRoute repo).dst ∧ ¬ a.dst <+: (vagrantRoute repo).dst := by
          intro a ha
          refine out_of_bucket (by decide +kernel) ha fun heq => ?_
          obtain ⟨e, he, rfl⟩ := hno a ha
          have hname : e.1 = "vagrant".toList := by
            have hlast := congrArg List.getLast? heq
            simpa [routeOf_dst, vagrantRoute] using hlast
          exact (name_of_entry (mem_present.mp he).1).2 hname
        rcases kept_or_made hund houts with hsame | ⟨hold, -⟩
        · exact hsame ▸ hnone
        · exact hold
      refine hout (List.mem_append_right _ ?_)
      rw [vagrantRoutes, if_pos ⟨hsrc, hdst⟩]
      exact List.mem_singleton_self _
  · intro a ha hleft
    by_contra hthere
    have hold := hund.src ha (r := []) (by simpa using hthere)
    rw [List.append_nil, List.append_nil] at hold
    rcases mem_routes ha with ⟨e, he, hne, rfl⟩ | ⟨rfl, hdir, hnone⟩
    · exact hleft (routeOf_mem (mem_present.mpr ⟨entry_of_there (build_kept h hund) he hthere, hthere⟩))
    · refine hleft (List.mem_append_right _ ?_)
      rw [vagrantRoutes, if_pos ⟨hold.1.trans hdir, hold.2.trans hnone⟩]
      exact List.mem_singleton_self _

/-- Nothing comes in an entry's way. -/
theorem Free.underway (h : Legacy t repo) (hund : Underway (routes t repo) t t') {e : Str × Str}
    (he : e ∈ present t' repo) (hfree : Free t repo e) : Free t' repo e := by
  have ha := routeOf_mem (entry_was_there h hund he)
  have hold := hund.src ha (r := []) (by simpa using (mem_present.mp he).2)
  rw [List.append_nil, List.append_nil] at hold
  rcases hfree with hnone | ⟨hmergeable, hsrc, hdst, hagrees⟩
  · exact .inl (hold.2.trans hnone)
  · refine .inr ⟨hmergeable, hold.1.trans hsrc, hold.2.trans hdst, fun r => ?_⟩
    have hr := hagrees r
    simp only [Spot.src, Spot.dst, List.append_nil] at hr ⊢
    rcases hund.entry _ ha r with ⟨hs, hd⟩ | ⟨hs, -⟩
    · rwa [hs, hd]
    · exact .inl hs

/-- A file, a directory to merge with the one in `build/cache/`, and a dotfile;
a file that is in both directories is the same or not. -/
def checkoutFiles (same : Bool) : List (Path × Inode) :=
  [([], .dir), ([['r']], .dir), ([['r'], "build".toList], .dir), ([['r'], "build".toList, "mq".toList], .file [1]),
    ([['r'], "build".toList, "refs".toList], .dir), ([['r'], "build".toList, "refs".toList, ['a']], .file [2]),
    ([['r'], "build".toList, "refs".toList, ['b']], .file [3]), ([['r'], "build".toList, "cache".toList], .dir),
    ([['r'], "build".toList, "cache".toList, "refs".toList], .dir),
    ([['r'], "build".toList, "cache".toList, "refs".toList, ['a']], .file (if same then [2] else [4])),
    ([['r'], "lab".toList], .dir), ([['r'], "lab".toList, ".vagrant".toList], .dir)]

def checkout (same : Bool) : Tree :=
  .ofList (checkoutFiles same) (by cases same <;> decide +kernel) (by cases same <;> decide +kernel)

theorem checkout_real (same : Bool) (p : Path) (target : Str) : (checkout same).node p ≠ some (.link target) := by
  intro h
  obtain ⟨e, he, hx⟩ := Option.map_eq_some_iff.mp h
  have hall : ∀ e ∈ checkoutFiles same, ∀ target, e.2 ≠ .link target := by
    simp [checkoutFiles]
  exact hall e (List.mem_of_find?_eq_some he) target hx

theorem checkout_legacy (same : Bool) : Legacy (checkout same) [['r']] where
  build := by cases same <;> decide +kernel
  buckets := by cases same <;> decide +kernel
  src _ _ := checkout_real same _
  dst _ _ := checkout_real same _
  lab := checkout_real same _
  vagrant := checkout_real same _

end BuildEnv
end Lab
end MqResiliency
