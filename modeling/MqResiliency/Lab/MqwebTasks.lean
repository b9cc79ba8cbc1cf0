/-
# What a batch comes to

The tasks of the role one by one, up to the whole batch (`leads_batch`): at every
command what is encoded decodes, and at the end its server has the file and the
key it was encoded with. It fails only where things are flaky: nothing that an
earlier batch left, cut off anywhere, is in the way.
-/
import MqResiliency.Lab.MqwebSite

namespace MqResiliency
namespace Mqweb

open Py Prog

variable {flaky : Prop} {decodes : (key text password : Str) → Prop} {v : Vars} {sha256 : Str → Str} {n : Str}
  {w w' w₀ : World}

/-! ### The tasks -/

section
variable {I : World → Prop} {file key : Str}

/-- A command that may fail without a trace. -/
theorem leads_stat {Q : Option Bool → World → Prop} (hI : I w) (hQ : Q (some (w.files file).isSome) w)
    (hno : flaky → Q none w) : Leads flaky (Site flaky decodes n) I (stat file) Q w := by
  intro a w' hs
  cases hs with
  | stat => exact ⟨hI, hQ⟩
  | noStat hf => exact ⟨hI, hno hf⟩

theorem leads_lookup {Q : Option Str → World → Prop} (hI : I w)
    (hQ : ∀ content, w.files file = some content → Q (some (rstrip content)) w)
    (hno : w.files file = none ∨ flaky → Q none w) : Leads flaky (Site flaky decodes n) I (lookup file) Q w := by
  intro a w' hs
  cases hs with
  | lookup hcontent => exact ⟨hI, hQ _ hcontent⟩
  | noLookup hf => exact ⟨hI, hno hf⟩

theorem leads_encode {password : Str} {Q : Option Str → World → Prop} (hI : I w) (hkey : w.keyAt n = some key)
    (hQ : ∀ out, decodes key (trim out) password → Q (some (trim out)) w) (hno : flaky → Q none w) :
    Leads flaky (Site flaky decodes n) I (securityEncode password isEncoded) Q w := by
  unfold securityEncode
  intro a w' hs
  cases hs with
  | @encode _ _ _ out hkey' hdec hgood =>
    obtain rfl := Option.some.inj (hkey.symm.trans hkey')
    refine ⟨hI, ?_⟩
    change Q (if isEncoded (trim out) = true then some (trim out) else none) w
    split
    · exact hQ _ (hdec ‹_›)
    · exact hno (hgood.resolve_left ‹_›)
  | noEncode hf => exact ⟨hI, hno (hf.resolve_left (by simp [hkey]))⟩

theorem leads_persist {content : Str} {Q : Bool → World → Prop} (hI : I w) (hI' : I (w.write file content))
    (hQ : Q true (w.write file content)) (hno : flaky → file ≠ encFile keystore → Q false w) :
    Leads flaky (Site flaky decodes n) I (persist file content) Q w := by
  intro a w' hs
  cases hs with
  | persist => exact ⟨hI', hQ⟩
  | noPersist hf hne => exact ⟨hI, hno hf hne⟩

end

section
variable {key : Str} {isNew : Bool}

theorem leads_newKey (hk : Kept decodes v sha256 w₀ w) (hno : w.files keyFile = none) (hnew : ¬ Steady v sha256 w₀) :
    Leads flaky (Site flaky decodes n) (Kept decodes v sha256 w₀) (newKey v)
      (fun _ w' => Kept decodes v sha256 w₀ w' ∧ ∃ key, w'.files keyFile = some key) w := by
  unfold newKey
  refine wp_then (P := fun _ w' => Kept decodes v sha256 w₀ w' ∧ w'.files keyFile = none ∧
    (w'.keyAt n = none ∨ flaky)) (leads_task fun ok w' hs => ?_) fun _ w₁ hdropped => ?_
  · cases hs with
    | dropKey => exact ⟨hk.putKey none, fun _ => ⟨hk.putKey none, hno, .inl (by simp [World.putKey])⟩, .inl rfl⟩
    | keepKey hf => exact ⟨hk, fun _ => ⟨hk, hno, .inr hf⟩, .inr hf⟩
  obtain ⟨hk₁, hno₁, hat₁⟩ := hdropped
  refine wp_then (P := fun _ w' => Kept decodes v sha256 w₀ w' ∧ w'.files keyFile = none ∧
    (flaky ∨ ∃ key, w'.keyAt n = some key ∧ Py.contains key "wlp.aes.encryption.key".toList = true))
    (leads_task fun ok w' hs => ?_) fun _ w₂ hgenerated => ?_
  · cases hs with
    | @generateKey _ _ key _ hgood =>
      refine ⟨hk₁.putKey _, fun _ => ⟨hk₁.putKey _, hno₁, ?_⟩, .inl rfl⟩
      exact hgood.symm.imp_right fun hgood => ⟨key, by simp [World.putKey], hgood⟩
    | noNewKey hf =>
      have hflaky : flaky := hat₁.elim (fun hat => hf.resolve_left (absurd hat)) id
      exact ⟨hk₁.putKey _, fun _ => ⟨hk₁.putKey _, hno₁, .inl hflaky⟩, .inr hflaky⟩
  obtain ⟨hk₂, hno₂, hat₂⟩ := hgenerated
  refine wp_then (P := fun content w' => Kept decodes v sha256 w₀ w' ∧ w'.files keyFile = none ∧
    (Py.contains content "wlp.aes.encryption.key".toList = true ∨ flaky))
    (leads_register fun r w' hs => ?_) fun content w₃ hslurped => ?_
  · cases hs with
    | @slurpKey _ key hkey =>
      refine ⟨hk₂, fun a ha => ⟨hk₂, hno₂, ?_⟩, fun h => absurd h (by simp)⟩
      obtain rfl := Option.some.inj ha
      refine hat₂.symm.imp_left ?_
      rintro ⟨key', hkey', hgood⟩
      exact Option.some.inj (hkey.symm.trans hkey') ▸ hgood
    | noSlurp hf =>
      refine ⟨hk₂, fun _ h => absurd h (by simp), fun _ => ?_⟩
      rcases hat₂ with hat | ⟨key, hkey, -⟩
      · exact hat
      · exact hf.resolve_left (by simp [hkey])
  obtain ⟨hk₃, hno₃, hgood₃⟩ := hslurped
  rw [wp_bind]
  refine leads_require (fun _ => leads_task ?_) hgood₃
  have hk' := hk₃.write hnew (hk₃.sound.writeKey (s := content) hno₃)
  exact leads_persist hk₃ hk' ⟨fun _ => ⟨hk', content, write_self _ _ _⟩, .inl rfl⟩
    fun hf _ => ⟨fun h => absurd h (by simp), .inr hf⟩

theorem leads_placeKey {name : String} (hk : Kept decodes v sha256 w₀ w) (hkey : w.files keyFile = some key) :
    Leads flaky (Site flaky decodes n) (Kept decodes v sha256 w₀) (task name (ask Cmd.placeKey))
      (fun _ w' => Kept decodes v sha256 w₀ w' ∧ w'.files keyFile = some key ∧ w'.keyAt n = some key) w := by
  refine leads_task fun ok w' hs => ?_
  cases hs with
  | placeKey hkey' =>
    obtain rfl := Option.some.inj (hkey.symm.trans hkey')
    exact ⟨hk.putKey _, fun _ => ⟨hk.putKey _, hkey, by simp [World.putKey]⟩, .inl rfl⟩
  | noPlace hf => exact ⟨hk, fun h => absurd h (by simp), .inr (hf.resolve_left (by simp [hkey]))⟩

theorem exists_zip {α β : Type} {a : α} : ∀ {as : List α} {bs : List β}, as.length = bs.length → a ∈ as →
    ∃ b, (a, b) ∈ as.zip bs
  | a' :: as, b' :: bs, hlen, ha => by
    rcases List.mem_cons.mp ha with rfl | ha
    · exact ⟨b', List.mem_cons_self⟩
    · obtain ⟨b, hb⟩ := exists_zip (Nat.succ.inj hlen) ha
      exact ⟨b, List.mem_cons_of_mem _ hb⟩

/-- What is encoded of the users is missing, or the key is new. -/
theorem leads_userPasswords (hfree : ∀ u ∈ v.users, u.name ≠ keystore) (hk : Kept decodes v sha256 w₀ w)
    (hkey : w.files keyFile = some key) (hat : w.keyAt n = some key) (hnew : isNew = true → ¬ Steady v sha256 w₀) :
    Leads flaky (Site flaky decodes n) (Kept decodes v sha256 w₀) (userPasswords v isNew)
      (fun _ w' => (Kept decodes v sha256 w₀ w' ∧ w'.files keyFile = some key ∧ w'.keyAt n = some key) ∧
        ∀ u ∈ v.users, (w'.files (encFile u.name)).isSome) w := by
  unfold userPasswords
  rw [Leads, wp_bind]
  refine leads_loop (K := fun w' => w' = w) (R := fun (u : User) b _ => b = (w.files (encFile u.name)).isSome)
    (fun _ _ _ _ _ h => h) rfl (fun u _ w' hw => ?_) fun exist w' hw hexist => ?_
  · subst hw
    exact leads_stat hk ⟨rfl, fun _ h => h, fun b hb => (Option.some.inj hb).symm, fun h => absurd h (by simp)⟩
      fun hf => ⟨rfl, fun _ h => h, fun _ h => absurd h (by simp), fun _ => hf⟩
  subst hw
  dsimp only
  -- on a steady controller nothing is stale
  have hstale : ∀ p ∈ (v.users.zip exist).filter (fun p => isNew || !p.2), p.1 ∈ v.users ∧ ¬ Steady v sha256 w₀ := by
    intro p hp
    obtain ⟨hp, hold⟩ := List.mem_filter.mp hp
    have hu : p.1 ∈ v.users := (List.of_mem_zip hp).1
    refine ⟨hu, fun hst => ?_⟩
    have hpresent : p.2 = true := by
      rw [(List.forall₂_iff_zip.mp hexist).2 hp, hk.steady hst]
      exact hst.names p.1.name (List.mem_append_left _ (List.mem_map_of_mem hu))
    cases isNew with
    | false => simp [hpresent] at hold
    | true => exact hnew rfl hst
  rw [wp_bind]
  refine leads_loop (K := fun w'' => w'' = w')
    (R := fun (p : User × Bool) s _ => decodes key s p.1.name ∧ ∃ out, s = trim out)
    (fun _ _ _ _ _ h => h) rfl (fun p _ w'' hw => ?_) fun encoded w'' hw hencoded => ?_
  · subst hw
    exact leads_encode hk hat
      (fun out hdec =>
        ⟨rfl, fun _ h => h, fun s hs => Option.some.inj hs ▸ ⟨hdec, out, rfl⟩, fun h => absurd h (by simp)⟩)
      fun hf => ⟨rfl, fun _ h => h, fun _ h => absurd h (by simp), fun _ => hf⟩
  subst hw
  rw [wp_bind]
  refine leads_loop (R := fun (p : (User × Bool) × Str) _ w₁ => (w₁.files (encFile p.1.1.name)).isSome)
    (K := fun w₁ => (Kept decodes v sha256 w₀ w₁ ∧ w₁.files keyFile = some key ∧ w₁.keyAt n = some key) ∧ Grows w'' w₁)
    (fun p _ _ _ hg h => hg _ h) ⟨⟨hk, hkey, hat⟩, fun _ h => h⟩ (fun p hp w₁ hpost => ?_)
    fun units w₁ hpost hwritten => ⟨hpost.1, fun u hu => ?_⟩
  swap
  · -- what was there is there, the others are written
    have hg₁ := hpost.2
    obtain ⟨b, hub⟩ : ∃ b, (u, b) ∈ v.users.zip exist := exists_zip hexist.length_eq hu
    have hb : b = (w''.files (encFile u.name)).isSome := (List.forall₂_iff_zip.mp hexist).2 hub
    by_cases hold : (isNew || !b) = true
    · obtain ⟨s, hs⟩ := exists_zip hencoded.length_eq (List.mem_filter.mpr ⟨hub, hold⟩)
      obtain ⟨r, hr⟩ := exists_zip hwritten.length_eq hs
      exact (List.forall₂_iff_zip.mp hwritten).2 hr
    · refine hg₁ _ (hb ▸ ?_)
      by_contra hno
      exact hold (by simp [hno])
  obtain ⟨⟨hk₁, hkey₁, hat₁⟩, hg₁⟩ := hpost
  obtain ⟨hu, hns⟩ := hstale p.1 (List.of_mem_zip hp).1
  obtain ⟨hdec, out, hout⟩ := (List.forall₂_iff_zip.mp hencoded).2 hp
  have hline : rstrip (p.2 ++ ['\n']) = p.2 := by
    rw [hout]
    exact rstrip_line out
  have hs := hk₁.sound.writeUser (s := p.2 ++ ['\n']) hkey₁ (hfree _ hu) (hline.symm ▸ hdec)
  have hk₂ := hk₁.write hns hs
  have hkey₂ : (w₁.write (encFile p.1.1.name) (p.2 ++ ['\n'])).files keyFile = some key := by
    rw [write_of_ne _ _ (encFile_ne_keyFile _).symm]
    exact hkey₁
  exact leads_persist hk₁ hk₂
    ⟨⟨⟨hk₂, hkey₂, hat₁⟩, fun file hfile => grows_write _ _ _ file (hg₁ file hfile)⟩, grows_write _ _ _,
      fun _ _ => write_self _ _ _ ▸ rfl, fun h => absurd h (by simp)⟩
    fun hf _ => ⟨⟨⟨hk₁, hkey₁, hat₁⟩, hg₁⟩, fun _ h => h, fun _ h => absurd h (by simp), fun _ => hf⟩

end

section
variable {key keyrpwd : Str} {isNew : Bool}

theorem mem_names_of_tls (h : v.tls = true) : keystore ∈ v.names := by
  rw [Vars.names, if_pos h]
  exact List.mem_append_right _ List.mem_cons_self

theorem trim_of_not_space {s : Str} (h : ∀ c ∈ s, Re.isSpace c = false) : trim s = s := by
  have hdrop : s.dropWhile Re.isSpace = s := by
    cases s with
    | nil => rfl
    | cons c s => exact List.dropWhile_cons_of_neg (by simp [h c List.mem_cons_self])
  rw [trim, hdrop]
  exact List.rdropWhile_eq_self_iff.mpr fun hne => by simp [h _ (List.getLast_mem hne)]

/-- A hash that is read back. -/
theorem trim_hash {s : Str} (h : ∀ c ∈ s, Re.isSpace c = false) : trim (rstrip (s ++ ['\n'])) = s := by
  have hs := trim_of_not_space h
  rw [← hs, rstrip_line, hs]
  exact hs

theorem leads_keystoreStale (hk : Kept decodes v sha256 w₀ w) (htls : v.tls = true) (hp : keyrpwd = w.keyrpwd)
    (hnew : isNew = true → ¬ Steady v sha256 w₀) :
    Leads flaky (Site flaky decodes n) (Kept decodes v sha256 w₀) (keystoreStale sha256 keyrpwd isNew)
      (fun stale w' => w' = w ∧ (stale = true → ¬ Steady v sha256 w₀) ∧
        (stale = false → (w.files (encFile keystore)).isSome ∧
          ∃ h, w.files shaFile = some h ∧ trim (rstrip h) = sha256 keyrpwd)) w := by
  have hsteady : Steady v sha256 w₀ → (w.files (encFile keystore)).isSome ∧
      ∃ h, w.files shaFile = some h ∧ trim (rstrip h) = sha256 keyrpwd := by
    intro hst
    rw [hk.steady hst, hp, hk.keyrpwd]
    exact ⟨hst.names keystore (mem_names_of_tls htls), hst.hash htls⟩
  unfold keystoreStale
  rw [Leads, wp_bind]
  refine leads_loop (K := fun w' => w' = w) (R := fun file b _ => b = (w.files file).isSome) (fun _ _ _ _ _ h => h) rfl
    (fun file _ w' hw => ?_) fun exist w' hw hexist => ?_
  · subst hw
    exact leads_stat hk ⟨rfl, fun _ h => h, fun b hb => (Option.some.inj hb).symm, fun h => absurd h (by simp)⟩
      fun hf => ⟨rfl, fun _ h => h, fun _ h => absurd h (by simp), fun _ => hf⟩
  subst hw
  split
  · rename_i hmissing
    refine ⟨rfl, fun _ hst => ?_, fun h => absurd h (by simp)⟩
    obtain ⟨hstring, hash, hsha, -⟩ := hsteady hst
    obtain rfl : exist = [true, true] := by
      rcases hexist with - | ⟨h₁, - | ⟨h₂, - | -⟩⟩
      rw [h₁, h₂, hstring, hsha]
      rfl
    cases isNew with
    | false => simp at hmissing
    | true => exact hnew rfl hst
  · rename_i hpresent
    have hboth : (w'.files (encFile keystore)).isSome = true ∧ (w'.files shaFile).isSome = true := by
      rcases hexist with - | ⟨h₁, - | ⟨h₂, - | -⟩⟩
      rw [← h₁, ← h₂]
      constructor <;> by_contra hno <;> exact hpresent (by simp [hno])
    obtain ⟨hstring, hsome⟩ := hboth
    rw [wp_bind]
    refine leads_register (leads_lookup hk
      (fun content hcontent => ⟨fun recorded hr => ?_, fun h => absurd h (by simp)⟩)
      fun hf => ⟨fun _ h => absurd h (by simp), fun _ => hf.resolve_left fun hno => ?_⟩)
    · obtain rfl := Option.some.inj hr
      refine ⟨rfl, fun hne hst => ?_, fun heq => ⟨hstring, content, hcontent, by simpa using heq⟩⟩
      obtain ⟨-, h, hsha, hhash⟩ := hsteady hst
      obtain rfl := Option.some.inj (hcontent.symm.trans hsha)
      simp [hhash] at hne
    · rw [hno] at hsome
      exact absurd hsome (by simp)

theorem leads_keystorePassword (hfree : ∀ u ∈ v.users, u.name ≠ keystore)
    (hhex : ∀ p, ∀ c ∈ sha256 p, Re.isSpace c = false) (hk : Kept decodes v sha256 w₀ w)
    (hkey : w.files keyFile = some key) (hat : w.keyAt n = some key) (htls : v.tls = true) (hp : keyrpwd = w.keyrpwd)
    (hnew : isNew = true → ¬ Steady v sha256 w₀) :
    Leads flaky (Site flaky decodes n) (Kept decodes v sha256 w₀) (keystorePassword sha256 keyrpwd isNew)
      (fun _ w' => (Kept decodes v sha256 w₀ w' ∧ w'.files keyFile = some key ∧ w'.keyAt n = some key) ∧
        Grows w w' ∧ (w'.files (encFile keystore)).isSome ∧
        ∃ h, w'.files shaFile = some h ∧ trim (rstrip h) = sha256 w'.keyrpwd) w := by
  unfold keystorePassword
  refine wp_then (leads_keystoreStale hk htls hp hnew) fun stale w' hjudged => ?_
  obtain ⟨hw, hyes, hno⟩ := hjudged
  subst hw hp
  refine leads_onlyWhen (fun hstale => ?_) fun hfresh =>
    ⟨⟨hk, hkey, hat⟩, fun _ h => h, hno (by simpa using hfresh)⟩
  have hns := hyes hstale
  rw [Leads, wp_bind]
  refine leads_register (leads_encode hk hat (fun out hdec => ⟨fun encoded henc => ?_, fun h => absurd h (by simp)⟩)
    fun hf => ⟨fun _ h => absurd h (by simp), fun _ => hf⟩)
  obtain rfl := Option.some.inj henc
  have hdec' : decodes key (rstrip (trim out ++ ['\n'])) w'.keyrpwd := (rstrip_line out).symm ▸ hdec
  have hs₁ := hk.sound.writeKeystore (s := trim out ++ ['\n']) hfree hkey hdec'
  have hk₁ := hk.write hns hs₁
  generalize hw₁ : w'.write (encFile keystore) (trim out ++ ['\n']) = w₁ at hs₁ hk₁
  have hkey₁ : w₁.files keyFile = some key := by
    rw [← hw₁, write_of_ne _ _ (encFile_ne_keyFile keystore).symm]
    exact hkey
  have hat₁ : w₁.keyAt n = some key := hw₁ ▸ hat
  have hstring : w₁.files (encFile keystore) = some (trim out ++ ['\n']) := hw₁ ▸ write_self _ _ _
  have hpw : w₁.keyrpwd = w'.keyrpwd := hw₁ ▸ rfl
  rw [wp_bind]
  refine leads_register ?_
  unfold each
  -- the string first: where that copy fails the play goes no further
  have hfirst : Leads flaky (Site flaky decodes n) (Kept decodes v sha256 w₀)
      ((fun ok => if ok then some () else none) <$> persist (encFile keystore) (trim out ++ ['\n']))
      (fun r w => r = some () ∧ w = w₁) w' :=
    leads_persist hk (hw₁ ▸ hk₁) ⟨rfl, hw₁⟩ fun _ h => absurd rfl h
  refine wp_then hfirst fun r w hstored => ?_
  obtain ⟨hr, hw⟩ := hstored
  subst hw hr
  unfold each
  have hs₂ := hs₁.writeSha (s := sha256 w'.keyrpwd ++ ['\n']) hkey₁ hstring (hpw.symm ▸ hdec')
  have hk₂ := hk₁.write hns hs₂
  have hpost : (Kept decodes v sha256 w₀ (w.write shaFile (sha256 w'.keyrpwd ++ ['\n'])) ∧
      (w.write shaFile (sha256 w'.keyrpwd ++ ['\n'])).files keyFile = some key ∧ w.keyAt n = some key) ∧
      Grows w' (w.write shaFile (sha256 w'.keyrpwd ++ ['\n'])) ∧
      ((w.write shaFile (sha256 w'.keyrpwd ++ ['\n'])).files (encFile keystore)).isSome ∧
      ∃ h, (w.write shaFile (sha256 w'.keyrpwd ++ ['\n'])).files shaFile = some h ∧
        trim (rstrip h) = sha256 w.keyrpwd := by
    refine ⟨⟨hk₂, ?_, hat₁⟩, fun file hfile => ?_, ?_, _, write_self _ _ _, ?_⟩
    · rw [write_of_ne _ _ (by decide)]
      exact hkey₁
    · exact grows_write _ _ _ file (hw₁ ▸ grows_write _ _ _ file hfile)
    · rw [write_of_ne _ _ (encFile_ne_shaFile keystore), hstring]
      rfl
    · rw [trim_hash (hhex _), hpw]
  have hsecond : Leads flaky (Site flaky decodes n) (Kept decodes v sha256 w₀)
      ((fun ok => if ok then some () else none) <$> persist shaFile (sha256 w'.keyrpwd ++ ['\n']))
      (fun r w'' => (r = some () → w'' = w.write shaFile (sha256 w'.keyrpwd ++ ['\n'])) ∧ (r = none → flaky)) w :=
    leads_persist hk₁ hk₂ ⟨fun _ => rfl, fun h => absurd h (by simp)⟩
      fun hf _ => ⟨fun h => absurd h (by simp), fun _ => hf⟩
  rw [wp_bind]
  refine wp_then hsecond fun r₂ w₂ hhashed => ?_
  obtain ⟨hw₂, hno₂⟩ := hhashed
  unfold each
  cases r₂ with
  | none => exact ⟨fun _ h => absurd h (by simp), fun _ => hno₂ rfl⟩
  | some u =>
    obtain rfl := hw₂ rfl
    exact ⟨fun _ _ => hpost, fun h => absurd h (by simp)⟩

theorem zip_eq_map {α β : Type} {f : α → β} {as : List α} {bs : List β} (h : List.Forall₂ (fun a b => b = f a) as bs) :
    as.zip bs = as.map fun a => (a, f a) := by
  induction h with
  | nil => rfl
  | cons h _ ih => rw [List.zip_cons_cons, ih, h, List.map_cons]

theorem leads_encodedPasswords (hk : Kept decodes v sha256 w₀ w)
    (hnames : ∀ name ∈ v.names, (w.files (encFile name)).isSome) :
    Leads flaky (Site flaky decodes n) (Kept decodes v sha256 w₀) (encodedPasswords v)
      (fun passwords w' => w' = w ∧ passwords = stored v w) w := by
  unfold encodedPasswords
  rw [Leads, wp_bind]
  refine leads_loop (K := fun w' => w' = w) (R := fun name s _ => s = rstrip ((w.files (encFile name)).getD []))
    (fun _ _ _ _ _ h => h) rfl (fun name hname w' hw => ?_) fun strings w' hw hstrings => ?_
  · subst hw
    refine leads_lookup hk (fun content hcontent => ⟨rfl, fun _ h => h, fun s hs => ?_, fun h => absurd h (by simp)⟩)
      fun hf => ⟨rfl, fun _ h => h, fun _ h => absurd h (by simp), fun _ => hf.resolve_left fun hno => ?_⟩
    · obtain rfl := Option.some.inj hs
      simp [hcontent]
    · have hsome := hnames name hname
      rw [hno] at hsome
      exact absurd hsome (by simp)
  · exact ⟨hw, by rw [stored, zip_eq_map hstrings]⟩

end

/-- There is a string for every name. -/
theorem get?_stored {name : Str} (h : name ∈ v.names) :
    (stored v w).get? name = some (rstrip ((w.files (encFile name)).getD [])) := by
  have hkeys : name ∈ (stored v w).keys := by
    rw [stored, Dict.mem_keys_ofList]
    simpa using h
  obtain ⟨s, hs⟩ := Option.isSome_iff_exists.mp (Dict.get?_isSome.mpr hkeys)
  obtain ⟨before, after, heq, -⟩ := (Dict.get?_ofList_eq_some _).mp hs
  have hmem : (name, s) ∈ v.names.map fun name => (name, rstrip ((w.files (encFile name)).getD [])) :=
    heq ▸ List.mem_append_right before List.mem_cons_self
  obtain ⟨name', -, hpair⟩ := List.mem_map.mp hmem
  obtain ⟨rfl, rfl⟩ := Prod.mk.inj hpair
  exact hs

theorem exists_mapM {α β : Type} {f : α → Option β} : ∀ {as : List α}, (∀ a ∈ as, ∃ b, f a = some b) →
    ∃ bs, as.mapM f = some bs
  | [], _ => ⟨[], rfl⟩
  | a :: as, h => by
    obtain ⟨b, hb⟩ := h a List.mem_cons_self
    obtain ⟨bs, hbs⟩ := exists_mapM fun x hx => h x (List.mem_cons_of_mem a hx)
    exact ⟨b :: bs, by simp [List.mapM_cons, hb, hbs]⟩

/-- So there is a file. -/
theorem exists_xml (v : Vars) (w : World) : ∃ text, mqwebuserXml v (stored v w) = some text := by
  obtain ⟨users, husers⟩ : ∃ users, userLines v (stored v w) = some users := by
    refine exists_mapM fun u hu => ?_
    rw [get?_stored (List.mem_append_left _ (List.mem_map_of_mem hu))]
    exact ⟨_, rfl⟩
  obtain ⟨ssl, hssl⟩ : ∃ ssl, sslLines v (stored v w) = some ssl := by
    unfold sslLines
    split
    · rw [get?_stored (mem_names_of_tls ‹_›)]
      exact ⟨_, rfl⟩
    · exact ⟨_, rfl⟩
  rw [mqwebuserXml, husers, hssl]
  exact ⟨_, rfl⟩

/-! ### A batch -/

section
variable {key keyrpwd text : Str}

theorem stored_congr (h : w'.files = w.files) : stored v w' = stored v w := by
  rw [stored, stored, h]

theorem leads_encodeTasks (hvars : (v.stateDir ≠ [] ∧ v.passphrase ≠ []) ∨ flaky)
    (hfree : ∀ u ∈ v.users, u.name ≠ keystore)
    (hhex : ∀ p, ∀ c ∈ sha256 p, Re.isSpace c = false) (hk : Kept decodes v sha256 w₀ w)
    (hp : v.tls = true → keyrpwd = w₀.keyrpwd) :
    Leads flaky (Site flaky decodes n) (Kept decodes v sha256 w₀) (encode v sha256 keyrpwd)
      (fun passwords w' => Kept decodes v sha256 w₀ w' ∧ Steady v sha256 w' ∧ passwords = stored v w' ∧
        ∃ key, w'.files keyFile = some key ∧ w'.keyAt n = some key) w := by
  unfold encode
  rw [Leads, wp_bind]
  refine leads_require (fun _ => ?_) hvars
  refine wp_then (P := fun _ w' => w' = w) (leads_task fun ok w' hs => ?_) fun _ w' hw => ?_
  · cases hs with
    | ensureStateDir hok => exact ⟨hk, fun _ => rfl, hok⟩
  subst hw
  rw [wp_bind]
  refine leads_register (leads_stat hk ⟨fun present hpresent => ?_, fun h => absurd h (by simp)⟩
    fun hf => ⟨fun _ h => absurd h (by simp), fun _ => hf⟩)
  obtain rfl := Option.some.inj hpresent
  have hnew : (!(w'.files keyFile).isSome) = true → ¬ Steady v sha256 w₀ := by
    intro hno hst
    rw [hk.steady hst, hst.key] at hno
    exact absurd hno (by simp)
  refine wp_then (P := fun _ w'' => Kept decodes v sha256 w₀ w'' ∧ ∃ key, w''.files keyFile = some key)
    (leads_onlyWhen (fun hno => ?_) fun hold => ?_) fun _ w₁ hkeyed => ?_
  · exact leads_newKey hk (by simpa using hno) (hnew hno)
  · exact ⟨hk, Option.ne_none_iff_exists'.mp (by simpa using hold)⟩
  obtain ⟨hk₁, key, hkey₁⟩ := hkeyed
  refine wp_then (leads_placeKey hk₁ hkey₁) fun _ w₂ hplaced => ?_
  obtain ⟨hk₂, hkey₂, hat₂⟩ := hplaced
  refine wp_then (leads_userPasswords hfree hk₂ hkey₂ hat₂ hnew) fun _ w₃ hwritten => ?_
  obtain ⟨⟨hk₃, hkey₃, hat₃⟩, husers⟩ := hwritten
  have husers' : ∀ name ∈ v.users.map User.name, (w₃.files (encFile name)).isSome := by
    intro name hname
    obtain ⟨u, hu, rfl⟩ := List.mem_map.mp hname
    exact husers u hu
  refine wp_then (P := fun _ w' => (Kept decodes v sha256 w₀ w' ∧ w'.files keyFile = some key ∧
    w'.keyAt n = some key) ∧ (∀ name ∈ v.names, (w'.files (encFile name)).isSome) ∧
    (v.tls = true → ∃ h, w'.files shaFile = some h ∧ trim (rstrip h) = sha256 w'.keyrpwd))
    (leads_onlyWhen (fun htls => ?_) fun hno => ?_) fun _ w₄ hall => ?_
  · refine wp_post
      (leads_keystorePassword hfree hhex hk₃ hkey₃ hat₃ htls ((hp htls).trans hk₃.keyrpwd.symm) hnew) ?_
    rintro - w' ⟨hpost, hgrows, hstring, hhash⟩
    refine ⟨hpost, fun name hname => ?_, fun _ => hhash⟩
    rw [Vars.names, if_pos htls] at hname
    rcases List.mem_append.mp hname with hname | hname
    · exact hgrows _ (husers' name hname)
    · rw [List.mem_singleton.mp hname]
      exact hstring
  · refine ⟨⟨hk₃, hkey₃, hat₃⟩, fun name hname => ?_, fun htls => absurd htls hno⟩
    rw [Vars.names, if_neg hno, List.append_nil] at hname
    exact husers' name hname
  obtain ⟨⟨hk₄, hkey₄, hat₄⟩, hnames, hhash⟩ := hall
  refine wp_post (leads_encodedPasswords hk₄ hnames) fun passwords w' hpost => ?_
  obtain ⟨rfl, rfl⟩ := hpost
  exact ⟨hk₄, ⟨hkey₄ ▸ rfl, hnames, hhash⟩, rfl, key, hkey₄, hat₄⟩

/-- What a batch that gets through leaves. -/
structure Through (decodes : (key text password : Str) → Prop) (v : Vars) (sha256 : Str → Str) (n : Str)
    (w₀ w : World) : Prop extends Settled v sha256 n w where
  kept : Kept decodes v sha256 w₀ w
  sameKey : ∃ key, w.files keyFile = some key ∧ w.keyAt n = some key

/-- A server that has its file gets the same. -/
theorem Kept.rendered (h : Kept decodes v sha256 w₀ w) (htext : mqwebuserXml v (stored v w) = some text)
    (hn : Settled v sha256 n w₀) : w.xmlAt n = some text := by
  obtain ⟨text', htext', hxml⟩ := hn.xml
  rw [stored_congr (h.steady hn.toSteady), htext'] at htext
  rw [(h.settled n hn).1, hxml, Option.some.inj htext]

theorem Kept.putXml (h : Kept decodes v sha256 w₀ w) (htext : mqwebuserXml v (stored v w) = some text) :
    Kept decodes v sha256 w₀ (w.putXml n text) where
  sound := h.sound.congr rfl rfl
  keyrpwd := h.keyrpwd
  steady := h.steady
  settled m hm := by
    refine ⟨?_, (h.settled m hm).2⟩
    by_cases heq : m = n
    · subst heq
      rw [← (h.settled m hm).1, h.rendered htext hm]
      simp [World.putXml]
    · rw [← (h.settled m hm).1]
      simp [World.putXml, heq]

theorem Kept.restarted (h : Kept decodes v sha256 w₀ w) (hn : ¬ Settled v sha256 n w₀) :
    Kept decodes v sha256 w₀ (w.restarted n) where
  sound := h.sound.congr rfl rfl
  keyrpwd := h.keyrpwd
  steady := h.steady
  settled m hm := by
    have hne : m ≠ n := fun heq => hn (heq ▸ hm)
    refine ⟨(h.settled m hm).1, ?_⟩
    rw [← (h.settled m hm).2]
    simp [World.restarted, hne]

theorem Through.restarted (h : Through decodes v sha256 n w₀ w) (hn : ¬ Settled v sha256 n w₀) :
    Through decodes v sha256 n w₀ (w.restarted n) where
  key := h.key
  names := h.names
  hash := h.hash
  xml := h.xml
  kept := h.kept.restarted hn
  sameKey := h.sameKey

theorem leads_restart (hn : ¬ Settled v sha256 n w₀) : ∀ {attempts : ℕ} {w : World}, attempts ≠ 0 ∨ flaky →
    Through decodes v sha256 n w₀ w → Leads flaky (Site flaky decodes n) (Kept decodes v sha256 w₀)
      (restartTask attempts) (fun _ w' => Through decodes v sha256 n w₀ w') w
  | 0, _, hf, _ => hf.resolve_left fun h => h rfl
  | attempts + 1, w, _, h => by
    unfold restartTask
    intro r w' hs
    cases hs with
    | restart hr =>
      have h' := h.restarted hn
      refine ⟨h'.kept, ?_⟩
      rcases r with - | - | -
      · exact h'
      · exact hr.resolve_left (by simp)
      · exact leads_restart hn (.inr (hr.resolve_left (by simp))) h'

/-- **A batch** keeps what is encoded, and gets through where things are not flaky. -/
theorem leads_batch (hvars : (v.stateDir ≠ [] ∧ v.passphrase ≠ []) ∨ flaky) (hfree : ∀ u ∈ v.users, u.name ≠ keystore)
    (hhex : ∀ p, ∀ c ∈ sha256 p, Re.isSpace c = false) (hs : Sound decodes v sha256 w₀) :
    Leads flaky (Site flaky decodes n) (Kept decodes v sha256 w₀) (batch v sha256)
      (fun _ w' => Through decodes v sha256 n w₀ w') w₀ := by
  have hk := Kept.refl hs
  unfold batch
  refine wp_then (P := fun _ w' => w' = w₀) (leads_task fun ok w' hs => ?_) fun _ w' hw => ?_
  · cases hs with
    | unit hok => exact ⟨hk, fun _ => rfl, hok⟩
  subst hw
  refine wp_then (P := fun keyrpwd w'' => w'' = w' ∧ (v.tls = true → keyrpwd = w'.keyrpwd)) ?_
    fun keyrpwd w'' hpost => ?_
  · unfold placedKeystore
    split
    · refine leads_register fun r w'' hs => ?_
      cases hs with
      | distribute =>
        exact ⟨hk, fun p hp => ⟨rfl, fun _ => (Option.some.inj hp).symm⟩, fun h => absurd h (by simp)⟩
      | noKeystore hf => exact ⟨hk, fun _ h => absurd h (by simp), fun _ => hf⟩
    · rename_i hno
      exact ⟨rfl, fun htls => absurd htls hno⟩
  obtain ⟨rfl, hp⟩ := hpost
  refine wp_then (leads_encodeTasks hvars hfree hhex hk hp) fun passwords w₁ hencoded => ?_
  obtain ⟨hk₁, hst₁, hpasswords, hkey₁⟩ := hencoded
  obtain ⟨text, htext⟩ := exists_xml v w₁
  rw [wp_bind]
  refine leads_register ⟨fun text' htext' => ?_, fun hno => ?_⟩
  swap
  · rw [hpasswords, htext] at hno
    exact absurd hno (by simp)
  obtain rfl : text = text' := by
    rw [hpasswords, htext] at htext'
    exact Option.some.inj htext'
  refine wp_then
    (P := fun changed w' => (changed = true → ¬ Settled v sha256 n w'') ∧ Through decodes v sha256 n w'' w')
    (leads_register fun r w' hs => ?_) fun changed w₂ hrendered => ?_
  · cases hs with
    | render =>
      have hk₂ := hk₁.putXml (n := n) htext
      refine ⟨hk₂, fun changed hr => ⟨fun hc hn => ?_, ?_⟩, fun h => absurd h (by simp)⟩
      · obtain rfl := Option.some.inj hr
        exact absurd (hk₁.rendered htext hn) (by simpa using hc)
      · exact { toSteady := ⟨hst₁.key, hst₁.names, hst₁.hash⟩, kept := hk₂, sameKey := hkey₁,
                xml := ⟨text, htext, by simp [World.putXml]⟩ }
    | noRender hf => exact ⟨hk₁, fun _ h => absurd h (by simp), fun _ => hf⟩
  obtain ⟨hchanged, ht₂⟩ := hrendered
  refine wp_then (P := fun _ w' => w' = w₂) (leads_task fun ok w' hs => ?_) fun _ w' hw => ?_
  · cases hs with
    | enable hok => exact ⟨ht₂.kept, fun _ => rfl, hok⟩
  subst hw
  refine wp_then (P := fun _ w'' => w'' = w') (fun up w'' hs => ?_) fun active w'' hw => ?_
  · cases hs with
    | isActive => exact ⟨ht₂.kept, rfl⟩
  subst hw
  refine wp_then (P := fun _ w' => w' = w'') (leads_task fun ok w' hs => ?_) fun _ w' hw => ?_
  · cases hs with
    | start hok => exact ⟨ht₂.kept, fun _ => rfl, hok⟩
  subst hw
  refine wp_then (leads_onlyWhen (fun hwhen => leads_restart (hchanged hwhen.2.1) (.inl (by decide)) ht₂) fun _ => ht₂)
    fun _ w₃ ht₃ => ?_
  refine wp_then (P := fun _ w' => w' = w₃) (fun ready w' hs => ?_) fun _ w' hw => ?_
  · cases hs with
    | waitReady => exact ⟨ht₃.kept, rfl⟩
  subst hw
  refine wp_then (P := fun _ w'' => w'' = w') (fun state w'' hs => ?_) fun _ w'' hw => ?_
  · cases hs with
    | unitState => exact ⟨ht₃.kept, rfl⟩
  subst hw
  exact ht₃

end

end Mqweb
end MqResiliency
