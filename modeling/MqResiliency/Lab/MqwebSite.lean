/-
# The controller and the nodes

The controller's state directory and the nodes (`World`), what the commands of a
batch on one node come to (`Site`), and what a batch keeps (`Kept`): all that is
encoded on the controller decodes under the key that is there (`Sound`), a
controller where nothing is left to encode (`Steady`) keeps its files, and a
server that has its file (`Settled`) is left alone. Every write keeps it: a
string is written under the key of the controller, the key where nothing is
encoded yet, the hash after its string.
-/
import MqResiliency.Lab.Mqweb

namespace MqResiliency
namespace Mqweb

open Py Prog

/-- The files of the controller's state directory, the key and the
`mqwebuser.xml` of each node, the password of the keystore, and how often each
server was restarted. -/
structure World : Type where
  files : Str → Option Str
  keyAt : Str → Option Str
  xmlAt : Str → Option Str
  keyrpwd : Str
  restarts : Str → ℕ

namespace World

def write (w : World) (file content : Str) : World := { w with files := Function.update w.files file (some content) }

def putKey (w : World) (n : Str) (key : Option Str) : World := { w with keyAt := Function.update w.keyAt n key }

def putXml (w : World) (n text : Str) : World := { w with xmlAt := Function.update w.xmlAt n (some text) }

def restarted (w : World) (n : Str) : World := { w with restarts := Function.update w.restarts n (w.restarts n + 1) }

end World

section
variable (flaky : Prop) (decodes : (key text password : Str) → Prop) (n : Str)

/-- What a command comes to in a batch on `n`; where things are not flaky only
what cannot be done fails. What is encoded decodes under the key of the node. A
copy that fails leaves what was there, and where it is the one of the
keystore's string the play goes no further. -/
inductive Site : Env World Cmd Ans where
  | unit {w : World} {ok : Bool} : ok = true ∨ flaky → Site w .unit ok w
  | distribute {w : World} : Site w .distribute (some w.keyrpwd) w
  | noKeystore {w : World} : flaky → Site w .distribute none w
  | ensureStateDir {w : World} {ok : Bool} : ok = true ∨ flaky → Site w .ensureStateDir ok w
  | stat {w : World} {file : Str} : Site w (.stat file) (some (w.files file).isSome) w
  | noStat {w : World} {file : Str} : flaky → Site w (.stat file) none w
  | dropKey {w : World} : Site w .dropKey true (w.putKey n none)
  | keepKey {w : World} : flaky → Site w .dropKey false w
  | generateKey {w : World} {passphrase key : Str} : w.keyAt n = none →
      Py.contains key "wlp.aes.encryption.key".toList ∨ flaky →
      Site w (.generateKey passphrase) true (w.putKey n (some key))
  | noNewKey {w : World} {passphrase : Str} {key : Option Str} : w.keyAt n ≠ none ∨ flaky →
      Site w (.generateKey passphrase) false (w.putKey n key)
  | slurpKey {w : World} {key : Str} : w.keyAt n = some key → Site w .slurpKey (some key) w
  | noSlurp {w : World} : w.keyAt n = none ∨ flaky → Site w .slurpKey none w
  | persist {w : World} {file content : Str} : Site w (.persist file content) true (w.write file content)
  | noPersist {w : World} {file content : Str} : flaky → file ≠ encFile keystore →
      Site w (.persist file content) false w
  | placeKey {w : World} {key : Str} : w.files keyFile = some key → Site w .placeKey true (w.putKey n (some key))
  | noPlace {w : World} : w.files keyFile = none ∨ flaky → Site w .placeKey false w
  | encode {w : World} {password key out : Str} : w.keyAt n = some key →
      (isEncoded (trim out) → decodes key (trim out) password) → isEncoded (trim out) ∨ flaky →
      Site w (.encode password) (some out) w
  | noEncode {w : World} {password : Str} : w.keyAt n = none ∨ flaky → Site w (.encode password) none w
  | lookup {w : World} {file content : Str} : w.files file = some content →
      Site w (.lookup file) (some (rstrip content)) w
  | noLookup {w : World} {file : Str} : w.files file = none ∨ flaky → Site w (.lookup file) none w
  | render {w : World} {text : Str} : Site w (.render text) (some (decide (w.xmlAt n ≠ some text))) (w.putXml n text)
  | noRender {w : World} {text : Str} : flaky → Site w (.render text) none w
  | enable {w : World} {ok : Bool} : ok = true ∨ flaky → Site w .enable ok w
  | isActive {w : World} {up : Bool} : Site w .isActive up w
  | start {w : World} {ok : Bool} : ok = true ∨ flaky → Site w .start ok w
  | restart {w : World} {r : Restarted} : r = .ok ∨ flaky → Site w .restart r (w.restarted n)
  | waitReady {w : World} {ok : Bool} : Site w .waitReady ok w
  | unitState {w : World} {s : Str} : Site w .unitState s w

end

/-! ### What is kept -/

section
variable (decodes : (key text password : Str) → Prop) (v : Vars) (sha256 : Str → Str)

/-- What is encoded decodes under the controller's key; the keystore's string to
its password, where its hash is the one on record. -/
structure Sound (w : World) : Prop where
  users : ∀ u ∈ v.users, ∀ s, w.files (encFile u.name) = some s →
    ∃ key, w.files keyFile = some key ∧ decodes key (rstrip s) u.name
  store : ∀ s, w.files (encFile keystore) = some s → ∃ key p, w.files keyFile = some key ∧
    decodes key (rstrip s) p ∧ ∀ h, w.files shaFile = some h → trim (rstrip h) = sha256 w.keyrpwd → p = w.keyrpwd

/-- Nothing is left to encode. -/
structure Steady (w : World) : Prop where
  key : (w.files keyFile).isSome
  names : ∀ name ∈ v.names, (w.files (encFile name)).isSome
  hash : v.tls → ∃ h, w.files shaFile = some h ∧ trim (rstrip h) = sha256 w.keyrpwd

/-- The strings of the controller. -/
def stored (w : World) : Dict Str Str :=
  .ofList (v.names.map fun name => (name, rstrip ((w.files (encFile name)).getD [])))

/-- The server of `m` has its file. -/
structure Settled (m : Str) (w : World) : Prop extends Steady v sha256 w where
  xml : ∃ text, mqwebuserXml v (stored v w) = some text ∧ w.xmlAt m = some text

/-- What a batch keeps at every command, from `w₀` on: what is encoded decodes, a
steady controller keeps its files, and a server that has its file is left alone. -/
structure Kept (w₀ w : World) : Prop where
  sound : Sound decodes v sha256 w
  keyrpwd : w.keyrpwd = w₀.keyrpwd
  steady : Steady v sha256 w₀ → w.files = w₀.files
  settled : ∀ m, Settled v sha256 m w₀ → w.xmlAt m = w₀.xmlAt m ∧ w.restarts m = w₀.restarts m

end

variable {flaky : Prop} {decodes : (key text password : Str) → Prop} {v : Vars} {sha256 : Str → Str} {n : Str}
  {w w' w₀ : World}

theorem getLast?_encFile (name : Str) : (encFile name).getLast? = some 'c' := by
  rw [encFile, List.getLast?_append]
  rfl

theorem encFile_ne_keyFile (name : Str) : encFile name ≠ keyFile := fun h => by
  have hlast := getLast?_encFile name
  rw [h] at hlast
  exact absurd hlast (by decide)

theorem encFile_ne_shaFile (name : Str) : encFile name ≠ shaFile := fun h => by
  have hlast := getLast?_encFile name
  rw [h] at hlast
  exact absurd hlast (by decide)

theorem encFile_inj {a b : Str} : encFile a = encFile b ↔ a = b := List.append_left_inj _

/-- Only the files and the password count. -/
theorem Sound.congr (h : Sound decodes v sha256 w) (hf : w'.files = w.files) (hp : w'.keyrpwd = w.keyrpwd) :
    Sound decodes v sha256 w' := by
  constructor
  · rw [hf]
    exact h.users
  · rw [hf, hp]
    exact h.store

/-- A command that leaves the controller and the servers alone. -/
theorem Kept.congr (h : Kept decodes v sha256 w₀ w) (hf : w'.files = w.files) (hp : w'.keyrpwd = w.keyrpwd)
    (hx : w'.xmlAt = w.xmlAt) (hr : w'.restarts = w.restarts) : Kept decodes v sha256 w₀ w' where
  sound := h.sound.congr hf hp
  keyrpwd := hp.trans h.keyrpwd
  steady hs := hf.trans (h.steady hs)
  settled m hm := hx ▸ hr ▸ h.settled m hm

theorem Kept.refl (h : Sound decodes v sha256 w) : Kept decodes v sha256 w w :=
  ⟨h, rfl, fun _ => rfl, fun _ _ => ⟨rfl, rfl⟩⟩

/-! ### Rules for tasks -/

section
variable {I : World → Prop} {α β : Type} {env : Env World Cmd Ans}

/-- The play comes to `Q`, and fails where things are flaky only. -/
abbrev Leads (flaky : Prop) (env : Env World Cmd Ans) (I : World → Prop) (p : Play α) (Q : α → World → Prop)
    (w : World) : Prop := p.wp env I Q (fun _ _ => flaky) w

theorem leads_task {name : String} {command : Play Bool} {Q : Unit → World → Prop}
    (h : Leads flaky env I command (fun ok w' => (ok = true → Q () w') ∧ (ok = true ∨ flaky)) w) :
    Leads flaky env I (task name command) Q w := by
  refine (wp_must _ _ _ _ _).mpr (wp_post h fun ok w' hok => ?_)
  split
  · exact hok.1 ‹_›
  · exact hok.2.resolve_left ‹_›

theorem leads_register {name : String} {command : Play (Option α)} {Q : α → World → Prop}
    (h : Leads flaky env I command (fun r w' => (∀ a, r = some a → Q a w') ∧ (r = none → flaky)) w) :
    Leads flaky env I (register name command) Q w := by
  unfold register
  rw [Leads, wp_bind]
  refine wp_post h fun r w' hr => ?_
  cases r with
  | none => exact hr.2 rfl
  | some a => exact hr.1 a rfl

theorem leads_require {name : String} {p : Prop} [Decidable p] {Q : Unit → World → Prop} (h : p → Q () w)
    (hp : p ∨ flaky) : Leads flaky env I (require name p) Q w := by
  unfold require
  split
  · exact h ‹_›
  · exact hp.resolve_left ‹_›

theorem leads_onlyWhen {p : Prop} [Decidable p] {t : Play Unit} {Q : Unit → World → Prop}
    (hyes : p → Leads flaky env I t Q w) (hno : ¬ p → Q () w) : Leads flaky env I (onlyWhen p t) Q w := by
  unfold onlyWhen
  split
  · exact hyes ‹_›
  · exact hno ‹_›

/-- No file goes. -/
def Grows (w w' : World) : Prop := ∀ file, (w.files file).isSome → (w'.files file).isSome

/-- The items keep `K`, and what one of them did stays so. -/
theorem leads_each {K : World → Prop} {R : α → β → World → Prop} {item : α → Play (Option β)}
    (hR : ∀ a b w w', Grows w w' → R a b w → R a b w') : ∀ {items : List α} {w : World}, K w →
    (∀ a ∈ items, ∀ w, K w → Leads flaky env I (item a)
      (fun r w' => K w' ∧ Grows w w' ∧ (∀ b, r = some b → R a b w') ∧ (r = none → flaky)) w) →
    Leads flaky env I (each item items) (fun rs w' => K w' ∧ Grows w w' ∧
      (∀ bs, rs = some bs → List.Forall₂ (fun a b => R a b w') items bs) ∧ (rs = none → flaky)) w
  | [], w, hk, _ => ⟨hk, fun _ h => h, fun bs hbs => Option.some.inj hbs ▸ .nil, fun h => absurd h (by simp)⟩
  | a :: as, w, hk, hitem => by
    unfold each
    refine wp_then (hitem a List.mem_cons_self w hk) fun r w₁ hpost => ?_
    obtain ⟨hk₁, hg₁, hr, hno⟩ := hpost
    refine wp_then (leads_each hR hk₁ fun x hx => hitem x (List.mem_cons_of_mem a hx)) fun rs w₂ hposts => ?_
    obtain ⟨hk₂, hg₂, hrs, hnos⟩ := hposts
    refine ⟨hk₂, fun file hfile => hg₂ file (hg₁ file hfile), fun bs hbs => ?_, fun hnone => ?_⟩
    · obtain ⟨b, rfl, hbs⟩ := Option.bind_eq_some_iff.mp hbs
      obtain ⟨bs', rfl, rfl⟩ := Option.map_eq_some_iff.mp hbs
      exact .cons (hR _ _ _ _ hg₂ (hr b rfl)) (hrs bs' rfl)
    · cases r with
      | none => exact hno rfl
      | some b => exact hnos (by simpa using hnone)

theorem leads_loop {K : World → Prop} {R : α → β → World → Prop} {item : α → Play (Option β)} {items : List α}
    {name : String} {Q : List β → World → Prop} (hR : ∀ a b w w', Grows w w' → R a b w → R a b w') (hk : K w)
    (hitem : ∀ a ∈ items, ∀ w, K w → Leads flaky env I (item a)
      (fun r w' => K w' ∧ Grows w w' ∧ (∀ b, r = some b → R a b w') ∧ (r = none → flaky)) w)
    (hQ : ∀ bs w', K w' → List.Forall₂ (fun a b => R a b w') items bs → Q bs w') :
    Leads flaky env I (loop name items item) Q w :=
  leads_register (wp_mono
    (fun _ w' hpost => ⟨fun bs hbs => hQ bs w' hpost.1 (hpost.2.2.1 bs hbs), hpost.2.2.2⟩) (fun _ _ h => h) _ _
    (leads_each hR hk hitem))

end

/-! ### What is written -/

theorem write_self (w : World) (file content : Str) : (w.write file content).files file = some content := by
  simp [World.write]

theorem write_of_ne (w : World) {file file' : Str} (content : Str) (h : file' ≠ file) :
    (w.write file content).files file' = w.files file' := by
  simp [World.write, h]

theorem grows_write (w : World) (file content : Str) : Grows w (w.write file content) := by
  intro file' hfile
  by_cases heq : file' = file
  · rw [heq, write_self]
    rfl
  · rwa [write_of_ne w content heq]

/-- A trimmed text is read back. -/
theorem rstrip_line (s : Str) : rstrip (trim s ++ ['\n']) = trim s := by
  rw [rstrip, List.rdropWhile_concat_pos _ _ _ (by decide), trim, List.rdropWhile_idempotent]

section
variable {key name s : Str}

theorem Sound.writeUser (h : Sound decodes v sha256 w) (hkey : w.files keyFile = some key) (hname : name ≠ keystore)
    (hdec : decodes key (rstrip s) name) : Sound decodes v sha256 (w.write (encFile name) s) where
  users u hu t ht := by
    rw [write_of_ne w s (encFile_ne_keyFile name).symm]
    by_cases heq : u.name = name
    · rw [heq, write_self] at ht
      exact ⟨key, hkey, Option.some.inj ht ▸ heq ▸ hdec⟩
    · rw [write_of_ne w s fun h => heq (encFile_inj.mp h)] at ht
      exact h.users u hu t ht
  store t ht := by
    rw [write_of_ne w s fun h => hname (encFile_inj.mp h).symm] at ht
    rw [write_of_ne w s (encFile_ne_keyFile name).symm, write_of_ne w s (encFile_ne_shaFile name).symm]
    exact h.store t ht

theorem Sound.writeKeystore (h : Sound decodes v sha256 w) (hfree : ∀ u ∈ v.users, u.name ≠ keystore)
    (hkey : w.files keyFile = some key) (hdec : decodes key (rstrip s) w.keyrpwd) :
    Sound decodes v sha256 (w.write (encFile keystore) s) where
  users u hu t ht := by
    rw [write_of_ne w s fun h => hfree u hu (encFile_inj.mp h)] at ht
    rw [write_of_ne w s (encFile_ne_keyFile keystore).symm]
    exact h.users u hu t ht
  store t ht := by
    rw [write_self] at ht
    rw [write_of_ne w s (encFile_ne_keyFile keystore).symm]
    exact ⟨key, w.keyrpwd, hkey, Option.some.inj ht ▸ hdec, fun _ _ _ => rfl⟩

/-- The hash comes after what it is the hash of. -/
theorem Sound.writeSha {t : Str} (h : Sound decodes v sha256 w) (hkey : w.files keyFile = some key)
    (hstring : w.files (encFile keystore) = some t) (hdec : decodes key (rstrip t) w.keyrpwd) :
    Sound decodes v sha256 (w.write shaFile s) where
  users u hu t ht := by
    rw [write_of_ne w s (encFile_ne_shaFile u.name)] at ht
    rw [write_of_ne w s (by decide)]
    exact h.users u hu t ht
  store t' ht := by
    rw [write_of_ne w s (encFile_ne_shaFile keystore), hstring] at ht
    rw [write_of_ne w s (by decide)]
    exact ⟨key, w.keyrpwd, hkey, Option.some.inj ht ▸ hdec, fun _ _ _ => rfl⟩

/-- Without a key nothing is encoded. -/
theorem Sound.writeKey (h : Sound decodes v sha256 w) (hno : w.files keyFile = none) :
    Sound decodes v sha256 (w.write keyFile s) where
  users u hu t ht := by
    rw [write_of_ne w s (encFile_ne_keyFile u.name)] at ht
    obtain ⟨key, hkey, -⟩ := h.users u hu t ht
    exact absurd (hno.symm.trans hkey) (by simp)
  store t ht := by
    rw [write_of_ne w s (encFile_ne_keyFile keystore)] at ht
    obtain ⟨key, -, hkey, -⟩ := h.store t ht
    exact absurd (hno.symm.trans hkey) (by simp)

/-- A file is written only on a controller that is not steady. -/
theorem Kept.write {file : Str} (h : Kept decodes v sha256 w₀ w) (hnew : ¬ Steady v sha256 w₀)
    (hs : Sound decodes v sha256 (w.write file s)) : Kept decodes v sha256 w₀ (w.write file s) where
  sound := hs
  keyrpwd := h.keyrpwd
  steady hst := absurd hst hnew
  settled _ hm := absurd hm.toSteady hnew

theorem Kept.putKey (h : Kept decodes v sha256 w₀ w) (key : Option Str) : Kept decodes v sha256 w₀ (w.putKey n key) :=
  h.congr rfl rfl rfl rfl

end

end Mqweb
end MqResiliency
