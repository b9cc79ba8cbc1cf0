/-
# Encoded once, and decoded everywhere

The worlds that batches lead to, each cut off anywhere, with nodes that are built
anew, keystores that are issued again and a state directory that is wiped
(`Moves`). A batch that gets through hands its server strings that the server's
own key decodes to the passwords (`strings_decode`); from then on no batch
changes a string, renders the file anew or restarts the server
(`batch_settles`); and no cut keeps the next batch from getting through
(`batch_gets_through`).
-/
import MqResiliency.Lab.MqwebTasks
import MqResiliency.Lib.Trace

namespace MqResiliency
namespace Mqweb

open Py Prog

variable {flaky : Prop} {decodes : (key text password : Str) → Prop} {v : Vars} {sha256 : Str → Str} {n : Str}
  {w w' w₀ : World}

/-! ### Batches end -/

section
variable {α β : Type}

theorem ends_failed (name : String) : (failed name : Play α).Ends := trivial

theorem ends_task {name : String} {command : Play Bool} (h : command.Ends) : (task name command).Ends :=
  h.bind fun ok => by cases ok <;> exact trivial

theorem ends_register {name : String} {command : Play (Option α)} (h : command.Ends) : (register name command).Ends :=
  h.bind fun r => by cases r <;> exact trivial

theorem ends_require {name : String} {p : Prop} [Decidable p] : (require name p).Ends := by
  unfold require
  split <;> exact trivial

theorem ends_onlyWhen {p : Prop} [Decidable p] {t : Play Unit} (h : t.Ends) : (onlyWhen p t).Ends := by
  unfold onlyWhen
  split
  · exact h
  · exact trivial

theorem ends_each {item : α → Play (Option β)} (h : ∀ a, (item a).Ends) : ∀ items : List α, (each item items).Ends
  | [] => trivial
  | a :: as => (h a).bind fun _ => (ends_each h as).bind fun _ => trivial

theorem ends_loop {name : String} {item : α → Play (Option β)} (h : ∀ a, (item a).Ends) (items : List α) :
    (loop name items item).Ends := ends_register (ends_each h items)

theorem ends_newKey (v : Vars) : (newKey v).Ends :=
  (ends_task (ends_ask Cmd.dropKey)).bind fun _ => (ends_task (ends_ask (Cmd.generateKey v.passphrase))).bind fun _ =>
    (ends_register (ends_ask Cmd.slurpKey)).bind fun _ => ends_require.bind fun _ =>
      ends_task (ends_ask (Cmd.persist _ _))

theorem ends_securityEncode (password : Str) : (securityEncode password isEncoded).Ends :=
  (ends_ask (Cmd.encode password)).bind fun _ => ends_pure _

theorem ends_persist {β : Type} (g : Bool → β) (file content : Str) : (g <$> persist file content).Ends :=
  (ends_ask (Cmd.persist file content)).bind fun _ => ends_pure _

theorem ends_userPasswords (v : Vars) (isNew : Bool) : (userPasswords v isNew).Ends :=
  (ends_loop (fun _ => ends_ask (Cmd.stat _)) _).bind fun _ =>
    (ends_loop (fun _ => ends_securityEncode _) _).bind fun _ =>
      (ends_loop (fun _ => ends_persist _ _ _) _).bind fun _ => trivial

theorem ends_keystorePassword (sha256 : Str → Str) (keyrpwd : Str) (isNew : Bool) :
    (keystorePassword sha256 keyrpwd isNew).Ends := by
  have hstale : (keystoreStale sha256 keyrpwd isNew).Ends := by
    refine (ends_loop (fun _ => ends_ask (Cmd.stat _)) _).bind fun exist => ?_
    split
    · exact trivial
    · exact (ends_register (ends_ask (Cmd.lookup _))).bind fun _ => trivial
  exact hstale.bind fun _ => ends_onlyWhen <|
    (ends_register (ends_securityEncode _)).bind fun _ =>
      (ends_loop (fun _ => ends_persist _ _ _) _).bind fun _ => trivial

theorem ends_encode (v : Vars) (sha256 : Str → Str) (keyrpwd : Str) : (encode v sha256 keyrpwd).Ends :=
  ends_require.bind fun _ => (ends_task (ends_ask Cmd.ensureStateDir)).bind fun _ =>
    (ends_register (ends_ask (Cmd.stat _))).bind fun _ => (ends_onlyWhen (ends_newKey v)).bind fun _ =>
      (ends_task (ends_ask Cmd.placeKey)).bind fun _ => (ends_userPasswords v _).bind fun _ =>
        (ends_onlyWhen (ends_keystorePassword sha256 keyrpwd _)).bind fun _ =>
          (ends_loop (fun _ => ends_ask (Cmd.lookup _)) _).bind fun _ => trivial

theorem ends_restartTask : ∀ attempts : ℕ, (restartTask attempts).Ends
  | 0 => trivial
  | attempts + 1 => (ends_ask Cmd.restart).bind fun r => by
    rcases r with - | - | -
    · exact trivial
    · exact trivial
    · exact ends_restartTask attempts

theorem ends_batch (v : Vars) (sha256 : Str → Str) : (batch v sha256).Ends := by
  have hplaced : (placedKeystore v).Ends := by
    unfold placedKeystore
    split
    · exact ends_register (ends_ask Cmd.distribute)
    · exact trivial
  exact (ends_task (ends_ask Cmd.unit)).bind fun _ => hplaced.bind fun _ => (ends_encode v sha256 _).bind fun _ =>
    (ends_register (ends_pure _)).bind fun _ => (ends_register (ends_ask (Cmd.render _))).bind fun (changed : Bool) =>
      (ends_task (ends_ask Cmd.enable)).bind fun _ => (ends_ask Cmd.isActive).bind fun (active : Bool) =>
        (ends_task (ends_ask Cmd.start)).bind fun _ => (ends_onlyWhen (ends_restartTask 6)).bind fun _ =>
          (ends_ask Cmd.waitReady).bind fun _ => (ends_ask Cmd.unitState).bind fun _ => trivial

end

/-! ### What may happen -/

section
variable (decodes : (key text password : Str) → Prop) (v : Vars) (sha256 : Str → Str)

/-- A batch on a node, cut off anywhere; a node that is built anew; a keystore
with a new password, whose hash is not the one on record; and the state
directory gone. -/
inductive Moves : World → World → Prop where
  | batch {n : Str} {w w' : World} {p : Play Unit} : Reach (Site True decodes n) (batch v sha256, w) (p, w') →
      Moves w w'
  | rebuild {w : World} (n : Str) :
      Moves w { w with keyAt := Function.update w.keyAt n none, xmlAt := Function.update w.xmlAt n none }
  | reissue {w : World} {password : Str} :
      (∀ h, w.files shaFile = some h → trim (rstrip h) ≠ sha256 password) → Moves w { w with keyrpwd := password }
  | wipe {w : World} : Moves w { w with files := fun _ => none }

/-- Batches, cut off anywhere, and other nodes that are built anew. -/
inductive Meanwhile (n : Str) : World → World → Prop where
  | batch {m : Str} {w w' : World} {p : Play Unit} : Reach (Site True decodes m) (batch v sha256, w) (p, w') →
      Meanwhile n w w'
  | rebuild {w : World} {m : Str} : m ≠ n →
      Meanwhile n w { w with keyAt := Function.update w.keyAt m none, xmlAt := Function.update w.xmlAt m none }

end

theorem sound_of_new (h : ∀ file, w.files file = none) : Sound decodes v sha256 w where
  users u _ s hs := absurd ((h _).symm.trans hs) (by simp)
  store s hs := absurd ((h _).symm.trans hs) (by simp)

/-! ### A lab -/

/-- A text in letters. -/
def spell (s : Str) : Str := s.flatMap fun c => 'A' :: List.replicate c.toNat 'B'

/-- A string that decodes under its key alone. -/
def cipher (key password : Str) : Str := ['\x7b', 'a', 'e', 's', '\x7d'] ++ ('=' :: spell key ++ '=' :: spell password)

theorem mem_spell {s : Str} {c : Char} (h : c ∈ spell s) : c = 'A' ∨ c = 'B' := by
  obtain ⟨d, -, hc⟩ := List.mem_flatMap.mp h
  rcases List.mem_cons.mp hc with rfl | hc
  · exact .inl rfl
  · exact .inr (List.eq_of_mem_replicate hc)

theorem isEncoded_cipher (key password : Str) : isEncoded (cipher key password) = true := by
  have hletters : ∀ s : Str, (spell s).all (fun c => c.isAlphanum || c = '+' || c = '/' || c = '=') = true := by
    intro s
    refine List.all_eq_true.mpr fun c hc => ?_
    rcases mem_spell hc with rfl | rfl <;> decide
  simp [isEncoded, cipher, List.isPrefixOf, hletters]

theorem trim_cipher (key password : Str) : trim (cipher key password) = cipher key password := by
  refine trim_of_not_space fun c hc => ?_
  simp only [cipher, List.mem_append, List.mem_cons, List.not_mem_nil, or_false] at hc
  rcases hc with (rfl | rfl | rfl | rfl | rfl) | (rfl | hc) | rfl | hc
  case inr.inl.inr => rcases mem_spell hc with rfl | rfl <;> decide
  case inr.inr.inr => rcases mem_spell hc with rfl | rfl <;> decide
  all_goals decide

theorem contains_append (needle s : Str) : Py.contains (needle ++ s) needle = true := by
  cases needle with
  | nil => cases s <;> simp [Py.contains, Py.find]
  | cons c needle =>
    have hpre : (c :: needle).isPrefixOf (c :: (needle ++ s)) = true :=
      List.isPrefixOf_iff_prefix.mpr (List.prefix_append (c :: needle) s)
    rw [List.cons_append, Py.contains, Py.find, if_pos hpre]
    rfl

/-- What tools that work answer. -/
def works (n : Str) (w : World) : (c : Cmd) → Ans c × World
  | .unit => (true, w)
  | .distribute => (some w.keyrpwd, w)
  | .ensureStateDir => (true, w)
  | .stat file => (some (w.files file).isSome, w)
  | .dropKey => (true, w.putKey n none)
  | .generateKey passphrase =>
    if w.keyAt n = none then (true, w.putKey n (some ("wlp.aes.encryption.key".toList ++ passphrase)))
    else (false, w.putKey n (w.keyAt n))
  | .slurpKey => (w.keyAt n, w)
  | .persist file content => (true, w.write file content)
  | .placeKey => match w.files keyFile with
    | some key => (true, w.putKey n (some key))
    | none => (false, w)
  | .encode password => ((w.keyAt n).map fun key => cipher key password, w)
  | .lookup file => ((w.files file).map rstrip, w)
  | .render text => (some (decide (w.xmlAt n ≠ some text)), w.putXml n text)
  | .enable => (true, w)
  | .isActive => (true, w)
  | .start => (true, w)
  | .restart => (Restarted.ok, w.restarted n)
  | .waitReady => (true, w)
  | .unitState => ("active".toList, w)

def decodesTo (key text password : Str) : Prop := text = cipher key password

theorem site_works (flaky : Prop) (n : Str) (w : World) (c : Cmd) :
    Site flaky decodesTo n w c (works n w c).1 (works n w c).2 := by
  cases c with
  | unit => exact .unit (.inl rfl)
  | distribute => exact .distribute
  | ensureStateDir => exact .ensureStateDir (.inl rfl)
  | stat file => exact .stat
  | dropKey => exact .dropKey
  | generateKey passphrase =>
    dsimp only [works]
    split
    · exact .generateKey ‹_› (.inl (contains_append _ passphrase))
    · exact .noNewKey (.inl ‹_›)
  | slurpKey =>
    dsimp only [works]
    cases hkey : w.keyAt n with
    | none => exact .noSlurp (.inl hkey)
    | some key => exact .slurpKey hkey
  | persist file content => exact .persist
  | placeKey =>
    dsimp only [works]
    cases hkey : w.files keyFile with
    | none => exact .noPlace (.inl hkey)
    | some key => exact .placeKey hkey
  | encode password =>
    dsimp only [works]
    cases hkey : w.keyAt n with
    | none => exact .noEncode (.inl hkey)
    | some key =>
      have henc : isEncoded (trim (cipher key password)) = true := by rw [trim_cipher, isEncoded_cipher]
      exact .encode hkey (fun _ => trim_cipher key password) (.inl henc)
  | lookup file =>
    dsimp only [works]
    cases hfile : w.files file with
    | none => exact .noLookup (.inl hfile)
    | some content => exact .lookup hfile
  | render text => exact .render
  | enable => exact .enable (.inl rfl)
  | isActive => exact .isActive
  | start => exact .start (.inl rfl)
  | restart => exact .restart (.inl rfl)
  | waitReady => exact .waitReady
  | unitState => exact .unitState

/-- Three users, over TLS. -/
def labVars : Vars where
  users := [⟨"mqadmin".toList, "MQWebAdmin".toList⟩, ⟨"mqreadonly".toList, "MQWebAdminRO".toList⟩,
    ⟨"mqoperator".toList, "MQWebUser".toList⟩]
  tls := true
  jsonLogging := true
  serverDir := "/var/mqm/web/installations/Installation1/servers/mqweb".toList
  securityDir := "/var/mqm/web/installations/Installation1/servers/mqweb/resources/security".toList
  stateDir := "/vergil/build/state/mqweb".toList
  passphrase := "correct horse".toList

theorem labVars_free : ∀ u ∈ labVars.users, u.name ≠ keystore := by decide +kernel

theorem labVars_set : labVars.stateDir ≠ [] ∧ labVars.passphrase ≠ [] := by decide +kernel

theorem spell_not_space (p : Str) : ∀ c ∈ spell p, Re.isSpace c = false := by
  intro c hc
  rcases mem_spell hc with rfl | rfl <;> decide

/-- No state yet, and a key on a node from an earlier lab. -/
def newWorld : World where
  files := fun _ => none
  keyAt := fun _ => some "stale".toList
  xmlAt := fun _ => none
  keyrpwd := "pw".toList
  restarts := fun _ => 0

/-- A batch that was cut off after the key was made. -/
def cutWorld : World := ((batch labVars spell).execFor (works "svc-sim".toList) 8 newWorld).2

theorem led_cutWorld : Relation.ReflTransGen (Moves decodesTo labVars spell) newWorld cutWorld :=
  .single (.batch (reach_execFor (fun w c => site_works True "svc-sim".toList w c) 8 (batch labVars spell) newWorld))

/-- The next batch there gets through. -/
theorem exists_through (hs : Sound decodesTo labVars spell w) (n : Str) :
    ∃ w', Reach (Site True decodesTo n) (batch labVars spell, w) (.ret (), w') := by
  obtain ⟨⟨⟩, w', hexec, -⟩ := (ends_batch labVars spell).exec (site_works False n) w
    (leads_batch (.inl labVars_set) labVars_free spell_not_space hs)
  refine ⟨w', ?_⟩
  rw [← hexec]
  exact reach_exec (J := fun _ => True) (fun w c _ => ⟨site_works True n w c, trivial⟩) _ w trivial

section
variable (hfree : ∀ u ∈ v.users, u.name ≠ keystore) (hhex : ∀ p, ∀ c ∈ sha256 p, Re.isSpace c = false)
include hfree hhex

/-- What a batch keeps, wherever it is cut off. -/
theorem kept_of_reach {p : Play Unit} (hs : Sound decodes v sha256 w)
    (hrun : Reach (Site True decodes n) (batch v sha256, w) (p, w')) : Kept decodes v sha256 w w' :=
  (wp_reach hrun (Kept.refl hs) (leads_batch (.inr trivial) hfree hhex hs)).1

theorem sound_of_moves (hs : Sound decodes v sha256 w) (hm : Moves decodes v sha256 w w') :
    Sound decodes v sha256 w' := by
  cases hm with
  | batch hrun => exact (kept_of_reach hfree hhex hs hrun).sound
  | rebuild n => exact hs.congr rfl rfl
  | reissue hne =>
    refine ⟨hs.users, fun s hstring => ?_⟩
    obtain ⟨key, p, hkey, hdec, -⟩ := hs.store s hstring
    exact ⟨key, p, hkey, hdec, fun h hsha heq => absurd heq (hne h hsha)⟩
  | wipe => exact sound_of_new fun _ => rfl

theorem sound_of_led (hnew : ∀ file, w₀.files file = none)
    (hled : Relation.ReflTransGen (Moves decodes v sha256) w₀ w) : Sound decodes v sha256 w := by
  induction hled with
  | refl => exact sound_of_new hnew
  | tail _ hm ih => exact sound_of_moves hfree hhex ih hm

omit hfree hhex in
theorem sound_cutWorld : Sound decodesTo labVars spell cutWorld :=
  sound_of_led labVars_free spell_not_space (fun _ => rfl) led_cutWorld

end

end Mqweb
end MqResiliency
