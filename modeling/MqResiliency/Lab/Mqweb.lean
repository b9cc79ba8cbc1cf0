/-
# The web server's passwords

The role `mqweb`: the server's one AES key and the encoded passwords of
`mqwebuser.xml`, made once and kept on the controller (`encode`, the tasks of
`encode.yml`), and the tasks around them (`batch`, `main.yml`): the file is
rendered, and a server that was up restarts where the file changed. The play
is serial, so a batch is one node, and `run_once` is once a batch.
-/
import MqResiliency.Lib.Dict
import MqResiliency.Lib.Prog
import MqResiliency.Lib.Regex

namespace MqResiliency
namespace Mqweb

open Py Prog

/-- An entry of `mqweb_users`. -/
structure User : Type where
  name : Str
  role : Str

/-- The variables of the role. -/
structure Vars : Type where
  users : List User
  tls : Bool
  jsonLogging : Bool
  serverDir : Str
  securityDir : Str
  stateDir : Str
  passphrase : Str

/-- What a restart comes to, and whether the message of a failure is one of the
transient ones. -/
inductive Restarted : Type where
  | ok
  | failed (transient : Bool)

/-- The commands of the tasks; `stat`, `persist` and `lookup` are of the state
directory on the controller. -/
inductive Cmd : Type where
  | unit
  /-- The role `pki-distribute`, for the keystore and its password. -/
  | distribute
  | ensureStateDir
  | stat (file : Str)
  | dropKey
  | generateKey (passphrase : Str)
  | slurpKey
  | persist (file content : Str)
  | placeKey
  /-- `securityUtility encode`. -/
  | encode (password : Str)
  | lookup (file : Str)
  | render (text : Str)
  | enable
  | isActive
  | start
  | restart
  | waitReady
  | unitState

/-- `none` and `false`: the task failed. A rendering says whether it changed the
file, the probes what they found. -/
def Ans : Cmd → Type
  | .distribute => Option Str
  | .stat _ => Option Bool
  | .slurpKey => Option Str
  | .encode _ => Option Str
  | .lookup _ => Option Str
  | .render _ => Option Bool
  | .restart => Restarted
  | .unitState => Str
  | _ => Bool

inductive Failure : Type where
  | taskFailed (name : Str)

abbrev Play (α : Type) : Type := Prog Cmd Ans Failure α

def failed {α : Type} (name : String) : Play α := throw (.taskFailed name.toList)

/-- A task. -/
def task (name : String) (command : Play Bool) : Play Unit := must command (.taskFailed name.toList)

/-- A task that registers what it finds. -/
def register {α : Type} (name : String) (command : Play (Option α)) : Play α := do
  match ← command with
  | some a => pure a
  | none => failed name

def require (name : String) (p : Prop) [Decidable p] : Play Unit := if p then pure () else failed name

/-- `when:`. -/
def onlyWhen (p : Prop) [Decidable p] (t : Play Unit) : Play Unit := if p then t else pure ()

/-- The items of a loop, each of which is run. -/
def each {α β : Type} (item : α → Play (Option β)) : List α → Play (Option (List β))
  | [] => pure (some [])
  | a :: as => do
    let b ← item a
    let bs ← each item as
    pure (b.bind fun b => bs.map fun bs => b :: bs)

/-- A looped task: it fails if an item did. -/
def loop {α β : Type} (name : String) (items : List α) (item : α → Play (Option β)) : Play (List β) :=
  register name (each item items)

def stat (file : Str) : Play (Option Bool) := ask (Cmd.stat file)

def persist (file content : Str) : Play Bool := ask (Cmd.persist file content)

def lookup (file : Str) : Play (Option Str) := ask (Cmd.lookup file)

/-- `securityUtility encode`, with what `failed_when` makes of it: the string, trimmed. -/
def securityEncode (password : Str) (isEncoded : Str → Bool) : Play (Option Str) := do
  let out : Option Str ← ask (Cmd.encode password)
  pure (out.bind fun s => if isEncoded (trim s) then some (trim s) else none)

/-- `is match('^[{]aes[}][A-Za-z0-9+/=]+$')`. -/
def isEncoded (s : Str) : Bool :=
  ['\x7b', 'a', 'e', 's', '\x7d'].isPrefixOf s && s.length > 5 &&
    (s.drop 5).all fun c => c.isAlphanum || c = '+' || c = '/' || c = '='

/-- `lookup('file', …)` has no white space at the end. -/
def rstrip (s : Str) : Str := s.rdropWhile Re.isSpace

def keyFile : Str := "aes-key.xml".toList

def encFile (name : Str) : Str := name ++ ".enc".toList

def keystore : Str := "keystore".toList

def shaFile : Str := "keystore.sha256".toList

variable (v : Vars)

/-- The names that `mqwebuser.xml` has a password for. -/
def Vars.names : List Str := v.users.map User.name ++ if v.tls then [keystore] else []

/-! ### `encode.yml` -/

/-- The tasks for a new key. -/
def newKey : Play Unit := do
  task "remove a stale node-local key before generating (no controller copy exists)" (ask Cmd.dropKey)
  task "generate the server's AES key ONCE (securityUtility generateAESKey, IBM S16)"
    (ask (Cmd.generateKey v.passphrase))
  let key ← register "read the newly generated key back" (ask Cmd.slurpKey)
  require "the generated file carries the AES key variable (fail loud otherwise)"
    (Py.contains key "wlp.aes.encryption.key".toList)
  task "persist the key on the controller (0600)" (persist keyFile key)

/-- The users' passwords; each is the name. -/
def userPasswords (isNew : Bool) : Play Unit := do
  let exist ← loop "which encoded user passwords already exist (controller state)" v.users fun u =>
    stat (encFile u.name)
  let stale := (v.users.zip exist).filter fun p => isNew || !p.2
  let encoded ← loop "encode user passwords not yet encoded (password = username, lab convention; IBM S16)" stale
    fun p => securityEncode p.1.name isEncoded
  let _ ← loop "persist newly encoded user passwords on the controller (0600)" (stale.zip encoded) fun p =>
    (fun ok => if ok then some () else none) <$> persist (encFile p.1.1.name) (p.2 ++ ['\n'])
  pure ()

variable (sha256 : Str → Str)

/-- Whether the keystore's password needs encoding. -/
def keystoreStale (keyrpwd : Str) (isNew : Bool) : Play Bool := do
  let exist ← loop "which keystore-password records exist (controller state)" [encFile keystore, shaFile] stat
  if isNew || exist.any (!·) then pure true
  else
    let recorded ← register "decide whether the keystore password needs encoding" (lookup shaFile)
    pure (trim recorded ≠ sha256 keyrpwd)

def keystorePassword (keyrpwd : Str) (isNew : Bool) : Play Unit := do
  let stale ← keystoreStale sha256 keyrpwd isNew
  onlyWhen (stale = true) do
    let encoded ← register "encode the keystore password (IBM S16 — every password in the file)"
      (securityEncode keyrpwd isEncoded)
    let _ ← loop "persist the encoded keystore password and its source hash (0600)"
      [(encFile keystore, encoded), (shaFile, sha256 keyrpwd)] fun p =>
        (fun ok => if ok then some () else none) <$> persist p.1 (p.2 ++ ['\n'])
    pure ()

/-- `mqweb_encoded_passwords`. -/
def encodedPasswords : Play (Dict Str Str) := do
  let strings ← loop "load the encoded passwords for the registry render" v.names fun name => lookup (encFile name)
  pure (.ofList (v.names.zip strings))

/-- The tasks of `encode.yml`. -/
def encode (keyrpwd : Str) : Play (Dict Str Str) := do
  require "require the controller state dir and the AES passphrase (exported by mqlab)"
    (v.stateDir ≠ [] ∧ v.passphrase ≠ [])
  task "ensure the controller mqweb state dir exists (0700)" (ask Cmd.ensureStateDir)
  let exists_ ← register "is the server's AES key already generated (controller state)" (stat keyFile)
  let isNew := !exists_
  onlyWhen (isNew = true) (newKey v)
  task "place the same key on THIS node (mqm, 0600)" (ask Cmd.placeKey)
  userPasswords v isNew
  onlyWhen (v.tls = true) (keystorePassword sha256 keyrpwd isNew)
  encodedPasswords v

/-! ### `mqwebuser.xml.j2` -/

def roleLines (u : User) : List Str :=
  ["      <security-role name=\"".toList ++ u.role ++ "\">".toList,
    "        <user name=\"".toList ++ u.name ++ "\" realm=\"defaultRealm\"/>".toList,
    "      </security-role>".toList]

def applicationLines (app : String) : List Str :=
  ["  <enterpriseApplication id=\"".toList ++ app.toList ++ "\">".toList, "    <application-bnd>".toList] ++
    v.users.flatMap roleLines ++ ["    </application-bnd>".toList, "  </enterpriseApplication>".toList]

def tlsLines (password : Str) : List Str :=
  ["  <!-- TLS (#250): serve the org-CA `mqweb` entity cert over TLS 1.3 instead of".toList,
    "       Liberty's default self-signed cert. serverKeyAlias is the cert label (CN). -->".toList,
    "  <keyStore id=\"mqwebKeyStore\" location=\"".toList ++ v.securityDir ++
      "/key.p12\" type=\"PKCS12\" password=\"".toList ++ password ++ "\"/>".toList,
    "  <ssl id=\"mqwebSSL\" keyStoreRef=\"mqwebKeyStore\" serverKeyAlias=\"mqweb\" sslProtocol=\"TLSv1.3\"/>".toList,
    "  <sslDefault sslRef=\"mqwebSSL\"/>".toList]

/-- The users of the registry; a password that is missing is an error. -/
def userLines (passwords : Dict Str Str) : Option (List Str) :=
  v.users.mapM fun u => (passwords.get? u.name).map fun password =>
    "    <user name=\"".toList ++ u.name ++ "\" password=\"".toList ++ password ++ "\"/>".toList

def sslLines (passwords : Dict Str Str) : Option (List Str) :=
  if v.tls then (passwords.get? keystore).map (tlsLines v)
  else some ["  <sslDefault sslRef=\"mqDefaultSSLConfig\"/>".toList]

def fileLines (users ssl : List Str) : List Str :=
  ["<?xml version=\"1.0\" encoding=\"UTF-8\"?>".toList,
    "<!-- mqweb security (epic .github#341 spec §2.2): IBM's three roles (S8), one sample user per".toList,
    "     role in a basic registry (S10). No anonymous access: the MQ Console and the REST API".toList,
    "     both require a login. Every password in this file is AES-encoded with the server's one".toList,
    "     key, which is included below (S16). Each was encoded once and persisted, so this render".toList,
    "     is stable across re-provisions. LAB ONLY: the human logins use password = username".toList,
    "     (spec §8 D2). -->".toList,
    "<server>".toList,
    "  <featureManager>".toList,
    "    <feature>appSecurity-2.0</feature>".toList,
    "    <feature>basicAuthenticationMQ-1.0</feature>".toList,
    "  </featureManager>".toList,
    "  <include location=\"".toList ++ v.serverDir ++ "/aes-key.xml\"/>".toList] ++
  (["com.ibm.mq.console", "com.ibm.mq.rest"].flatMap fun app => applicationLines v app) ++
  ["  <basicRegistry id=\"basic\" realm=\"defaultRealm\">".toList] ++ users ++
  ["  </basicRegistry>".toList,
    "  <!-- Bind to all interfaces (= `setmqweb properties -k httpHost -v \"*\"`). Set here, not".toList,
    "       by setmqweb, so this template is the file's only writer (#1598). -->".toList,
    "  <variable name=\"httpHost\" value=\"*\"/>".toList] ++ ssl ++
  (if v.jsonLogging then
    ["  <!-- #282: JSON diagnostic logging to messages.log (tailed into Loki as unit=ibm-mqweb) -->".toList,
      "  <logging messageFormat=\"json\" messageSource=\"message,ffdc\"/>".toList]
  else []) ++ ["</server>".toList]

/-- The file. -/
def mqwebuserXml (passwords : Dict Str Str) : Option Str := do
  let users ← userLines v passwords
  let ssl ← sslLines v passwords
  pure ((fileLines v users ssl).flatMap (· ++ ['\n']))

/-! ### `main.yml` -/

/-- The restart, with the attempts that are left after a transient failure. -/
def restartTask : ℕ → Play Unit
  | 0 => failed "restart mqweb to pick up the TLS cert (non-blocking)"
  | attempts + 1 => do
    let restarted : Restarted ← ask Cmd.restart
    match restarted with
    | .ok => pure ()
    | .failed true => restartTask attempts
    | .failed false => failed "restart mqweb to pick up the TLS cert (non-blocking)"

/-- `mqweb_keyrpwd`. -/
def placedKeystore : Play Str :=
  if v.tls then register "place the mqweb server keystore (TLS)" (ask Cmd.distribute) else pure []

/-- The tasks of `main.yml`. -/
def batch : Play Unit := do
  task "mqweb systemd unit" (ask Cmd.unit)
  let keyrpwd ← placedKeystore v
  let passwords ← encode v sha256 keyrpwd
  let text ← register "mqweb basic registry (IBM roles, encoded passwords, no anonymous access)"
    (pure (mqwebuserXml v passwords))
  let changed ← register "mqweb basic registry (IBM roles, encoded passwords, no anonymous access)"
    (ask (Cmd.render text))
  task "enable mqweb (boot persistence + daemon reload)" (ask Cmd.enable)
  let active : Bool ← ask Cmd.isActive
  task "start mqweb without blocking on its (slow) readiness" (ask Cmd.start)
  onlyWhen (v.tls = true ∧ changed = true ∧ active = true) (restartTask 6)
  let _ready : Bool ← ask Cmd.waitReady
  let _state : Str ← ask Cmd.unitState
  pure ()

end Mqweb
end MqResiliency
