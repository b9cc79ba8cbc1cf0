/-
# Following the active

`mqweb_probe.py`: the first of the candidate addresses that is live for a queue
manager (`resolveLive`), by what each answers the list query (`qmState`). A
request is a command, and comes to a body, an error status, or an exception
that is an `OSError` or is none (`Got`).

What Python's runtime brings is a parameter (`Runtime`): how `json.loads`
decodes bytes, what it makes of floats, how deep a document may nest before it
raises `RecursionError`, and `repr` of a value.
-/
import MqResiliency.Lib.Dict
import MqResiliency.Lib.Json
import MqResiliency.Lib.Trace

namespace MqResiliency
namespace Lab
namespace WebProbe

open Py

structure Runtime (F : Type) : Type where
  decode : Bytes → Option Str
  floats : Floats F
  room : ℕ
  repr : Json F → Str

/-- What a request comes to; an `HTTPError` is no other `OSError` here. -/
inductive Got : Type where
  | body (b : Bytes)
  | httpError (code : ℕ)
  | osError (reason : Str)
  | other (text : Str)

inductive Cmd : Type where
  /-- `_get`. -/
  | get (url : Str)

abbrev Ans : Cmd → Type := fun _ => Got

/-- `ProbeError`, or an exception that is let through. -/
inductive Raised : Type where
  | probe (message : Str)
  | other (text : Str)

abbrev Probe (α : Type) : Type := Prog Cmd Ans Raised α

/-- `Answer`. -/
structure Answer : Type where
  state : Option Str
  detail : Str

inductive Kind : Type where
  | live
  | member
  | unknown
deriving DecidableEq

def Kind.text : Kind → Str
  | live => "live".toList
  | member => "member".toList
  | unknown => "unknown".toList

/-- `LIVE_STATES`, `MEMBER_STATES` and `AUTH_FAILURES`. -/
def liveStates : List Str := ["running".toList]

def memberStates : List Str := ["replica".toList, "recoveryGroupLeader".toList]

def authFailures : List ℕ := [401, 403]

/-- `PROBE_USER`. -/
def probeUser : Str := "mqreadonly".toList

def classify : Option Str → Kind
  | none => .unknown
  | some state => if state ∈ liveStates then .live else if state ∈ memberStates then .member else .unknown

/-- `list_query_url`. -/
def listQueryUrl (url : Str) : Str := url ++ "/ibmmq/rest/v3/admin/qmgr?attributes=*".toList

section
variable {F : Type} (py : Runtime F)

/-- What `json.loads` comes to. -/
inductive Loaded (F : Type) : Type where
  | value (v : Json F)
  | valueError
  | recursionError

/-- `json.loads` of bytes. -/
def jsonLoads (body : Bytes) : Loaded F :=
  match py.decode body with
  | none => .valueError
  | some s =>
    if py.room < Reader.deepest py.floats ⟨[], .value⟩ s then .recursionError
    else match loads py.floats s with
      | .ok v => .value v
      | .error _ => .valueError

/-- `isinstance(v, dict)`. -/
def dictOf : Json F → Option (Dict Str (Json F))
  | .obj ps => some (Dict.ofList ps)
  | _ => none

/-- The records of a document. -/
def recordsOf (doc : Json F) : Option (List (Dict Str (Json F))) :=
  match (dictOf doc).bind (·.get? "qmgr".toList) with
  | some (.arr recs) => recs.mapM dictOf
  | _ => none

/-- `_records`. -/
def records (body : Bytes) : Except Raised (Option (List (Dict Str (Json F)))) :=
  match jsonLoads py body with
  | .value doc => .ok (recordsOf doc)
  | .valueError => .ok none
  | .recursionError => .error (.other "RecursionError".toList)

/-- `rec.get("name") == qm`. -/
def isNamed (qm : Str) (rec : Dict Str (Json F)) : Bool := match rec.get? "name".toList with
  | some (.str name) => name = qm
  | _ => false

/-- The answer that a list of records gives. -/
def answerOf (qm : Str) (recs : List (Dict Str (Json F))) : Answer :=
  match recs.find? (isNamed qm) with
  | none => ⟨none, "no ".toList ++ qm ++ " record".toList⟩
  | some rec => match rec.get? "state".toList with
    | some (.str state) => ⟨some state, state⟩
    | state => ⟨none, "state ".toList ++ py.repr (state.getD .null)⟩

def loginMessage (user qm url : Str) (code : ℕ) : Str :=
  qm ++ ": ".toList ++ url ++ " answered HTTP ".toList ++ Conv.textOf code ++ " to the qmgr list query as ".toList ++
    py.repr (.str user) ++ " \u2014 check the mqweb login".toList

/-- `qm_state`. -/
def qmState (user url qm : Str) : Probe Answer := do
  match ← Prog.ask (Cmd.get (listQueryUrl url)) with
  | .httpError code =>
    if code ∈ authFailures then throw (.probe (loginMessage py user qm url code))
    else return ⟨none, "HTTP ".toList ++ Conv.textOf code⟩
  | .osError reason => return ⟨none, "unreachable (".toList ++ reason ++ [')']⟩
  | .other text => throw (.other text)
  | .body body => match records py body with
    | .error e => throw e
    | .ok none => return ⟨none, "unparseable answer (".toList ++ bytesRepr (body.take 80) ++ [')']⟩
    | .ok (some recs) => return answerOf py qm recs

end

/-- What is said of a candidate. -/
def entry (url : Str) (answer : Answer) : Str :=
  url ++ "=".toList ++ answer.detail ++ " [".toList ++ (classify answer.state).text ++ "]".toList

def noneRunning (qm : Str) (seen : List Str) : Str :=
  qm ++ ": no candidate reports 'running' (".toList ++ ", ".toList.intercalate seen ++ ")".toList

/-- The loop of `resolve_live`. -/
def resolveFrom (stateFn : Str → Str → Probe Answer) (qm : Str) : (seen urls : List Str) → Probe Str
  | seen, [] => throw (.probe (noneRunning qm seen))
  | seen, url :: urls => do
    let answer ← stateFn url qm
    if classify answer.state = .live then return url
    else resolveFrom stateFn qm (seen ++ [entry url answer]) urls

/-- `resolve_live`. -/
def resolveLive (urls : List Str) (qm : Str) (stateFn : Str → Str → Probe Answer) : Probe Str :=
  resolveFrom stateFn qm [] urls

end WebProbe
end Lab
end MqResiliency
