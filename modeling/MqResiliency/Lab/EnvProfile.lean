/-
# The profile of an environment

`topology.effective` (`topology.py`): the topology with the selected
environment's profile merged on, as the code computes it on the objects that
`yaml.safe_load` returns. A loop over a mapping reads each value when it comes
to it; no key is added to a mapping that a loop is on.

Raising leaves the objects as they are then, so a failure carries them.
-/
import MqResiliency.Lib.Objects
import MqResiliency.Lib.Text

namespace MqResiliency
namespace Lab
namespace Profile

open Py

/-! ### What is raised -/

/-- A piece of a message: text, `{v!r}`, `{a}`, `{a!r}` or the `repr` of a sorted list. -/
inductive Part : Type where
  | text (s : Str)
  | repr (v : Val)
  | shown (a : Atom)
  | quoted (a : Atom)
  | sorted (as : List Atom)

/-- An exception: `ValueError`, `TypeError` or `IndexError`. -/
inductive Raised : Type where
  | value (message : List Part)
  | type
  | index

abbrev Run (α : Type) : Type := Except (Raised × Heap) α

def valueError {α : Type} (h : Heap) (message : List Part) : Run α := .error (.value message, h)

/-! ### The levers -/

def name (s : String) : Atom := .str s.toList

/-- `_PROFILES_KEY`. -/
def profilesKey : Atom := name "env_profiles"

def nodesKey : Atom := name "nodes"

/-- `KNOWN_ENVS`, sorted. -/
def knownEnvs : List Atom := [name "cloud", name "macos"]

def memoryBacking : Atom := name "memory_backing"

/-- `_TOP_LEVEL_LEVERS`, sorted. -/
def topLevelLevers : List Atom := [name "boot_batch", memoryBacking]

/-- `_NODE_LEVERS`. -/
def nodeLevers : List Atom := [name "cpus"]

/-- `MEMORY_BACKING_VALUES`. -/
def memoryBackingValues : List Atom := [name "hugepages"]

/-- `_LEVER_VALUES.get(key)`. -/
def leverValues (key : Atom) : Option (List Atom) :=
  if key.key = memoryBacking.key then some memoryBackingValues else none

/-- `a in as`. -/
def isIn (a : Atom) (as : List Atom) : Bool := a.key ∈ as.map Atom.key

/-! ### Objects -/

/-- The value of a key, as the mapping is now. -/
def item (h : Heap) (v : Val) (key : Atom) : Val := ((h.dictOf v).bind (·.value key.key)).getD (.atom .null)

/-- `v in allowed`, for a `frozenset`. A `set` is looked for as a `frozenset`. -/
def isAllowed (h : Heap) (v : Val) (allowed : List Atom) : Except Raised Bool :=
  match v with
  | .atom a => .ok (isIn a allowed)
  | .ref i => match h[i]? with
    | some (.set _) => .ok false
    | _ => .error .type

/-- `v == name`: no object equals an atom. -/
def equals (name : Atom) : Val → Bool
  | .atom a => a.key = name.key
  | .ref _ => false

/-- `name in nodes`. -/
def contains (h : Heap) (nodes : Val) (name : Atom) : Except Raised Bool :=
  match nodes with
  | .ref i => match h[i]? with
    | some (.dict d) => .ok (d.value name.key).isSome
    | some (.list vs) => .ok (vs.any (equals name))
    | some (.pairs _) => .ok false
    | some (.set as) => .ok (isIn name as)
    | none => .error .type
  | .atom (.str s) => match name with
    | .str t => .ok (t <:+: s)
    | _ => .error .type
  | .atom (.bytes bs) => match name with
    | .bytes cs => .ok (cs <:+: bs)
    | _ => match name.index with
      | some n => if 0 ≤ n ∧ n < 256 then .ok (n.toNat ∈ bs)
          else .error (.value [.text "byte must be in range(0, 256)".toList])
      | none => .error .type
  | .atom _ => .error .type

/-- The place that an index stands for; one below zero counts from the end. -/
def place (length : ℕ) (n : ℤ) : Option ℕ :=
  if 0 ≤ n ∧ n < length then some n.toNat
  else if n < 0 ∧ 0 ≤ n + length then some (n + length).toNat
  else none

/-- The place of `name` in a list. -/
def placeOf (length : ℕ) (name : Atom) : Except Raised ℕ :=
  match name.index with
  | none => .error .type
  | some n => match place length n with
    | some i => .ok i
    | none => .error .index

/-- `nodes[name]`, of a name that is in it. -/
def subscript (h : Heap) (nodes : Val) (name : Atom) : Except Raised Val :=
  match nodes with
  | .ref i => match h[i]? with
    | some (.dict d) => match d.value name.key with
      | some v => .ok v
      | none => .error .index
    | some (.list vs) => (placeOf vs.length name).map fun j => vs.getD j (.atom .null)
    | _ => .error .type
  | .atom (.bytes bs) => (placeOf bs.length name).map fun j => .atom (.int (bs.getD j 0))
  | .atom _ => .error .type

/-- `nodes[name] = v`. -/
def setItem (h : Heap) (nodes : Val) (name : Atom) (v : Val) : Except Raised Heap :=
  match nodes with
  | .ref i => match h[i]? with
    | some (.dict d) => .ok (h.set i (.dict (d.assign name v)))
    | some (.list vs) => (placeOf vs.length name).map fun j => h.set i (.list (vs.set j v))
    | _ => .error .type
  | .atom _ => .error .type

/-- A step's exception, with the objects as they are. -/
def raising (h : Heap) {α : Type} : Except Raised α → Run α
  | .ok x => .ok x
  | .error e => .error (e, h)

/-! ### Messages -/

/-- `{where} must be a mapping, got {v!r}`. -/
def notMapping (whr : List Part) (v : Val) : List Part := whr ++ [.text " must be a mapping, got ".toList, .repr v]

def unknownKeys (unknown : List Atom) : List Part :=
  [.text "unknown env_profiles key(s) ".toList, .sorted unknown, .text "; allowed: ".toList, .sorted knownEnvs]

def unknownEnv (selected : Str) : List Part :=
  [.text "MQLAB_ENV=".toList, .quoted (.str selected), .text " is not a known environment; use one of ".toList,
    .sorted knownEnvs]

def noProfile (selected : Str) : List Part :=
  [.text "MQLAB_ENV=".toList, .quoted (.str selected), .text " but lab/topology.yaml has no env_profiles.".toList,
    .text selected]

def notALever (whr : Str) (key : Atom) : List Part :=
  [.text whr, .text " may not override ".toList, .quoted key, .text "; levers: ".toList, .sorted topLevelLevers,
    .text " + nodes".toList]

def notAllowed (whr : Str) (key : Atom) (allowed : List Atom) (v : Val) : List Part :=
  [.text whr, .text ".".toList, .shown key, .text " must be one of ".toList, .sorted allowed, .text ", got ".toList,
    .repr v]

def unknownNode (whr : Str) (name : Atom) : List Part :=
  [.text whr, .text ".nodes: unknown node ".toList, .quoted name, .text " (not declared in the base topology)".toList]

def notANodeLever (whr : Str) (name key : Atom) : List Part :=
  [.text whr, .text " may not override nodes.".toList, .shown name, .text ".".toList, .shown key,
    .text "; levers: ".toList, .sorted nodeLevers]

/-! ### The merge -/

/-- `_check_value`. -/
def checkValue (h : Heap) (key : Atom) (value : Val) (whr : Str) : Run Unit :=
  match leverValues key with
  | none => .ok ()
  | some allowed => do
    let known ← raising h (isAllowed h value allowed)
    if known then .ok () else valueError h (notAllowed whr key allowed value)

/-- `{**(v or {})}`. -/
def spread (h : Heap) (v : Val) : Except Raised Mapping :=
  if h.truthy v then (h.dictOf v).elim (.error .type) .ok else .ok .empty

/-- `nodes[name] = {**(nodes[name] or {}), key: copy.deepcopy(value)}`. -/
def setLever (h : Heap) (nodes : Val) (name key : Atom) (value : Val) : Run Heap := do
  let node ← raising h (subscript h nodes name)
  let base ← raising h (spread h node)
  let copied := h.deepcopy value
  let h' := copied.1 ++ [.dict (base.assign key copied.2)]
  raising h' (setItem h' nodes name (.ref copied.1.length))

def applyLever (nodes : Val) (name : Atom) (nodeOver : Val) (whr : Str) (h : Heap) (key : Atom) : Run Heap :=
  if isIn key nodeLevers then setLever h nodes name key (item h nodeOver key)
  else valueError h (notANodeLever whr name key)

/-- An override of one node. -/
def applyNode (nodes : Val) (overrides : Val) (whr : Str) (h : Heap) (name : Atom) : Run Heap := do
  let known ← raising h (contains h nodes name)
  let nodeOver := item h overrides name
  if known then match h.dictOf nodeOver with
    | none => valueError h (notMapping [.text whr, .text ".nodes.".toList, .shown name] nodeOver)
    | some d => d.keys.foldlM (applyLever nodes name nodeOver whr) h
  else valueError h (unknownNode whr name)

/-- `_apply_nodes`; without `nodes`, they are `{}`. -/
def applyNodes (nodes : Option Val) (overrides : Val) (whr : Str) (h : Heap) : Run Heap :=
  match h.dictOf overrides with
  | none => valueError h (notMapping [.text whr, .text ".nodes".toList] overrides)
  | some d => match nodes with
    | some nodes => d.keys.foldlM (applyNode nodes overrides whr) h
    | none => match d.keys with
      | [] => .ok h
      | name :: _ => valueError h (unknownNode whr name)

/-- One item of the profile, onto the topology `out`. -/
def applyItem (out profile : Val) (whr : Str) (h : Heap) (key : Atom) : Run Heap :=
  let value := item h profile key
  if key.key = nodesKey.key then
    applyNodes (((h.dictOf out).bind (·.value nodesKey.key)).filter h.truthy) value whr h
  else if isIn key topLevelLevers then do
    checkValue h key value whr
    let copied := h.deepcopy value
    raising copied.1 (setItem copied.1 out key copied.2)
  else valueError h (notALever whr key)

/-- `_apply`; an empty profile is `{}`. -/
def apply (out profile : Val) (env : Str) (h : Heap) : Run Heap :=
  if h.truthy profile then match h.dictOf profile with
    | none => valueError h (notMapping [.text ("env_profiles.".toList ++ env)] profile)
    | some d => d.keys.foldlM (applyItem out profile ("env_profiles.".toList ++ env)) h
  else .ok h

/-- The profiles that were popped; there may be none. -/
def profilesOf (h : Heap) (popped : Option Val) : Except Raised Mapping :=
  match popped.filter h.truthy with
  | none => .ok .empty
  | some v => match h.dictOf v with
    | some d => .ok d
    | none => .error (.value (notMapping [.text "topology env_profiles".toList] v))

/-- The keys of the profiles have to be known. -/
def checkKnown (profiles : Mapping) : Except Raised Unit :=
  let unknown := profiles.keys.filter fun a => !isIn a knownEnvs
  if sortable unknown then if unknown = [] then .ok () else .error (.value (unknownKeys unknown))
  else .error .type

/-- The selected profile. -/
def select (profiles : Mapping) (selected : Str) : Except Raised Val :=
  if isIn (.str selected) knownEnvs then match profiles.value (.str selected) with
    | some profile => .ok profile
    | none => .error (.value (noProfile selected))
  else .error (.value (unknownEnv selected))

/-- The topology without its profiles, and what it had of them. -/
def popProfiles (h : Heap) (out : ℕ) : Heap × Option Val :=
  let d := (h.dictOf (.ref out)).getD .empty
  (h.set out (.dict (d.erase profilesKey)), d.value profilesKey.key)

/-- `effective(topo, env)`: the effective topology, and the objects then. -/
def effective (h : Heap) (topo : ℕ) (selected : Str) : Run (Val × Heap) := do
  let out := h.length + topo
  let (h, popped) := popProfiles (h.deepcopy (.ref topo)).1 out
  let profiles ← raising h (profilesOf h popped)
  raising h (checkKnown profiles)
  if selected = [] then return (.ref out, h)
  let profile ← raising h (select profiles selected)
  let h ← apply (.ref out) profile selected h
  return (.ref out, h)

end Profile
end Lab
end MqResiliency
