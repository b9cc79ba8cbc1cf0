/-
# The bake-manifest hash of a box

`_manifest-hash.sh`: what a box is baked from, in one stream for `sha256sum`.
The roles and shared files in it are found by scanning the text of the bake
playbook, and of what was found, for the names of roles (`roleTokens`) and the
paths of YAML files (`pathTokens`), with a worklist (`closure`).

The patterns are of ASCII characters, so the text of a file is its bytes, each
a character; it has no NUL, as YAML has none, so `grep` takes it for text. A
path in a text is looked up from `lab/boxes`, where the script is; a directory
is kept as its parts there (`Dir`).
-/
import MqResiliency.Lib.Paths
import MqResiliency.Lib.Shell
import MqResiliency.Lib.Worklist

namespace MqResiliency
namespace ManifestHash

open Py

/-- A checkout, with the script in it; it is not the root of the file system. -/
structure Checkout : Type where
  tree : Tree
  repo : Path
  boxes : tree.node (repo ++ ["lab".toList, "boxes".toList]) = some .dir
  notRoot : repo ≠ []

/-- `--bake-stem` and the other flags, as they are checked. -/
structure Flags : Type where
  box : Str
  bakeStem : Str
  mqBearing : Bool
  osPin : Str
  runtimePin : Str
  components : List Str

/-- Where a path starts, and its parts. -/
abbrev Dir : Type := Path × List Comp

def ansibleDir : Str := "../../ansible".toList

def rolesDir : Str := "../../ansible/roles".toList

def pins : Str := "../../ansible/group_vars/all/versions.yml".toList

def mqVersionPin : Str := "../../lab/mq-version".toList

/-- `BAKE_REL`. -/
def bakeRel (stem : Str) : Str := "ansible/bake-".toList ++ stem ++ ".yml".toList

/-- `BAKE`. -/
def bake (stem : Str) : Str := "../../".toList ++ bakeRel stem

/-! ### Looking up -/

namespace Checkout

variable (c : Checkout)

/-- The directory that the script runs in. -/
def cwd : Path := c.repo ++ ["lab".toList, "boxes".toList]

/-- A path as it is looked up. -/
def whole (s : Str) : Dir := (start s c.cwd, comps s)

/-- `dirname`. -/
def dirOf (s : Str) : Dir := (start s c.cwd, (comps s).dropLast)

/-- `"${dir}/${tok}"`. -/
def below (d : Dir) (tok : Str) : Dir := (d.1, d.2 ++ comps tok)

def locate (d : Dir) : Option Path := resolve c.tree.node 40 d.1 d.2

/-- The content of the regular file that is found. -/
def content (d : Dir) : Option Bytes :=
  match (c.locate d).bind c.tree.node with
  | some (.file b) => some b
  | _ => none

/-- `[ -f … ]`. -/
def isFile (d : Dir) : Bool := (c.content d).isSome

/-- The directory that is found. -/
def located (d : Dir) : Option Path := (c.locate d).filter fun p => c.tree.node p = some .dir

/-- `[ -d … ]`. -/
def isDir (d : Dir) : Bool := (c.located d).isSome

/-- The text of a directory without dots, as far as there are directories before the dots. -/
def normal : Path → List Comp → Option Path
  | cur, [] => some cur
  | cur, .here :: cs => normal cur cs
  | cur, .up :: cs => if c.isDir ([], plain cur) then normal cur.dropLast cs else none
  | cur, .down name :: cs => normal (cur ++ [name]) cs

/-- `cd`, where `pwd -P` is then: the dots are taken out before links are
followed, if that names a directory. -/
def cd (d : Dir) : Option Path := ((c.normal d.1 d.2).bind fun p => c.located ([], plain p)).or (c.located d)

/-- Where `find` starts: a link that is named is not followed. -/
def findStart (s : Str) : Option Path :=
  match (comps s).getLast? with
  | some (.down name) => (c.locate (c.dirOf s)).map (· ++ [name])
  | _ => c.locate (c.whole s)

def isRegular (p : Path) : Bool :=
  match c.tree.node p with
  | some (.file _) => true
  | _ => false

/-- `find <s> -type f`, what it names. -/
def find (s : Str) : List Str :=
  match c.findStart s with
  | none => []
  | some d => (c.tree.all.dedup.filter fun q => d <+: q ∧ c.isRegular q).map fun q =>
      s ++ (q.drop d.length).flatMap fun name => '/' :: name

end Checkout

/-- The lines of what was printed, each text with a newline. -/
def printed (ts : List Str) : List Str := ts.flatMap fun t => t.splitOn '\n'

/-- The characters of the text tools. -/
def chars (b : Bytes) : Str := b.map fun x => Char.ofNat x.toNat

/-! ### Scanning a text -/

/-- `[A-Za-z0-9._-]`. -/
def isTokenChar (ch : Char) : Bool := ch.isAlphanum ∨ ch = '.' ∨ ch = '_' ∨ ch = '-'

/-- The role that a line names, by the anchored pattern of `emit_role_refs`. -/
def roleToken (line : Str) : Option Str :=
  let line := line.dropWhile isAsciiSpace
  match (line.dropPrefix? "name:".toList).or (line.dropPrefix? "role:".toList) with
  | none => none
  | some value =>
    let value := value.dropWhile isAsciiSpace
    let token := (if value.head? = some '"' then value.tail else value).takeWhile isTokenChar
    if token = [] then none else some token

/-- The names before they are looked up. -/
def roleTokens (text : Str) : List Str := (text.splitOn '\n').filterMap roleToken

/-- `sed 's/[[:space:]]#.*$//'`. -/
def uncommented : Str → Str
  | [] => []
  | ch :: line => if isAsciiSpace ch ∧ line.head? = some '#' then [] else ch :: uncommented line

/-- A text that the path pattern matches, of a run of its characters. -/
def endsYaml (s : Str) : Bool :=
  (".yml".toList <:+ s ∧ 4 < s.length) ∨ (".yaml".toList <:+ s ∧ 5 < s.length)

/-- The path literals of a line: in each run of path characters the longest
start that ends in `.yml` or `.yaml`. -/
def linePaths (line : Str) : List Str :=
  (line.splitOnP fun ch => ¬ (isTokenChar ch ∨ ch = '/')).filterMap fun run => (run.inits.filter endsYaml).getLast?

/-- The path literals outside comments. -/
def pathTokens (text : Str) : List Str :=
  ((text.splitOn '\n').filter fun line => (line.dropWhile isAsciiSpace).head? ≠ some '#').flatMap fun line =>
    linePaths (uncommented line)

/-! ### What a file refers to -/

/-- A line of the worklist, by its tag. -/
inductive Item : Type where
  | role (name : Str)
  | shared (path : Str)
deriving DecidableEq

/-- The line without its tag. -/
def Item.text : Item → Str
  | .role name => name
  | .shared path => path

namespace Checkout

variable (c : Checkout)

/-- `-d "${ROLES_DIR}/${ref}"`. -/
def isRole (ref : Str) : Bool := c.isDir (below (c.whole rolesDir) ref)

/-- `emit_role_refs < "$file"`. -/
def emitRoleRefs (file : Str) : List Str :=
  match c.content (c.whole file) with
  | none => []
  | some b => (roleTokens (chars b)).filter c.isRole

/-- `role_tasks`, for a file of a role. -/
def roleTasks (src : Str) : Option Dir :=
  (src.dropPrefix? (rolesDir ++ ['/'])).map fun rest =>
    c.whole (rolesDir ++ '/' :: rest.takeWhile (· ≠ '/') ++ "/tasks".toList)

/-- The directories in which a path of the file is looked for. -/
def searchDirs (src : Str) : List Dir := [c.dirOf src] ++ (c.roleTasks src).toList ++ [c.whole ansibleDir]

/-- The shared file that the literal is in a directory: below `ansible/`, and
not below `ansible/roles/`; as a path from the repository's root. -/
def sharedIn (d : Dir) (tok : Str) : Option Str :=
  if c.isFile (below d tok) then
    match c.cd (d.1, d.2 ++ (comps tok).dropLast), (comps tok).getLast? with
    | some dir, some (.down base) =>
      let canon := dir ++ [base]
      let ansible := c.repo ++ ["ansible".toList]
      if ansible ++ ["roles".toList] <+: canon ∧ canon ≠ ansible ++ ["roles".toList] then none
      else if ansible <+: canon ∧ canon ≠ ansible then some (['/'].intercalate (canon.drop c.repo.length))
      else none
    | _, _ => none
  else none

/-- The shared files that the literal names, in each directory. -/
def sharedOf (src tok : Str) : List Str := (c.searchDirs src).filterMap fun d => c.sharedIn d tok

/-- `emit_shared_refs "$src"`. -/
def emitSharedRefs (src : Str) : List Str :=
  match c.content (c.whole src) with
  | none => []
  | some b => (pathTokens (chars b)).flatMap (c.sharedOf src)

/-- The tagged references of a file. -/
def scan (file : Str) : List Item :=
  (c.emitRoleRefs file).map .role ++ ((printed (c.emitSharedRefs file)).filter (· ≠ [])).map .shared

/-- The YAML files of a role, as `find` names them. -/
def roleYaml (role : Str) : List Str :=
  (c.find (rolesDir ++ '/' :: role)).filter fun file => ".yml".toList <:+ file ∨ ".yaml".toList <:+ file

/-- `files`: the lines of the sorted listing, or the one shared file. -/
def files : Item → List Str
  | .role name => sortedStrs (printed (c.roleYaml name))
  | .shared path => ["../../".toList ++ path]

/-- What an item puts on the worklist. -/
def refs (item : Item) : List Item := (c.files item).flatMap c.scan

/-- The worklist loop, for so many rounds: `seen` when it ends. `resolved` and
`shared` are its roles and its files; the blank lines between are passed over. -/
def closure (stem : Str) (rounds : ℕ) : Option (List Item) := crawl c.refs rounds [] (c.scan (bake stem))

end Checkout

/-! ### The stream -/

def resolved (seen : List Item) : List Str := seen.filterMap fun
  | .role name => some name
  | .shared _ => none

def shared (seen : List Item) : List Str := seen.filterMap fun
  | .role _ => none
  | .shared path => some path

/-- A line of the stream. -/
def line (key : String) (text : Str) : Bytes := encode (key.toList ++ '=' :: text ++ ['\n'])

namespace Checkout

variable (c : Checkout)

/-- `cat`. -/
def cat (s : Str) : Bytes := (c.content (c.whole s)).getD []

/-- What is digested of an item: its name, and the name and content of its files. -/
def digested : Item → Bytes
  | .role name => line "role" name ++
      (sortedStrs (printed (c.find (rolesDir ++ '/' :: name)))).flatMap fun file =>
        line "file" ((file.dropPrefix? "../../".toList).getD file) ++ c.cat file
  | .shared path => line "shared" path ++ c.cat ("../../".toList ++ path)

/-- What `sha256sum` reads. -/
def stream (flags : Flags) (seen : List Item) : Bytes :=
  line "box" flags.box ++ line "bake" (bakeRel flags.bakeStem) ++ line "os_pin" flags.osPin ++
    c.cat pins ++
    (if flags.mqBearing ∧ c.isFile (c.whole mqVersionPin) then encode "mq_version_pin=".toList ++ c.cat mqVersionPin
     else []) ++
    (if flags.components = [] then []
     else line "runtime_pin" flags.runtimePin ++
      (sortedStrs flags.components).flatMap fun item => line "component" item) ++
    c.cat (bake flags.bakeStem) ++
    (sortedStrs (resolved seen).dedup).flatMap (fun name => c.digested (.role name)) ++
    (sortedStrs (shared seen).dedup).flatMap (fun path => c.digested (.shared path))

end Checkout

end ManifestHash
end MqResiliency
