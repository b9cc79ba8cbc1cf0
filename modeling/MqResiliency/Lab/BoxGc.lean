/-
# The collection of boxes

Two passes of `box.py`. `gcOrphanedImages` deletes from a libvirt pool the base
images that no box needs: of each box it keeps the image that the registered
box resolves to, or else the newest, and it leaves the images that a disk in
the pool backs onto. `cleanUnreferenced` removes the registration and the cache
files of the boxes that no selection of the catalog resolves to; their images
are then dead to the first pass.

Both run against the answers of `virsh`, Vagrant and the file system, which may
change between two commands.
-/
import MqResiliency.Lab.Fleet
import MqResiliency.Lab.LoadCatalog
import MqResiliency.Lib.Trace

namespace MqResiliency
namespace Lab
namespace BoxGc

open Py Prog

/-! ### Names -/

/-- `RETIRED_BOX_NAMES`. -/
def retiredBoxNames : List Str := ["obs-ubuntu2404".toList, "infra-ubuntu2404".toList, "mq-ubuntu2404".toList,
  "mq-nativeha-ubuntu".toList, "pcmk-ubuntu".toList, "rhel/9.6-x86_64".toList]

/-- The stem of a box's volumes: `name.replace("/", "-VAGRANTSLASH-")`. -/
def volumeStem (name : Str) : Str := name.flatMap fun c => if c = '/' then "-VAGRANTSLASH-".toList else [c]

/-- `_retired_volume_stems()`. -/
def retiredVolumeStems : List Str := retiredBoxNames.map volumeStem

/-- The text before a suffix. -/
def dropSuffix (suffix s : Str) : Option Str :=
  if suffix.isSuffixOf s then some (s.take (s.length - suffix.length)) else none

/-- The text after a prefix. -/
def dropPrefix (pre s : Str) : Option Str := if pre.isPrefixOf s then some (s.drop pre.length) else none

/-- Where `$` looks: before a last line break. -/
def beforeEnd (s : Str) : Str := if s.getLast? = some '\n' then s.dropLast else s

/-- `_BOX_IMAGE_RE.match(name)`: the stem, and the digits of the timestamp. -/
def boxImage (name : Str) : Option (Str × Str) := do
  let front ← dropSuffix "_box.img".toList (beforeEnd name)
  let digits := front.rtakeWhile fun c => (decimal c).isSome
  let stem ← dropSuffix "_vagrant_box_image_0_".toList (front.rdropWhile fun c => (decimal c).isSome)
  if digits ≠ [] ∧ stem ≠ [] ∧ '\n' ∉ stem then some (stem, digits) else none

/-- The ends of a fat box's cache files. -/
def fatCacheEnds : List Str :=
  Load.hostArches.flatMap fun arch =>
    [".box".toList, ".manifest-hash".toList, ".components.json".toList].map fun ext => '-' :: arch ++ ext

/-- `_FAT_CACHE_RE.match(name)`: the box. -/
def fatCache (name : Str) : Option Str :=
  (fatCacheEnds.findSome? fun e => dropSuffix e (beforeEnd name)).filter fun box => box ≠ [] ∧ '\n' ∉ box

/-- `_OS_TOKEN_RE.fullmatch(text)`, of a known family. -/
def isOsToken (text : Str) : Bool :=
  let family := text.takeWhile Char.isLower
  let major := text.dropWhile Char.isLower
  family ≠ [] && major ≠ [] && major.all Char.isDigit && isFamily family

/-- `generated_box_name(name, catalog)`. -/
def generatedBoxName (name : Str) (cat : Catalog) : Bool :=
  cat.roles.keys.any fun role => (dropPrefix (role ++ ['-']) name).any isOsToken

/-- `path.stem`, of a file name. -/
def fileStem (name : Str) : Str :=
  let front := (name.rdropWhile (· ≠ '.')).dropLast
  if front.all (· = '.') then name else front

/-! ### Commands -/

/-- What the passes ask of their surroundings. -/
inductive Cmd : Type where
  /-- `virsh vol-list --pool pool`. -/
  | volList (pool : Str)
  /-- `virsh vol-dumpxml name --pool pool`. -/
  | volDump (name pool : Str)
  /-- `virsh vol-delete name --pool pool`. -/
  | volDelete (name pool : Str)
  /-- The registered boxes that have a version `0`, and the `box.img` files
  below it: the directory that each is in, and its time in seconds. -/
  | boxStore
  /-- `vagrant box list`. -/
  | boxList
  /-- `vagrant box remove name`. -/
  | boxRemove (name : Str)
  /-- The names of the files in the cache directory, sorted. -/
  | cacheFiles
  /-- `unlink` of a file. -/
  | unlink (path : Str)
deriving DecidableEq

/-- An exit status, and the output. -/
abbrev Output : Type := ℤ × Str

abbrev Ans : Cmd → Type
  | .volList _ => Output
  | .volDump _ _ => Output
  | .volDelete _ _ => Output
  | .boxStore => List (Str × List (Str × ℤ))
  | .boxList => Str
  | .boxRemove _ => Output
  | .cacheFiles => List Str
  | .unlink _ => Unit

/-- How a pass ends before its end. -/
inductive Halt : Type where
  /-- `PoolAbsentError`. -/
  | poolAbsent (msg : Str)
  /-- `VolumeVanishedError`. -/
  | volumeVanished (msg : Str)
  /-- Any other `RuntimeError`. -/
  | runtime (msg : Str)
  /-- What the version layer raises, and the `ValueError` of a conversion. -/
  | failed (e : Exn Err)
  /-- `typer.Exit(code)`. -/
  | exit (code : ℤ)
deriving DecidableEq

abbrev Gc (α : Type) : Type := Prog Cmd Ans Halt α

/-- A computation of the version layer, or a conversion. -/
def lift {α : Type} (c : V α) : Gc α :=
  match c.exec with
  | .ok a => pure a
  | .error e => throw (.failed e)

/-- `int(digits)`. -/
def intOf (digits : Str) : Gc ℤ :=
  match int digits with
  | some n => pure n
  | none => throw (.failed .valueError)

/-- `out.lower()`, on ASCII letters: the markers are of these. -/
def lower (s : Str) : Str := s.map Char.toLower

/-- The failure of a `virsh` command, as a message. -/
def virshFailed (args : List Str) (r : Output) : Str :=
  ["virsh ".toList, [' '].intercalate args, " failed (rc=".toList, Conv.textOf r.1, "): ".toList, r.2].flatten

/-! ### The pool -/

/-- The volume that a line of `vol-list` names. -/
def listedName (raw : Str) : Option Str :=
  let line := trim raw
  if line = [] ∨ "Name".toList.isPrefixOf line ∨ line.all (· = '-') then none
  else (words line).head?

/-- `_POOL_ABSENT_MARKERS`. -/
def poolAbsentMarkers : List Str :=
  ["storage pool not found".toList, "no storage pool with matching name".toList]

/-- `_VOLUME_VANISHED_MARKERS`. -/
def volumeVanishedMarkers : List Str :=
  ["storage volume not found".toList, "no storage vol with matching".toList]

/-- One of these is in the text. -/
def marked (markers : List Str) (text : Str) : Bool := markers.any fun m => contains (lower text) m

/-- `_pool_volume_names(pool)`. -/
def poolVolumeNames (pool : Str) : Gc (List Str) := do
  let r : Output ← ask (Cmd.volList pool)
  if r.1 ≠ 0 then
    let msg := virshFailed ["vol-list".toList, "--pool".toList, pool] r
    if marked poolAbsentMarkers r.2 then throw (.poolAbsent msg) else throw (.runtime msg)
  else pure ((splitlines r.2).filterMap listedName)

/-- `re.search(r"<allocation unit='bytes'>(\d+)</allocation>", xml)`. -/
def allocationRe : Re := .seqs [.lit "<allocation unit='bytes'>".toList, .group (.plus .digit),
  .lit "</allocation>".toList]

/-- `re.search(r"<backingStore>.*?<path>([^<]+)</path>", xml, re.DOTALL)`. -/
def backingRe : Re := .seqs [.lit "<backingStore>".toList, .star false (.char fun _ => true),
  .lit "<path>".toList, .group (.plus (.noneOf ['<'])), .lit "</path>".toList]

/-- The group of the first match. -/
def group1 (r : Re) (s : Str) : Option Str := (r.searchFrom false none s).bind fun m => m.2.held

/-- `Path(p).name`. -/
def baseName (p : Str) : Str := ((p.splitOn '/').filter fun c => c ≠ [] ∧ c ≠ ['.']).getLastD []

/-- The file that a volume backs onto, as the code reads it. -/
def backing (xml : Str) : Option Str := (group1 backingRe xml).map fun p => baseName (trim p)

/-- `_vol_detail(name, pool)`. -/
def volDetail (name pool : Str) : Gc (ℤ × Option Str) := do
  let r : Output ← ask (Cmd.volDump name pool)
  if r.1 ≠ 0 then
    let msg := virshFailed ["vol-dumpxml".toList, name, "--pool".toList, pool] r
    if marked volumeVanishedMarkers r.2 then throw (.volumeVanished msg) else throw (.runtime msg)
  else
    match group1 allocationRe r.2 with
    | some digits => do
      let alloc ← intOf digits
      return (alloc, backing r.2)
    | none => pure (0, backing r.2)

/-- `_vol_delete(name, pool)`. -/
def volDelete (name pool : Str) : Gc Unit := do
  let r : Output ← ask (Cmd.volDelete name pool)
  if r.1 = 0 ∨ marked ["not found".toList, "no storage vol".toList] r.2 then pure ()
  else throw (.runtime (["virsh vol-delete ".toList, name, " failed (rc=".toList, Conv.textOf r.1, "): ".toList,
    r.2].flatten))

/-- `_PoolScan`. -/
structure PoolScan : Type where
  names : List Str
  alloc : Dict Str ℤ
  inUse : List Str
  vanished : List Str

/-- The base images of each box, with their timestamps. -/
abbrev Images : Type := Dict Str (List (ℤ × Str))

/-- The images among these names. -/
def boxImagesFrom (out : Images) : List Str → Gc Images
  | [] => pure out
  | name :: names =>
    match boxImage name with
    | some (stem, digits) => do
      let ts ← intOf digits
      boxImagesFrom (out.push stem (ts, name)) names
    | none => boxImagesFrom out names

/-- `scan.box_images()`. -/
def PoolScan.boxImages (scan : PoolScan) : Gc Images := boxImagesFrom .empty scan.names

/-- `scan.in_use_stems()`. -/
def PoolScan.inUseStems (scan : PoolScan) : List Str := scan.inUse.filterMap fun n => (boxImage n).map Prod.fst

/-- A volume that was read. -/
def PoolScan.add (scan : PoolScan) (name : Str) (alloc : ℤ) (backing : Option Str) : PoolScan :=
  { scan with
    names := scan.names ++ [name]
    alloc := scan.alloc.set name alloc
    inUse := scan.inUse ++ (backing.filter (· ≠ [])).toList }

/-- The volumes of a listing. -/
def scanFrom (pool : Str) (scan : PoolScan) : List Str → Gc PoolScan
  | [] => pure scan
  | name :: names => do
    let detail ← tryCatch (some <$> volDetail name pool) fun e =>
      match e with
      | .volumeVanished _ => pure none
      | e => throw e
    match detail with
    | some (alloc, backing) => scanFrom pool (scan.add name alloc backing) names
    | none => scanFrom pool { scan with vanished := scan.vanished ++ [name] } names

/-- `_scan_pool(pool)`. -/
def scanPool (pool : Str) : Gc PoolScan := do
  let names ← poolVolumeNames pool
  scanFrom pool ⟨[], .empty, [], []⟩ names

/-! ### Orphaned images -/

/-- The volume of a registered `box.img`. -/
def currentVolume (box : Str) (mtime : ℤ) : Str :=
  box ++ "_vagrant_box_image_0_".toList ++ Conv.textOf mtime ++ "_box.img".toList

/-- The volumes that a registered box resolves to. -/
def boxVolumes (box : Str × List (Str × ℤ)) : List Str :=
  (box.2.filter (·.1 = "libvirt".toList)).map fun img => currentVolume box.1 img.2

/-- `_current_box_volumes()`; a box without an image has no entry. -/
def currentBoxVolumes (store : List (Str × List (Str × ℤ))) : Dict Str (List Str) :=
  .ofList ((store.filter fun box => boxVolumes box ≠ []).map fun box => (box.1, boxVolumes box))

/-- `GcResult`. -/
structure GcResult : Type where
  deleted : List Str
  freedBytes : ℤ
  kept : List Str
  skippedInUse : List Str
  dryRun : Bool
  vanished : List Str
  absentPool : Option Str
deriving DecidableEq

/-- The order of timestamped names. -/
def imageLe (a b : ℤ × Str) : Bool := a.1 < b.1 || (a.1 = b.1 && strLe a.2 b.2)

/-- `sorted(images)`. -/
def sortedImages (images : List (ℤ × Str)) : List (ℤ × Str) := images.insertionSort fun a b => imageLe a b = true

/-- The images of a box that are kept. -/
def keepOf (dead : List Str) (current : Dict Str (List Str)) (stem : Str) (images : List (ℤ × Str)) : List Str :=
  if stem ∈ dead then []
  else
    match current.get? stem with
    | some volumes => (images.map Prod.snd).filter (· ∈ volumes)
    | none => (images.getLast?.map Prod.snd).toList

section
variable (dryRun : Bool) (pool : Str) (scan : PoolScan)

/-- The images of one box. -/
def gcImages (keep : List Str) (acc : GcResult) : List (ℤ × Str) → Gc GcResult
  | [] => pure acc
  | (_, name) :: images =>
    if name ∈ keep then gcImages keep { acc with kept := acc.kept ++ [name] } images
    else if name ∈ scan.inUse then
      gcImages keep { acc with skippedInUse := acc.skippedInUse ++ [name] } images
    else do
      if dryRun then pure () else volDelete name pool
      gcImages keep { acc with
        deleted := acc.deleted ++ [name]
        freedBytes := acc.freedBytes + (scan.alloc.get? name).getD 0 } images

/-- The images of every box. -/
def gcStems (dead : List Str) (current : Dict Str (List Str)) (acc : GcResult) :
    List (Str × List (ℤ × Str)) → Gc GcResult
  | [] => pure acc
  | (stem, images) :: stems => do
    let acc ← gcImages dryRun pool scan (keepOf dead current stem (sortedImages images)) acc (sortedImages images)
    gcStems dead current acc stems

end

/-- `sorted(scan.box_images().items())`. -/
def sortedStems (imgs : Images) : List (Str × List (ℤ × Str)) :=
  imgs.items.insertionSort fun a b => strLe a.1 b.1 = true

/-- The pass over a pool that was read. -/
def gcScan (dryRun : Bool) (pool : Str) (dead : List Str) (current : Dict Str (List Str)) (scan : PoolScan) :
    Gc GcResult := do
  let imgs ← scan.boxImages
  gcStems dryRun pool scan dead current ⟨[], 0, [], [], dryRun, scan.vanished, none⟩ (sortedStems imgs)

/-- `gc_orphaned_images(dry_run, pool, dead_stems)`. -/
def gcOrphanedImages (dryRun : Bool) (pool : Str) (deadStems : List Str) : Gc GcResult := do
  let store : List (Str × List (Str × ℤ)) ← ask Cmd.boxStore
  let scan ← tryCatch (some <$> scanPool pool) fun e =>
    match e with
    | .poolAbsent _ => pure none
    | e => throw e
  match scan with
  | none => pure ⟨[], 0, [], [], dryRun, [], some pool⟩
  | some scan => gcScan dryRun pool (retiredVolumeStems ++ deadStems) (currentBoxVolumes store) scan

/-! ### Unreferenced boxes -/

/-- `UnreferencedBox`. -/
structure UnreferencedBox : Type where
  name : Str
  registered : Bool
  cacheFiles : List Str
  hasVolumes : Bool
deriving DecidableEq

/-- `UnreferencedResult`. -/
structure UnreferencedResult : Type where
  removed : List UnreferencedBox
  inUse : List UnreferencedBox
  resolvable : List Str
  foreign : List Str
  dryRun : Bool
deriving DecidableEq

/-- `result.dead_stems`. -/
def UnreferencedResult.deadStems (r : UnreferencedResult) : List Str := r.removed.map UnreferencedBox.name

/-- A line of `vagrant box list`: the box. -/
def listedBox (raw : Str) : Option Str :=
  let line := trim raw
  if line = [] ∨ "there are no".toList.isPrefixOf (lower line) then none
  else some (line.takeWhile (· ≠ ' '))

/-- `_registered_boxes()`: the names, each once. -/
def registeredBoxes (text : Str) : List Str := addHosts [] ((splitlines text).filterMap listedBox)

/-- `_vagrant_box_remove(name)`. -/
def vagrantBoxRemove (name : Str) : Gc Unit := do
  let r : Output ← ask (Cmd.boxRemove name)
  if r.1 = 0 ∨ marked ["not installed".toList] r.2 then pure ()
  else throw (.exit r.1)

/-- What a look at the host finds: the registered boxes, the files of each
cached box, the boxes with images in the pool, and those that a disk backs onto. -/
structure Found : Type where
  registered : List Str
  cached : Dict Str (List Str)
  pooled : List Str
  inUse : List Str
  foreign : List Str

/-- The pool's part. -/
def lookAtPool (pool : Str) (cat : Catalog) : Gc (List Str × List Str) :=
  tryCatch (do
    let scan ← scanPool pool
    let imgs ← scan.boxImages
    return (imgs.keys.filter fun stem => generatedBoxName stem cat, scan.inUseStems)) fun e =>
      match e with
      | .poolAbsent _ => pure ([], [])
      | e => throw e

/-- A cache file that the retired pass owns. -/
def isRetiredFile (file : Str) : Bool :=
  (fatCache file).any (· ∈ retiredBoxNames) || fileStem file ∈ retiredBoxNames

/-- The box whose cache a file is part of, if it is a candidate. -/
def cachedBox (cat : Catalog) (file : Str) : Option Str := (fatCache file).filter fun box => generatedBoxName box cat

/-- `cached.setdefault(box, []).append(path)`. -/
def addFile (cat : Catalog) (dir : Str) (out : Dict Str (List Str)) (file : Str) : Dict Str (List Str) :=
  match cachedBox cat file with
  | some box => out.push box (dir ++ '/' :: file)
  | none => out

/-- The look at the host; `dir` is the cache directory. -/
def lookAtHost (pool dir : Str) (cat : Catalog) : Gc Found := do
  let (pooled, inUse) ← lookAtPool pool cat
  let text : Str ← ask Cmd.boxList
  let names := (registeredBoxes text).filter (· ∉ retiredBoxNames)
  let files : List Str ← ask Cmd.cacheFiles
  let files := files.filter fun f => isRetiredFile f = false
  return {
    registered := names.filter fun n => generatedBoxName n cat
    cached := files.foldl (addFile cat dir) .empty
    pooled := pooled
    inUse := inUse
    foreign := names.filter (fun n => generatedBoxName n cat = false) ++
      (files.filter fun f => (cachedBox cat f).isNone).map fun f => dir ++ '/' :: f }

/-- The candidates: `sorted((registered | set(cached) | pooled) - retired)`. -/
def candidates (f : Found) : List Str :=
  sortedStrs ((addHosts [] (f.registered ++ f.cached.keys ++ f.pooled)).filter (· ∉ retiredBoxNames))

/-- The box, as found. -/
def Found.boxOf (f : Found) (name : Str) : UnreferencedBox :=
  ⟨name, name ∈ f.registered, (f.cached.get? name).getD [], name ∈ f.pooled⟩

/-- Each file of the box, and its registration. -/
def removeBox (b : UnreferencedBox) : Gc Unit := do
  unlinkAll b.cacheFiles
  if b.registered then vagrantBoxRemove b.name else pure ()
where
  unlinkAll : List Str → Gc Unit
    | [] => pure ()
    | file :: files => do
      let _ ← ask (Cmd.unlink file)
      unlinkAll files

/-- The candidates, one by one. -/
def cleanFrom (dryRun : Bool) (shielded : List Str) (f : Found) (acc : UnreferencedResult) :
    List Str → Gc UnreferencedResult
  | [] => pure acc
  | name :: names =>
    if name ∈ shielded then cleanFrom dryRun shielded f { acc with resolvable := acc.resolvable ++ [name] } names
    else if name ∈ f.inUse then
      cleanFrom dryRun shielded f { acc with inUse := acc.inUse ++ [f.boxOf name] } names
    else do
      if dryRun then pure () else removeBox (f.boxOf name)
      cleanFrom dryRun shielded f { acc with removed := acc.removed ++ [f.boxOf name] } names

/-- `clean_unreferenced(dry_run, pool, boxes_dir, catalog)`; `names` computes the
names of the boxes that resolve. -/
def cleanUnreferenced (dryRun : Bool) (pool dir : Str) (cat : Catalog) (names : V (List Str)) :
    Gc UnreferencedResult := do
  let shielded ← lift names
  let f ← lookAtHost pool dir cat
  cleanFrom dryRun shielded f ⟨[], [], [], sortedStrs f.foreign, dryRun⟩ (candidates f)

/-- The names that resolve, with the roles that the topology gives each stack. -/
def resolvableNames (printable : Char → Bool) (topo : Topology) (cat : Catalog) (fleet : List Str) :
    V (List Str) := do
  let roles ← stackRoles printable topo cat
  resolvableBoxNames printable cat fleet roles

/-- `box_gc(dry_run, unreferenced)`: the two passes, after the retired boxes'. -/
def collect (dryRun : Bool) (pool dir : Str) (cat : Catalog) (names : V (List Str)) :
    Gc (UnreferencedResult × GcResult) := do
  let r ← cleanUnreferenced dryRun pool dir cat names
  let g ← gcOrphanedImages dryRun pool r.deadStems
  return (r, g)

end BoxGc
end Lab
end MqResiliency
