/-
# The rows of `drbdsetup status`

A status text is blocks, one for each resource: a line at column 0 with the
role, and indented lines for its volumes, its peer connections and their
volumes (`Status`). A row should say no better of its resource than the worst
that its block has (`Honest`).

`parse_drbd` keeps the last of each kind (`row_eq`), and nothing of another
block (`get?_parseDrbd`). So its rows are honest if and only if the last is
the worst in every block (`neverHides_iff`), which it need not be with two peers.

Key definitions: `Status`, `Honest`, `LastIsWorst`. Key theorem: `neverHides_iff`.
-/
import MqResiliency.Obs.RaiseLaw

namespace MqResiliency
namespace Obs
namespace ClusterState

open Py

/-! ### Texts -/

/-- A line that starts no block. -/
def Indented (raw : Str) : Prop := raw.take 1 ∈ [[], [' '], ['\t']]

instance (raw : Str) : Decidable (Indented raw) := inferInstanceAs (Decidable (_ ∈ _))

/-- The lines of one resource. -/
structure Block : Type where
  header : Str
  body : List Str
  role : Str
  starts : ¬ Indented header
  hasRole : (tokens header).get? "role".toList = some role
  indented : ∀ raw ∈ body, Indented raw
  readable : ∀ raw ∈ header :: body, DrbdLineReadable raw

namespace Block

def name (b : Block) : Str := (words b.header).headD []

def lines (b : Block) : List Str := b.header :: b.body

/-- A local volume has a disk state. -/
def disks (b : Block) : List Str := b.lines.filterMap fun raw => (tokens raw).get? "disk".toList

/-- A peer has a connection state. -/
def connections (b : Block) : List Str := b.lines.filterMap fun raw => (tokens raw).get? "connection".toList

/-- A volume of a peer is done so far while it resyncs. -/
def dones (b : Block) : List PyFloat := b.lines.filterMap fun raw => ((tokens raw).get? "done".toList).bind float

/-- A volume of a peer is out of sync by so much. -/
def outOfSyncs (b : Block) : List ℤ := b.lines.filterMap fun raw => ((tokens raw).get? "out-of-sync".toList).bind Py.int

end Block

/-- A status text, with a block for each resource. -/
structure Status : Type where
  text : Str
  blocks : List Block
  lines : splitlines text = blocks.flatMap Block.lines
  distinct : (blocks.map Block.name).Nodup

/-! ### The property -/

def connected : Str := "Connected".toList

def upToDate : Str := "UpToDate".toList

/-- A row says no better of a resource than the worst of its block. -/
structure Honest (b : Block) (d : Drbd) : Prop where
  conn : d.conn = connected → ∀ c ∈ b.connections, c = connected
  disk : d.disk = upToDate → ∀ v ∈ b.disks, v = upToDate
  outOfSync : ∀ n ∈ b.outOfSyncs, n ≤ d.outOfSyncBytes
  resync : ∀ p ∈ b.dones, d.resyncPct.value.le p.value
  synced : d.resyncPct.value = inSync.value → ∀ p ∈ b.dones, p.value = inSync.value

/-- What the lines of a text are parsed to. -/
def parseLines (ls : List Str) : Option (Dict Str Drbd) := (ls.foldlM drbdLine ⟨.empty, none⟩).map (·.out)

/-- Every resource has an honest row, the one that its block alone is parsed to. -/
def NeverHides (s : Status) : Prop :=
  ∃ out, parseDrbd s.text = some out ∧ (∀ k ∈ out.keys, ∃ b ∈ s.blocks, b.name = k) ∧
    ∀ b ∈ s.blocks, ∃ d alone, out.get? b.name = some d ∧ parseLines b.lines = some alone ∧
      alone.get? b.name = some d ∧ Honest b d

/-- The last of each kind is the worst. -/
structure LastIsWorst (b : Block) : Prop where
  conn : b.connections.getLast? = some connected → ∀ c ∈ b.connections, c = connected
  disk : b.disks.getLast? = some upToDate → ∀ v ∈ b.disks, v = upToDate
  outOfSync : ∀ last, b.outOfSyncs.getLast? = some last → ∀ n ∈ b.outOfSyncs, n ≤ last
  resync : ∀ last, b.dones.getLast? = some last → ∀ p ∈ b.dones, last.value.le p.value
  synced : ∀ last, b.dones.getLast? = some last → last.value = inSync.value → ∀ p ∈ b.dones, p.value = inSync.value

/-! ### Rows -/

/-- A row that is refined by what there is of these, one after the other. -/
def refined (d : Drbd) (disk conn : Option Str) (done : Option PyFloat) (outOfSync : Option ℤ) : Drbd :=
  let d := disk.elim d fun disk => { d with disk }
  let d := conn.elim d fun conn => { d with conn }
  let d := done.elim d fun resyncPct => { d with resyncPct }
  outOfSync.elim d fun outOfSyncBytes => { d with outOfSyncBytes }

theorem refined_eq (d : Drbd) (disk conn : Option Str) (done : Option PyFloat) (outOfSync : Option ℤ) :
    refined d disk conn done outOfSync = ⟨d.role, disk.getD d.disk, conn.getD d.conn, done.getD d.resyncPct,
      outOfSync.getD d.outOfSyncBytes⟩ := by
  cases disk <;> cases conn <;> cases done <;> cases outOfSync <;> rfl

/-- What a line makes of the row of its resource. -/
def lineRow (d : Drbd) (raw : Str) : Drbd :=
  refined d ((tokens raw).get? "disk".toList) ((tokens raw).get? "connection".toList)
    (((tokens raw).get? "done".toList).bind float) (((tokens raw).get? "out-of-sync".toList).bind Py.int)

/-- The row of a resource before anything is known of it. -/
def Block.initial (b : Block) : Drbd := ⟨b.role, "Unknown".toList, "Unknown".toList, inSync, 0⟩

def Block.row (b : Block) : Drbd := b.lines.foldl lineRow b.initial

/-- Where each item may set a value, the last that does has set it. -/
theorem foldl_getD {α β : Type} (read : α → Option β) (v : β) (as : List α) :
    as.foldl (fun v a => (read a).getD v) v = (as.filterMap read).getLast?.getD v := by
  induction as using List.reverseRecOn with
  | nil => rfl
  | append_singleton as a ih =>
    rw [List.foldl_append, ih, List.filterMap_append]
    cases h : read a with
    | none => simp [h]
    | some b => simp [h]

/-- **A row has the last of each kind.** -/
theorem row_eq (b : Block) : b.row =
    ⟨b.role, b.disks.getLast?.getD "Unknown".toList, b.connections.getLast?.getD "Unknown".toList,
      b.dones.getLast?.getD inSync, b.outOfSyncs.getLast?.getD 0⟩ := by
  have hfields : ∀ (ls : List Str) (d : Drbd), ls.foldl lineRow d =
      ⟨d.role, ls.foldl (fun v raw => ((tokens raw).get? "disk".toList).getD v) d.disk,
        ls.foldl (fun v raw => ((tokens raw).get? "connection".toList).getD v) d.conn,
        ls.foldl (fun v raw => (((tokens raw).get? "done".toList).bind float).getD v) d.resyncPct,
        ls.foldl (fun v raw => (((tokens raw).get? "out-of-sync".toList).bind Py.int).getD v) d.outOfSyncBytes⟩ := by
    intro ls
    induction ls with
    | nil => exact fun d => rfl
    | cons raw ls ih =>
      intro d
      rw [List.foldl_cons, ih, lineRow, refined_eq]
      rfl
  rw [Block.row, hfields]
  simp only [foldl_getD]
  rfl

/-! ### Blocks -/

/-- The scan is at the resource `name`, which has the row `d`; the others have
the rows `base`. -/
def At (base : Str → Option Drbd) (name : Str) (d : Drbd) (s : Scan) : Prop :=
  s.cur = some name ∧ s.out.get? = Function.update base name (some d)

variable {base : Str → Option Drbd} {name : Str} {d : Drbd} {s : Scan}

theorem At.update (h : At base name d s) (f : Drbd → Drbd) : At base name (f d) (s.update f) := by
  obtain ⟨hcur, hget⟩ := h
  unfold Scan.update
  rw [hcur]
  refine ⟨rfl, funext fun k => ?_⟩
  rw [Dict.get?_mapValues, hget]
  by_cases hk : k = name
  · subst hk
    simp
  · simp [hk]

theorem At.refine (h : At base name d s) (token : Option Str) (f : Str → Drbd → Drbd) :
    At base name (token.elim d fun t => f t d) (s.refine token f) := by
  cases token with
  | none => exact h
  | some t => exact h.update (f t)

theorem At.convert {α : Type} (h : At base name d s) {token : Option Str} {read : Str → Option α}
    (hread : ∀ t, token = some t → (read t).isSome) (f : α → Drbd → Drbd) :
    ∃ s', s.convert token read f = some s' ∧ At base name ((token.bind read).elim d fun a => f a d) s' := by
  cases token with
  | none => exact ⟨s, rfl, h⟩
  | some t =>
    obtain ⟨a, ha⟩ := Option.isSome_iff_exists.mp (hread t rfl)
    refine ⟨s.update (f a), ?_, ?_⟩
    · rw [Scan.convert, ha]
      rfl
    · rw [Option.bind_some, ha]
      exact h.update (f a)

/-- What follows the header in a line. -/
def Scan.rest (s : Scan) (raw : Str) : Option Scan :=
  let ts := tokens raw
  let s := s.refine (ts.get? "disk".toList) fun disk d => { d with disk }
  let s := s.refine (ts.get? "connection".toList) fun conn d => { d with conn }
  (s.convert (ts.get? "done".toList) float fun resyncPct d => { d with resyncPct }).bind fun s =>
    s.convert (ts.get? "out-of-sync".toList) Py.int fun outOfSyncBytes d => { d with outOfSyncBytes }

theorem drbdLine_eq (s : Scan) (raw : Str) : drbdLine s raw = (s.header raw (tokens raw)).rest raw := rfl

theorem At.rest (h : At base name d s) {raw : Str} (hread : DrbdLineReadable raw) :
    ∃ s', s.rest raw = some s' ∧ At base name (lineRow d raw) s' := by
  have hdisk := h.refine ((tokens raw).get? "disk".toList) fun disk d => { d with disk }
  have hconn := hdisk.refine ((tokens raw).get? "connection".toList) fun conn d => { d with conn }
  obtain ⟨s₁, hs₁, hdone⟩ := hconn.convert hread.1 fun resyncPct d => { d with resyncPct }
  obtain ⟨s₂, hs₂, hsync⟩ := hdone.convert hread.2 fun outOfSyncBytes d => { d with outOfSyncBytes }
  refine ⟨s₂, ?_, hsync⟩
  unfold Scan.rest
  simp only [hs₁, Option.bind_some]
  exact hs₂

/-- An indented line refines the row. -/
theorem At.line (h : At base name d s) {raw : Str} (hin : Indented raw) (hread : DrbdLineReadable raw) :
    ∃ s', drbdLine s raw = some s' ∧ At base name (lineRow d raw) s' := by
  have hheader : s.header raw (tokens raw) = s := by
    unfold Scan.header
    split
    · exact if_pos hin
    · rfl
  rw [drbdLine_eq, hheader]
  exact h.rest hread

theorem At.body : ∀ {ls : List Str} {d : Drbd} {s : Scan}, At base name d s → (∀ raw ∈ ls, Indented raw) →
    (∀ raw ∈ ls, DrbdLineReadable raw) → ∃ s', ls.foldlM drbdLine s = some s' ∧ At base name (ls.foldl lineRow d) s'
  | [], _, s, h, _, _ => ⟨s, rfl, h⟩
  | raw :: ls, d, s, h, hin, hread => by
    obtain ⟨s₁, hline, h₁⟩ := h.line (hin raw List.mem_cons_self) (hread raw List.mem_cons_self)
    obtain ⟨s₂, hlines, h₂⟩ := At.body h₁ (fun l hl => hin l (List.mem_cons_of_mem raw hl))
      fun l hl => hread l (List.mem_cons_of_mem raw hl)
    refine ⟨s₂, ?_, h₂⟩
    rw [List.foldlM_cons, hline]
    exact hlines

/-- **A block sets its own row**, whatever the scan was at. -/
theorem foldlM_block (b : Block) (s : Scan) :
    ∃ s', b.lines.foldlM drbdLine s = some s' ∧ At s.out.get? b.name b.row s' := by
  have hheader : s.header b.header (tokens b.header) = ⟨s.out.set b.name b.initial, some b.name⟩ := by
    unfold Scan.header
    rw [b.hasRole]
    exact if_neg b.starts
  have hstart : At s.out.get? b.name b.initial (s.header b.header (tokens b.header)) := by
    rw [hheader]
    refine ⟨rfl, funext fun k => ?_⟩
    rw [Dict.get?_set, Function.update_apply]
  obtain ⟨s₁, hline, h₁⟩ := hstart.rest (b.readable b.header List.mem_cons_self)
  obtain ⟨s₂, hbody, h₂⟩ := h₁.body b.indented fun raw hraw => b.readable raw (List.mem_cons_of_mem b.header hraw)
  refine ⟨s₂, ?_, h₂⟩
  rw [Block.lines, List.foldlM_cons, drbdLine_eq, hline]
  exact hbody

/-! ### The status -/

/-- The rows of blocks, over those of `base`. -/
def rowsOver (base : Str → Option Drbd) (bs : List Block) : Str → Option Drbd :=
  bs.foldl (fun rows b => Function.update rows b.name (some b.row)) base

theorem foldlM_blocks : ∀ (bs : List Block) (s : Scan),
    ∃ s', (bs.flatMap Block.lines).foldlM drbdLine s = some s' ∧ s'.out.get? = rowsOver s.out.get? bs
  | [], s => ⟨s, rfl, rfl⟩
  | b :: bs, s => by
    obtain ⟨s₁, hblock, -, hget⟩ := foldlM_block b s
    obtain ⟨s₂, hblocks, hrows⟩ := foldlM_blocks bs s₁
    refine ⟨s₂, ?_, ?_⟩
    · rw [List.flatMap_cons, List.foldlM_append, hblock]
      exact hblocks
    · rw [hrows, hget]
      rfl

theorem rowsOver_of_not_mem {k : Str} : ∀ {bs : List Block} (base : Str → Option Drbd), k ∉ bs.map Block.name →
    rowsOver base bs k = base k
  | [], _, _ => rfl
  | b :: bs, base, hk => by
    obtain ⟨hne, hrest⟩ : k ≠ b.name ∧ k ∉ bs.map Block.name := by simpa using hk
    show rowsOver (Function.update base b.name (some b.row)) bs k = base k
    rw [rowsOver_of_not_mem _ hrest, Function.update_of_ne hne]

theorem rowsOver_of_mem {b : Block} : ∀ {bs : List Block} (base : Str → Option Drbd), (bs.map Block.name).Nodup →
    b ∈ bs → rowsOver base bs b.name = some b.row
  | [], _, _, hb => absurd hb List.not_mem_nil
  | b' :: bs, base, hnodup, hb => by
    obtain ⟨hnot, hrest⟩ := List.nodup_cons.mp hnodup
    show rowsOver (Function.update base b'.name (some b'.row)) bs b.name = some b.row
    rcases List.mem_cons.mp hb with rfl | hb
    · rw [rowsOver_of_not_mem _ hnot, Function.update_self]
    · exact rowsOver_of_mem _ hrest hb

/-- **The rows of a status**: of every block its own, and no others. -/
theorem get?_parseDrbd (s : Status) : ∃ out, parseDrbd s.text = some out ∧
    (∀ b ∈ s.blocks, out.get? b.name = some b.row) ∧ ∀ k ∈ out.keys, ∃ b ∈ s.blocks, b.name = k := by
  obtain ⟨s', hlines, hrows⟩ := foldlM_blocks s.blocks ⟨.empty, none⟩
  refine ⟨s'.out, ?_, fun b hb => ?_, fun k hk => ?_⟩
  · rw [parseDrbd, s.lines, hlines]
    rfl
  · rw [hrows]
    exact rowsOver_of_mem _ s.distinct hb
  · by_contra hno
    have hnot : k ∉ s.blocks.map Block.name := fun hmem => hno (List.mem_map.mp hmem)
    have hsome := Dict.get?_isSome.mpr hk
    rw [hrows, rowsOver_of_not_mem _ hnot] at hsome
    cases hsome

/-- A block alone gets the same row. -/
theorem get?_parseLines (b : Block) : ∃ alone, parseLines b.lines = some alone ∧ alone.get? b.name = some b.row := by
  obtain ⟨s', hlines, -, hget⟩ := foldlM_block b ⟨.empty, none⟩
  refine ⟨s'.out, ?_, ?_⟩
  · rw [parseLines, hlines]
    rfl
  · rw [hget, Function.update_self]

/-! ### Main result -/

/-- A row is honest if the last of each kind is the worst, and only then. -/
theorem honest_row_iff (b : Block) : Honest b b.row ↔ LastIsWorst b := by
  have hunknown : "Unknown".toList ≠ connected ∧ "Unknown".toList ≠ upToDate := by decide
  have hnil : ∀ {α : Type} {l : List α}, l.getLast? = none → l = [] := fun h => List.getLast?_eq_none_iff.mp h
  rw [row_eq]
  constructor
  · intro h
    refine ⟨fun hl => h.conn ?_, fun hl => h.disk ?_, fun last hl => ?_, fun last hl => ?_, fun last hl hlast => h.synced ?_⟩
    · simp [hl]
    · simp [hl]
    · simpa [hl] using h.outOfSync
    · simpa [hl] using h.resync
    · simpa [hl] using hlast
  · intro h
    refine ⟨fun hd => ?_, fun hd => ?_, ?_, ?_, ?_⟩
    · cases hl : b.connections.getLast? with
      | none => simp [hnil hl]
      | some last =>
        simp only [hl, Option.getD_some] at hd
        exact h.conn (hl.trans (congrArg some hd))
    · cases hl : b.disks.getLast? with
      | none => simp [hnil hl]
      | some last =>
        simp only [hl, Option.getD_some] at hd
        exact h.disk (hl.trans (congrArg some hd))
    · cases hl : b.outOfSyncs.getLast? with
      | none => simp [hnil hl]
      | some last => exact h.outOfSync last hl
    · cases hl : b.dones.getLast? with
      | none => simp [hnil hl]
      | some last => exact h.resync last hl
    · cases hl : b.dones.getLast? with
      | none => simp [hnil hl]
      | some last => exact h.synced last hl

/-- **When no bad peer is hidden.** The rows of a status are honest if and only
if in every block the last connection, disk, out-of-sync and percentage is the
worst of the block. -/
theorem neverHides_iff (s : Status) : NeverHides s ↔ ∀ b ∈ s.blocks, LastIsWorst b := by
  obtain ⟨out, hparse, hrows, hkeys⟩ := get?_parseDrbd s
  constructor
  · rintro ⟨out', hparse', -, hhonest⟩ b hb
    obtain rfl : out = out' := Option.some.inj (hparse.symm.trans hparse')
    obtain ⟨d, -, hget, -, -, hd⟩ := hhonest b hb
    obtain rfl : b.row = d := Option.some.inj ((hrows b hb).symm.trans hget)
    exact (honest_row_iff b).mp hd
  · intro h
    refine ⟨out, hparse, hkeys, fun b hb => ?_⟩
    obtain ⟨alone, hlines, hget⟩ := get?_parseLines b
    exact ⟨b.row, alone, hrows b hb, hlines, hget, (honest_row_iff b).mpr (h b hb)⟩

/-- A resource with a peer that is not connected, and then one that is. -/
def twoPeers : Block where
  header := "qm role:Primary suspended:no".toList
  body := ["  volume:0 minor:0 disk:UpToDate".toList, "  b connection:StandAlone role:Unknown".toList,
    "  c connection:Connected role:Secondary".toList]
  role := "Primary".toList
  starts := by decide
  hasRole := by decide +kernel
  indented := by decide
  readable := by
    have hnone : ∀ raw ∈ ["qm role:Primary suspended:no".toList, "  volume:0 minor:0 disk:UpToDate".toList,
        "  b connection:StandAlone role:Unknown".toList, "  c connection:Connected role:Secondary".toList],
        (tokens raw).get? "done".toList = none ∧ (tokens raw).get? "out-of-sync".toList = none := by decide +kernel
    intro raw hraw
    obtain ⟨hdone, hsync⟩ := hnone raw hraw
    exact ⟨fun t ht => absurd (hdone.symm.trans ht) (by simp), fun t ht => absurd (hsync.symm.trans ht) (by simp)⟩

/-- A status of this one resource. -/
def twoPeersStatus : Status where
  text := "qm role:Primary suspended:no\n  volume:0 minor:0 disk:UpToDate\n".toList ++
    "  b connection:StandAlone role:Unknown\n  c connection:Connected role:Secondary\n".toList
  blocks := [twoPeers]
  lines := by decide +kernel
  distinct := List.nodup_singleton _

/-- Its row is connected. -/
theorem second_peer_hides_first : ¬ NeverHides twoPeersStatus := by
  rintro ⟨out, hparse, -, hhonest⟩
  obtain ⟨d, -, hget, -, -, hd⟩ := hhonest twoPeers (List.mem_singleton_self _)
  have hlast : ¬ LastIsWorst twoPeers := by
    intro h
    have hbad := h.conn (by decide +kernel) "StandAlone".toList (by decide +kernel)
    exact absurd hbad (by decide)
  obtain ⟨out', hparse', hrows, -⟩ := get?_parseDrbd twoPeersStatus
  obtain rfl : out = out' := Option.some.inj (hparse.symm.trans hparse')
  obtain rfl : twoPeers.row = d := Option.some.inj ((hrows twoPeers (List.mem_singleton_self _)).symm.trans hget)
  exact hlast ((honest_row_iff twoPeers).mp hd)

end ClusterState
end Obs
end MqResiliency
