import Go2Cloud.Mirror
import Go2Cloud.Mirror

/-! Repeated incsync runs over one tracker and one receiver (cmd_incsync in
client/main.c). A run skips every block whose content still has the recorded
hash, and the hash is recorded when the block is queued. -/
namespace Go2Cloud.Incsync
open Protocol Reader Tracker Round BlockWriter Mirror History

/-- One step of the scan: what the read returned (`none` for a read error),
whether the encoding succeeded, and the acknowledgements processed next. -/
structure Scan where
  devno : Int32
  offset : Int64
  read : Option ReadData
  encoded : Bool
  acks : List Key

def Scan.block (x : Scan) : Option Block :=
  -- the scanned block; a read without bytes is passed over
  match x.read with
  | none => none
  | some data => if data.1 = [] then none else some ⟨x.devno, x.offset, data.1⟩

/-- `arrivals` lists the frames that are written, by their position in the queue,
in the order the receiver writes them. A frame that is not listed is lost. -/
structure Run where
  version : Int
  now : Int
  scans : List Scan
  arrivals : List Nat

def Run.scanned (r : Run) : List Block := r.scans.filterMap Scan.block

structure Scanning where
  db : BlockTable
  queued : List Block

def syncBlock (remoteId : String) (version now : Int) (p : Scanning) (b : Block) (encoded : Bool) :
    Scanning :=
  if sqliteBlockLookup p.db b.key = some (hashOf b) then
    { p with
      db := sqliteBlockMarkVerified (sqliteUpdateLastSent p.db b.key now) b.key version }
  else if encoded then
    { db := sqliteBlockUpsertV p.db remoteId b.key (Int32.ofInt b.data.length) (hashOf b) false version
      queued := b :: p.queued }
  else p

def scanBlock (remoteId : String) (version now : Int) (p : Scanning) (x : Scan) : Scanning :=
  let q :=
    match x.block with
    | none => p
    | some b => syncBlock remoteId version now p b x.encoded
  { q with db := x.acks.foldl sqliteBlockMarkAcked q.db }

def scanAll (remoteId : String) (r : Run) (db : BlockTable) : Scanning :=
  r.scans.foldl (scanBlock remoteId r.version r.now) ⟨db, []⟩

def written (queued : List Block) (arrivals : List Nat) : List Block :=
  arrivals.filterMap fun i => queued.reverse[i]?

structure State where
  db : BlockTable
  store : Store
  sent : List Block

def incsync (remoteId : String) (s : State) (r : Run) : State :=
  let p := scanAll remoteId r s.db
  { db := p.db
    store := (written p.queued r.arrivals).foldl (fun st b => st.put b.devno b.offset b.data) s.store
    sent := p.queued ++ s.sent }

def history (remoteId : String) (store : Store) (runs : List Run) : State :=
  runs.foldl (incsync remoteId) ⟨Keyed.empty, store, []⟩

theorem filterMap_block_cons (x : Scan) (scans : List Scan) :
    (x :: scans).filterMap Scan.block = x.block.toList ++ scans.filterMap Scan.block := by
  cases block : x.block <;> simp [block]

@[simp] theorem lookup_acks (acks : List Key) (db : BlockTable) (k : Key) :
    sqliteBlockLookup (acks.foldl sqliteBlockMarkAcked db) k = sqliteBlockLookup db k := by
  induction acks generalizing db with
  | nil => rfl
  | cons a acks ih => rw [List.foldl_cons, ih, lookup_markAcked]

section Scan
variable (remoteId : String) (version now : Int) {sent : List Block}

theorem syncBlock_tracks {p : Scanning} (h : Tracks p.db (p.queued ++ sent)) (b : Block)
    (encoded : Bool) :
    Tracks (syncBlock remoteId version now p b encoded).db
      ((syncBlock remoteId version now p b encoded).queued ++ sent) := by
  unfold syncBlock
  split
  · intro k
    simp only [lookup_markVerified, lookup_updateLastSent]
    exact h k
  split
  · exact h.sent fun k => lookup_upsert ..
  · exact h

theorem scanBlock_tracks {p : Scanning} (h : Tracks p.db (p.queued ++ sent)) (x : Scan) :
    Tracks (scanBlock remoteId version now p x).db
      ((scanBlock remoteId version now p x).queued ++ sent) := by
  intro k
  simp only [scanBlock, lookup_acks]
  split
  · exact h k
  next b _ => exact syncBlock_tracks remoteId version now h b x.encoded k

theorem foldl_scanBlock_tracks {p : Scanning} (h : Tracks p.db (p.queued ++ sent))
    (scans : List Scan) :
    Tracks (scans.foldl (scanBlock remoteId version now) p).db
      ((scans.foldl (scanBlock remoteId version now) p).queued ++ sent) := by
  induction scans generalizing p with
  | nil => exact h
  | cons x scans ih => exact ih (scanBlock_tracks remoteId version now h x)

end Scan

theorem history_tracks (remoteId : String) (store : Store) (runs : List Run) :
    Tracks (history remoteId store runs).db (history remoteId store runs).sent := by
  have step : ∀ (s : State), Tracks s.db s.sent →
      Tracks (runs.foldl (incsync remoteId) s).db (runs.foldl (incsync remoteId) s).sent := by
    induction runs with
    | nil => exact fun s h => h
    | cons r runs ih =>
      intro s h
      have start : Tracks (Scanning.mk s.db []).db ([] ++ s.sent) := h
      exact ih _ (foldl_scanBlock_tracks remoteId r.version r.now start r.scans)
  exact step _ tracks_empty

section FixedSource
variable {src : Source} {len : Key → Nat} {sent : List Block}
variable (remoteId : String) (version now : Int)

structure ScanInv (src : Source) (len : Key → Nat) (sent scanned : List Block) (p : Scanning) :
    Prop where
  tracks : Tracks p.db (p.queued ++ sent)
  source : ∀ b ∈ scanned, FromSource src len b
  queued : ∀ b ∈ p.queued, b ∈ scanned ∧ latest sent b.key ≠ some b
  current : ∀ b ∈ scanned, latest (p.queued ++ sent) b.key = some b

theorem ScanInv.lookup_iff {scanned : List Block} {p : Scanning}
    (h : ScanInv src len sent scanned p) {b : Block} (source : FromSource src len b)
    (no_collision : NoCollision sent [b]) :
    sqliteBlockLookup p.db b.key = some (hashOf b) ↔ latest (p.queued ++ sent) b.key = some b := by
  rw [h.tracks b.key, Option.map_eq_some_iff]
  constructor
  · rintro ⟨old, found, same⟩
    obtain ⟨member, key⟩ := latest_some found
    have equal : old = b := by
      rcases List.mem_append.mp member with here | before
      · exact (h.source old (h.queued old here).1).eq_of_key source key
      · exact no_collision old before b List.mem_cons_self key same
    rw [found, equal]
  · exact fun found => ⟨b, found, rfl⟩

theorem ScanInv.latest_before {scanned : List Block} {p : Scanning}
    (h : ScanInv src len sent scanned p) {b : Block} (source : FromSource src len b)
    (before : latest sent b.key = some b) : latest (p.queued ++ sent) b.key = some b := by
  rw [latest_append]
  cases found : latest p.queued b.key with
  | none => exact before
  | some q =>
    obtain ⟨member, key⟩ := latest_some found
    rw [(h.source q (h.queued q member).1).eq_of_key source key]
    rfl

theorem ScanInv.sync {scanned : List Block} {p : Scanning} (h : ScanInv src len sent scanned p)
    {b : Block} (source : FromSource src len b) (no_collision : NoCollision sent [b]) :
    ScanInv src len sent (scanned ++ [b]) (syncBlock remoteId version now p b true) := by
  have tracks := syncBlock_tracks remoteId version now h.tracks b true
  have sources : ∀ b' ∈ scanned ++ [b], FromSource src len b' := by
    intro b' member
    rcases List.mem_append.mp member with old | new
    · exact h.source b' old
    · exact List.mem_singleton.mp new ▸ source
  have unchanged := h.lookup_iff source no_collision
  unfold syncBlock at tracks ⊢
  split
  next same =>
    rw [if_pos same] at tracks
    refine ⟨tracks, sources, fun q member => ?_, fun b' member => ?_⟩
    · exact ⟨List.mem_append_left _ (h.queued q member).1, (h.queued q member).2⟩
    · rcases List.mem_append.mp member with old | new
      · exact h.current b' old
      · exact List.mem_singleton.mp new ▸ unchanged.mp same
  next differs =>
    rw [if_neg differs, if_pos rfl] at tracks
    rw [if_pos rfl]
    refine ⟨tracks, sources, fun q member => ?_, fun b' member => ?_⟩
    · rcases List.mem_cons.mp member with rfl | old
      · refine ⟨List.mem_append_right _ List.mem_cons_self, fun before => differs ?_⟩
        exact unchanged.mpr (h.latest_before source before)
      · exact ⟨List.mem_append_left _ (h.queued q old).1, (h.queued q old).2⟩
    · rw [List.cons_append, latest_cons]
      split
      next same => rw [source.eq_of_key (sources b' member) same]
      next other =>
        rcases List.mem_append.mp member with old | new
        · exact h.current b' old
        · exact absurd (List.mem_singleton.mp new ▸ rfl) other

theorem ScanInv.scan {scanned : List Block} {p : Scanning} (h : ScanInv src len sent scanned p)
    {x : Scan} (encoded : x.encoded = true) (source : ∀ b ∈ x.block, FromSource src len b)
    (no_collision : NoCollision sent x.block.toList) :
    ScanInv src len sent (scanned ++ x.block.toList) (scanBlock remoteId version now p x) := by
  have tracks := scanBlock_tracks remoteId version now h.tracks x
  unfold scanBlock at tracks ⊢
  cases block : x.block with
  | none =>
    simp only [block] at tracks
    simp only [Option.toList_none, List.append_nil]
    exact ⟨tracks, h.source, h.queued, h.current⟩
  | some b =>
    rw [block] at source no_collision
    simp only [block, encoded] at tracks
    have synced := h.sync remoteId version now (source b rfl) no_collision
    simp only [encoded, Option.toList_some]
    exact ⟨tracks, synced.source, synced.queued, synced.current⟩

theorem ScanInv.fold {scans : List Scan} {scanned : List Block} {p : Scanning}
    (h : ScanInv src len sent scanned p) (encoded : ∀ x ∈ scans, x.encoded = true)
    (source : ∀ b ∈ scans.filterMap Scan.block, FromSource src len b)
    (no_collision : NoCollision sent (scans.filterMap Scan.block)) :
    ScanInv src len sent (scanned ++ scans.filterMap Scan.block)
      (scans.foldl (scanBlock remoteId version now) p) := by
  induction scans generalizing scanned p with
  | nil => simpa using h
  | cons x scans ih =>
    rw [filterMap_block_cons] at source no_collision ⊢
    rw [← List.append_assoc]
    have first := h.scan remoteId version now (encoded x List.mem_cons_self)
      (fun b hb => source b (List.mem_append_left _ (Option.mem_toList.mpr hb)))
      (fun old hold b hb => no_collision old hold b (List.mem_append_left _ hb))
    exact ih first (fun y hy => encoded y (List.mem_cons_of_mem _ hy))
      (fun b hb => source b (List.mem_append_right _ hb))
      (fun old hold b hb => no_collision old hold b (List.mem_append_right _ hb))

/-- A run over an unchanging source queues exactly the scanned blocks that differ
from their latest transmission. -/
theorem mem_queued_iff {s : State} (tracks : Tracks s.db s.sent) {r : Run}
    (encoded : ∀ x ∈ r.scans, x.encoded = true) (source : ∀ b ∈ r.scanned, FromSource src len b)
    (no_collision : NoCollision s.sent r.scanned) (b : Block) :
    b ∈ (scanAll remoteId r s.db).queued ↔ b ∈ r.scanned ∧ latest s.sent b.key ≠ some b := by
  have start : ScanInv src len s.sent [] ⟨s.db, []⟩ :=
    ⟨tracks, by simp, by simp, by simp⟩
  have done := start.fold remoteId r.version r.now encoded source no_collision
  rw [List.nil_append] at done
  refine ⟨done.queued b, fun ⟨member, differs⟩ => ?_⟩
  have current := done.current b member
  rw [latest_append] at current
  cases found : latest (scanAll remoteId r s.db).queued b.key with
  | none =>
    rw [scanAll] at found
    rw [found, Option.none_or] at current
    exact absurd current differs
  | some q =>
    rw [scanAll] at found
    rw [found, Option.some_or] at current
    rw [← Option.some.inj current]
    exact (latest_some found).1

end FixedSource

def FramesWritten (queued : List Block) (arrivals : List Nat) : Prop :=
  (∀ n < queued.length, n ∈ arrivals) ∧
    ∀ b ∈ queued, 0 ≤ b.offset.toInt ∧ (diskOf b.devno).isSome = true

instance (queued : List Block) (arrivals : List Nat) : Decidable (FramesWritten queued arrivals) :=
  inferInstanceAs (Decidable (_ ∧ _))

theorem mem_written_iff {queued : List Block} {arrivals : List Nat}
    (all : ∀ n < queued.length, n ∈ arrivals) (b : Block) :
    b ∈ written queued arrivals ↔ b ∈ queued := by
  simp only [written, List.mem_filterMap]
  constructor
  · rintro ⟨n, -, found⟩
    exact List.mem_reverse.mp (List.mem_of_getElem? found)
  · intro member
    obtain ⟨n, inside, here⟩ := List.getElem_of_mem (List.mem_reverse.mpr member)
    refine ⟨n, all n (by simpa using inside), ?_⟩
    rw [List.getElem?_eq_getElem inside, here]

/-- Before the run, the target has the source's value at every byte of the block
that no block the run sends again covers. -/
def AlreadyThere (src : Source) (s : State) (scanned : List Block) (b : Block) : Prop :=
  0 ≤ b.offset.toInt ∧ ∃ i, diskOf b.devno = some i ∧ ∀ n < b.data.length,
    (∃ q ∈ scanned, latest s.sent q.key ≠ some q ∧ Covers q b.devno (b.offset.toInt.toNat + n)) ∨
      s.store i (b.offset.toInt.toNat + n) = src b.devno (b.offset.toInt.toNat + n)

instance (src : Source) (s : State) (scanned : List Block) (b : Block) :
    Decidable (AlreadyThere src s scanned b) :=
  inferInstanceAs (Decidable (_ ∧ _))

section LastRun

variable {remoteId : String} {s : State} {last : Run} {src : Source} {len : Key → Nat}

theorem incsync_byte (tracks : Tracks s.db s.sent)
    (source : ∀ b ∈ last.scanned, FromSource src len b)
    (encoded : ∀ x ∈ last.scans, x.encoded = true) (no_collision : NoCollision s.sent last.scanned)
    (arrive : FramesWritten (scanAll remoteId last s.db).queued last.arrivals) {devno : Int32}
    {i : Fin maxTargetDisks} (disk : diskOf devno = some i) (a : Nat) :
    ((∃ q ∈ last.scanned, latest s.sent q.key ≠ some q ∧ Covers q devno a) ∧
        (incsync remoteId s last).store i a = src devno a) ∨
      ((¬ ∃ q ∈ last.scanned, latest s.sent q.key ≠ some q ∧ Covers q devno a) ∧
        (incsync remoteId s last).store i a = s.store i a) := by
  have resent : ∀ q, q ∈ written (scanAll remoteId last s.db).queued last.arrivals ↔
      q ∈ last.scanned ∧ latest s.sent q.key ≠ some q := fun q =>
    (mem_written_iff arrive.1 q).trans (mem_queued_iff remoteId tracks encoded source no_collision q)
  have covered : (∃ q ∈ written (scanAll remoteId last s.db).queued last.arrivals,
      Covers q devno a) ↔
        ∃ q ∈ last.scanned, latest s.sent q.key ≠ some q ∧ Covers q devno a := by
    simp only [resent, and_assoc]
  have byte : (incsync remoteId s last).store i a =
      if ∃ q ∈ written (scanAll remoteId last s.db).queued last.arrivals, Covers q devno a then
        src devno a else s.store i a :=
    foldl_put_source (fun q hq => (source q ((resent q).mp hq).1).copies) s.store disk a
  rw [byte, ← covered]
  split
  next here => exact .inl ⟨here, rfl⟩
  next nowhere => exact .inr ⟨nowhere, rfl⟩

/-- The run leaves a scanned block equal on both sides exactly when it sends the
block again or its bytes were there before. -/
theorem incsync_matches_iff (tracks : Tracks s.db s.sent)
    (source : ∀ b ∈ last.scanned, FromSource src len b)
    (encoded : ∀ x ∈ last.scans, x.encoded = true) (no_collision : NoCollision s.sent last.scanned)
    (arrive : FramesWritten (scanAll remoteId last s.db).queued last.arrivals) {b : Block}
    (member : b ∈ last.scanned) :
    Matches src (incsync remoteId s last).store b.key (len b.key) ↔
      (latest s.sent b.key = some b → AlreadyThere src s last.scanned b) := by
  have size := (source b member).length
  constructor
  · rintro ⟨nonneg, i, disk, same⟩ -
    refine ⟨nonneg, i, disk, fun n inside => ?_⟩
    have value := ByteStore.read_eq_read_iff.mp same n (size ▸ inside)
    rcases incsync_byte tracks source encoded no_collision arrive disk
      (b.offset.toInt.toNat + n) with ⟨covered, -⟩ | ⟨-, kept⟩
    · exact .inl covered
    · exact .inr (kept.symm.trans value)
  · intro there
    by_cases skipped : latest s.sent b.key = some b
    · obtain ⟨nonneg, i, disk, kept⟩ := there skipped
      refine ⟨nonneg, i, disk, ByteStore.read_eq_read_iff.mpr fun n inside => ?_⟩
      rcases incsync_byte tracks source encoded no_collision arrive disk
        (b.offset.toInt.toNat + n) with ⟨-, new⟩ | ⟨uncovered, old⟩
      · exact new
      · exact old.trans ((kept n (size ▸ inside)).resolve_left uncovered)
    · have queued :=
        (mem_queued_iff remoteId tracks encoded source no_collision b).mpr ⟨member, skipped⟩
      obtain ⟨nonneg, some_disk⟩ := arrive.2 b queued
      obtain ⟨i, disk⟩ := Option.isSome_iff_exists.mp some_disk
      refine ⟨nonneg, i, disk, ByteStore.read_eq_read_iff.mpr fun n inside => ?_⟩
      rcases incsync_byte tracks source encoded no_collision arrive disk
        (b.offset.toInt.toNat + n) with ⟨-, new⟩ | ⟨uncovered, -⟩
      · exact new
      · exact absurd ⟨b, member, skipped, rfl, by omega, by omega⟩ uncovered

end LastRun

/-- After any history of runs, a last run over an unchanging source whose frames
all arrive makes source and target agree on the blocks it scanned exactly when
the blocks it skips, those whose latest transmission already carried the current
content, were there before. -/
theorem incsync_repairs_iff (remoteId : String) (store : Store) (earlier : List Run) (last : Run)
    (src : Source) (len : Key → Nat) (source : ∀ b ∈ last.scanned, FromSource src len b)
    (encoded : ∀ x ∈ last.scans, x.encoded = true)
    (no_collision : NoCollision (history remoteId store earlier).sent last.scanned)
    (arrive : FramesWritten (scanAll remoteId last (history remoteId store earlier).db).queued
      last.arrivals) :
    (∀ b ∈ last.scanned,
        Matches src (history remoteId store (earlier ++ [last])).store b.key (len b.key)) ↔
      ∀ b ∈ last.scanned, latest (history remoteId store earlier).sent b.key = some b →
        AlreadyThere src (history remoteId store earlier) last.scanned b := by
  have after : history remoteId store (earlier ++ [last]) =
      incsync remoteId (history remoteId store earlier) last := by
    rw [history, List.foldl_append]
    rfl
  rw [after]
  have tracks := history_tracks remoteId store earlier
  exact forall₂_congr fun b member =>
    incsync_matches_iff tracks source encoded no_collision arrive member

def uniformScan (offset : Int64) (byte : UInt8) : Scan :=
  ⟨0, offset, some ⟨List.replicate 64 byte, by rw [List.length_replicate]; decide⟩, true, []⟩

-- a first run over two blocks, of which the frames with the given numbers arrive
def firstRun (arrivals : List Nat) : Run := ⟨1, 1000, [uniformScan 0 1, uniformScan 64 2], arrivals⟩

-- a run that finds the second block changed and the first one as it was
def secondRun : Run := ⟨2, 2000, [uniformScan 0 1, uniformScan 64 3], [0]⟩

def secondSource : Source := fun _ a => if a < 64 then 1 else 3

theorem secondRun_regular (arrivals : List Nat)
    (arrivals_cases : arrivals = [0, 1] ∨ arrivals = [1]) :
    (∀ b ∈ secondRun.scanned, FromSource secondSource (fun _ => 64) b) ∧
      (∀ x ∈ secondRun.scans, x.encoded = true) ∧
      NoCollision (history "10.0.0.1:3400" blankWriter.store [firstRun arrivals]).sent
        secondRun.scanned ∧
      FramesWritten (scanAll "10.0.0.1:3400" secondRun
        (history "10.0.0.1:3400" blankWriter.store [firstRun arrivals]).db).queued
        secondRun.arrivals := by
  rcases arrivals_cases with rfl | rfl <;> decide +kernel

theorem incsync_repairs_delivered :
    secondRun.scanned ≠ [] ∧ ∀ b ∈ secondRun.scanned, Matches secondSource
      (history "10.0.0.1:3400" blankWriter.store ([firstRun [0, 1]] ++ [secondRun])).store b.key
      64 :=
  have regular := secondRun_regular [0, 1] (.inl rfl)
  ⟨by decide +kernel,
    (incsync_repairs_iff "10.0.0.1:3400" blankWriter.store [firstRun [0, 1]] secondRun secondSource
      (fun _ => 64) regular.1 regular.2.1 regular.2.2.1 regular.2.2.2).mpr (by decide +kernel)⟩

/-- The first run's frame of the first block is lost, and the second run skips the block. -/
theorem incsync_skips_lost_block :
    (∀ b ∈ secondRun.scanned, FromSource secondSource (fun _ => 64) b) ∧
      (∀ x ∈ secondRun.scans, x.encoded = true) ∧
      NoCollision (history "10.0.0.1:3400" blankWriter.store [firstRun [1]]).sent
        secondRun.scanned ∧
      FramesWritten (scanAll "10.0.0.1:3400" secondRun
        (history "10.0.0.1:3400" blankWriter.store [firstRun [1]]).db).queued secondRun.arrivals ∧
      ¬ ∀ b ∈ secondRun.scanned, Matches secondSource
        (history "10.0.0.1:3400" blankWriter.store ([firstRun [1]] ++ [secondRun])).store b.key
        64 := by
  have regular := secondRun_regular [1] (.inr rfl)
  refine ⟨regular.1, regular.2.1, regular.2.2.1, regular.2.2.2, fun equal => ?_⟩
  obtain ⟨-, i, disk, same⟩ := equal ⟨0, 0, List.replicate 64 1⟩ (by decide +kernel)
  obtain rfl : i = 0 := (Option.some.inj disk).symm
  exact absurd same (by decide +kernel)

end Go2Cloud.Incsync
