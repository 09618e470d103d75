import Go2Cloud.Lib.Table
import Go2Cloud.Migration.Retransmit
import Go2Cloud.Mirror

/-! The readers of do_migrate and cmd_incsync, and the reads made through them
(client/main.c, client/block_io.c): a snapshot of a volume counts from the start of
the volume, a physical drive from the start of the disk. Offsets and sizes come from
signed 64-bit values, so the sums below do not wrap. -/
namespace Go2Cloud.ReaderTable
open Protocol Reader Tracker BlockWriter Round Mirror Keyed
open FullSync (volumeBlockCount)
open Retransmit (ReaderEntry SqliteGetUnacked diskOffset retransmitLimit)

structure Drives where
  size : Fin maxTargetDisks → Nat
  size_lt : ∀ d, size d < 2 ^ 63

structure Volume where
  devno : Fin maxTargetDisks
  partitionOffset : Nat
  totalBytes : Nat
  hasVss : Bool
  offset_lt : partitionOffset < 2 ^ 63
  bytes_lt : totalBytes < 2 ^ 63

/-- What comes of opening the readers of a volume: the size of the snapshot, if it can
be opened, and whether the drive can, for the transfer and for the live reader. -/
structure Opening where
  vss : Option Nat
  drive : Bool
  live : Bool
  vss_lt : ∀ size ∈ vss, size < 2 ^ 63

def Opening.fromDrive : Opening := ⟨none, true, true, by simp⟩

/-- An open block_reader; `base` is the disk address of its first byte. -/
structure Handle where
  devno : Fin maxTargetDisks
  base : Nat
  size : Nat
  deriving DecidableEq, Repr

def Drives.handle (drives : Drives) (d : Fin maxTargetDisks) : Handle := ⟨d, 0, drives.size d⟩

theorem Drives.handle_lt (drives : Drives) (d : Fin maxTargetDisks) :
    (drives.handle d).size < 2 ^ 64 := (drives.size_lt d).trans (by decide)

structure Entry where
  devno : Fin maxTargetDisks
  partitionOffset : Nat
  blockCount : Nat
  isVss : Bool
  reader : Handle
  live : Option Handle
  deriving DecidableEq, Repr

def openPrimary (drives : Drives) (v : Volume) (o : Opening) : Option (Handle × Bool) :=
  -- the snapshot first, the physical drive where that fails, and whether it is a snapshot
  let fallback := if o.drive then some (drives.handle v.devno, false) else none
  if v.hasVss then
    match o.vss with
    | some size => some (⟨v.devno, v.partitionOffset, size⟩, true)
    | none => fallback
  else fallback

/-- The drive for the incremental rounds, or the primary reader where it cannot be
opened. -/
def openLive (drives : Drives) (tailSend : Bool) (v : Volume) (o : Opening) (primary : Handle) :
    Option Handle :=
  if tailSend then some (if o.live then drives.handle v.devno else primary) else none

def openEntry (drives : Drives) (tailSend : Bool) (v : Volume) (o : Opening) : Option Entry :=
  (openPrimary drives v o).map fun primary =>
    ⟨v.devno, v.partitionOffset, volumeBlockCount v.totalBytes, primary.2, primary.1,
      openLive drives tailSend v o primary.1⟩

def readers (drives : Drives) (tailSend : Bool) (volumes : List (Volume × Opening)) : List Entry :=
  volumes.filterMap fun x => openEntry drives tailSend x.1 x.2

def Entry.range (e : Entry) : ReaderEntry :=
  ⟨Int32.ofInt e.devno.val, e.partitionOffset, e.reader.size, e.isVss⟩

def findEntry (entries : List Entry) (k : Key) : Option Entry :=
  entries.find? fun e => e.range.Covers k

def keyAt (d : Fin maxTargetDisks) (diskOffset : Nat) : Key :=
  (Int32.ofInt d.val, Int64.ofInt diskOffset)

structure BlockRead where
  handle : Handle
  offset : Nat
  key : Key
  deriving DecidableEq, Repr

def Handle.open (h : Handle) (src : Source) : BlockReader :=
  ⟨h.size, fun x => src (Int32.ofInt h.devno.val) (h.base + x)⟩

def BlockRead.data (src : Source) (r : BlockRead) : List UInt8 :=
  blockReaderRead (r.handle.open src) r.offset

def BlockRead.address (r : BlockRead) : Int32 × Nat :=
  (Int32.ofInt r.handle.devno.val, r.handle.base + r.offset)

def BlockRead.Right (r : BlockRead) : Prop := r.address = (r.key.1, diskOffset r.key)

instance (r : BlockRead) : Decidable r.Right := inferInstanceAs (Decidable (_ = _))

def blockRead (e : Entry) (blk : Nat) : BlockRead :=
  -- the blocks of a partition, from its first one
  let diskOffset := e.partitionOffset + blk * blockSize
  ⟨e.reader, if e.isVss then blk * blockSize else diskOffset, keyAt e.devno diskOffset⟩

def Entry.transferBlocks (e : Entry) : Nat :=
  -- the block count of the main loop, cut to the whole blocks of the reader
  let diskEnd := e.reader.size
  if diskEnd > e.partitionOffset then
    let maxBlocks := (diskEnd - e.partitionOffset) / blockSize
    if e.blockCount > maxBlocks then maxBlocks else e.blockCount
  else 0

def mainReads (e : Entry) : List BlockRead := (List.range e.transferBlocks).map (blockRead e)

def incsyncReads (e : Entry) : List BlockRead := (List.range e.blockCount).map (blockRead e)

def gptBlockReads (disk : Handle) : List BlockRead :=
  -- the first block of a disk and, on disks of two blocks or more, the last two whole ones
  let alignedEnd := disk.size / blockSize * blockSize
  ⟨disk, 0, keyAt disk.devno 0⟩ ::
    if alignedEnd ≥ 2 * blockSize then
      [2, 1].map fun t =>
        ⟨disk, alignedEnd - t * blockSize, keyAt disk.devno (alignedEnd - t * blockSize)⟩
    else []

/-- With a snapshot reader the drive has to be opened for the GPT step. -/
def gptEntryReads (drives : Drives) (opens : Fin maxTargetDisks → Bool) (e : Entry) :
    List BlockRead :=
  if e.isVss && !opens e.devno then []
  else gptBlockReads (if e.isVss then drives.handle e.devno else e.reader)

def gptReads (drives : Drives) (opens : Fin maxTargetDisks → Bool) (entries : List Entry) :
    List BlockRead :=
  -- each disk once, at its first reader
  (once Entry.devno entries fun _ => false).flatMap (gptEntryReads drives opens)

def retransmitRead (entries : List Entry) (k : Key) : Option BlockRead :=
  -- the block handed to send_block for a row of do_retransmit
  (findEntry entries k).map fun e => ⟨e.reader, e.range.readerOffset k, k⟩

def roundRead (entries : List Entry) (k : Key) : Option BlockRead :=
  -- the live read of a row in do_incremental_round, at the absolute offset
  (findEntry entries k).map fun e => ⟨e.live.getD e.reader, diskOffset k, k⟩

/-- The reads of a round over its rows, each with the length of the queue when its turn
comes; the checks before the read do not look at the data. -/
def roundReads (entries : List Entry) (now : Int) : List (Row × Nat) → List BlockRead
  | [] => []
  | (row, queueCount) :: rest =>
    match examineRow now queueCount row none with
    | .cooldown => roundReads entries now rest
    | .backpressure => []
    | _ => (roundRead entries row.key).toList ++ roundReads entries now rest

/-- The reads of do_migrate and of cmd_incsync, whatever the tracker holds; rounds run
only under TailSend. -/
inductive Reads (drives : Drives) (opens : Fin maxTargetDisks → Bool) (tailSend : Bool)
    (volumes : List (Volume × Opening)) : BlockRead → Prop
  | transfer {e : Entry} {r : BlockRead} (entry : e ∈ readers drives tailSend volumes)
    (read : r ∈ mainReads e) : Reads drives opens tailSend volumes r
  | gpt {r : BlockRead} (read : r ∈ gptReads drives opens (readers drives tailSend volumes)) :
    Reads drives opens tailSend volumes r
  | retransmit {db : BlockTable} {rows : List Row} {row : Row} {r : BlockRead}
    (batch : SqliteGetUnacked db "" retransmitLimit rows) (member : row ∈ rows)
    (read : retransmitRead (readers drives tailSend volumes) row.key = some r) :
    Reads drives opens tailSend volumes r
  | round {db : BlockTable} {remoteId : String} {rows : List (Row × Nat)} {now : Int}
    {r : BlockRead} (tail : tailSend = true)
    (batch : IsUnackedBatch db remoteId roundLimit (rows.map Prod.fst))
    (read : r ∈ roundReads (readers drives tailSend volumes) now rows) :
    Reads drives opens tailSend volumes r
  | incsync {e : Entry} {r : BlockRead} (entry : e ∈ readers drives false volumes)
    (read : r ∈ incsyncReads e) : Reads drives opens tailSend volumes r

structure Entry.Valid (drives : Drives) (e : Entry) : Prop where
  reader_devno : e.reader.devno = e.devno
  reader_base : e.reader.base = if e.isVss then e.partitionOffset else 0
  reader_size : e.reader.size < 2 ^ 63
  drive : e.isVss = false → e.reader = drives.handle e.devno
  offset_lt : e.partitionOffset < 2 ^ 63
  blocks_lt : ∀ blk < e.blockCount, blk * blockSize < 2 ^ 63
  live : ∀ h ∈ e.live, h = drives.handle e.devno ∨ h = e.reader

theorem openPrimary_spec {drives : Drives} {v : Volume} {o : Opening} {r : Handle} {vss : Bool}
    (h : openPrimary drives v o = some (r, vss)) :
    (vss = true ∧ ∃ size ∈ o.vss, r = ⟨v.devno, v.partitionOffset, size⟩) ∨
      (vss = false ∧ r = drives.handle v.devno) := by
  have fallback : (if o.drive then some (drives.handle v.devno, false) else none) = some (r, vss) →
      vss = false ∧ r = drives.handle v.devno := by
    intro h
    split at h
    · cases h
      exact ⟨rfl, rfl⟩
    · cases h
  simp only [openPrimary] at h
  split at h
  · split at h
    next size opened =>
      cases h
      exact .inl ⟨rfl, size, opened, rfl⟩
    · exact .inr (fallback h)
  · exact .inr (fallback h)

theorem volumeBlockCount_lt {totalBytes blk : Nat} (h : blk < volumeBlockCount totalBytes) :
    blk * blockSize < totalBytes := by
  have positive : 0 < blockSize := by decide
  have split := Nat.div_add_mod' totalBytes blockSize
  have below : blk * blockSize ≤ totalBytes / blockSize * blockSize ∧
      (blk * blockSize = totalBytes / blockSize * blockSize → totalBytes % blockSize ≠ 0) := by
    unfold volumeBlockCount at h
    split at h
    next rest => exact ⟨Nat.mul_le_mul_right _ (by omega), fun _ => rest⟩
    next whole =>
      refine ⟨Nat.mul_le_mul_right _ (by omega), fun same => ?_⟩
      have := Nat.eq_of_mul_eq_mul_right positive same
      omega
  omega

theorem openEntry_valid {drives : Drives} {tailSend : Bool} {v : Volume} {o : Opening} {e : Entry}
    (h : openEntry drives tailSend v o = some e) : e.Valid drives := by
  obtain ⟨⟨r, vss⟩, primary, rfl⟩ := Option.map_eq_some_iff.mp h
  have blocks : ∀ blk < volumeBlockCount v.totalBytes, blk * blockSize < 2 ^ 63 := fun blk hb =>
    (volumeBlockCount_lt hb).trans v.bytes_lt
  have live : ∀ h ∈ openLive drives tailSend v o r, h = drives.handle v.devno ∨ h = r := by
    intro h member
    unfold openLive at member
    split at member
    · rw [Option.mem_some_iff] at member
      subst member
      split
      · exact .inl rfl
      · exact .inr rfl
    · cases member
  rcases openPrimary_spec primary with ⟨rfl, size, opened, rfl⟩ | ⟨rfl, rfl⟩
  · exact ⟨rfl, rfl, o.vss_lt size opened, by simp, v.offset_lt, blocks, live⟩
  · exact ⟨rfl, rfl, drives.size_lt v.devno, fun _ => rfl, v.offset_lt, blocks, live⟩

theorem openEntry_volume {drives : Drives} {tailSend : Bool} {v : Volume} {o : Opening} {e : Entry}
    (h : openEntry drives tailSend v o = some e) :
    e.devno = v.devno ∧ e.partitionOffset = v.partitionOffset ∧
      e.blockCount = volumeBlockCount v.totalBytes := by
  obtain ⟨primary, -, rfl⟩ := Option.map_eq_some_iff.mp h
  exact ⟨rfl, rfl, rfl⟩

theorem valid_of_mem_readers {drives : Drives} {tailSend : Bool} {volumes : List (Volume × Opening)}
    {e : Entry} (h : e ∈ readers drives tailSend volumes) : e.Valid drives := by
  obtain ⟨x, -, opened⟩ := List.mem_filterMap.mp h
  exact openEntry_valid opened

theorem live_of_tailSend {drives : Drives} {volumes : List (Volume × Opening)} {e : Entry}
    (h : e ∈ readers drives true volumes) : ∃ live, e.live = some live := by
  obtain ⟨x, -, opened⟩ := List.mem_filterMap.mp h
  obtain ⟨primary, -, rfl⟩ := Option.map_eq_some_iff.mp opened
  exact ⟨_, rfl⟩

theorem diskOffset_keyAt (d : Fin maxTargetDisks) {n : Nat} (h : n < 2 ^ 64) :
    diskOffset (keyAt d n) = n := by
  have cast : (Int64.ofInt n).toUInt64 = UInt64.ofNat n := by
    rw [Int64.ofInt_eq_ofNat]
    rfl
  rw [diskOffset, keyAt, cast, UInt64.toNat_ofNat_of_lt' h]

theorem devno_injective {a b : Fin maxTargetDisks}
    (h : Int32.ofInt a.val = Int32.ofInt b.val) : a = b := by
  have toInt : ∀ d : Fin maxTargetDisks, (Int32.ofInt d.val).toInt = d.val := by
    intro d
    have range : d.val < 16 := d.isLt
    exact Int32.toInt_ofInt_of_le (by omega) (by omega)
  have same := congrArg Int32.toInt h
  rw [toInt, toInt] at same
  exact Fin.ext (by omega)

theorem findEntry_spec {entries : List Entry} {k : Key} {e : Entry}
    (h : findEntry entries k = some e) : e ∈ entries ∧ e.range.Covers k :=
  ⟨List.mem_of_find?_eq_some h, by simpa using List.find?_some h⟩

section Right
variable {drives : Drives} {entries : List Entry} {e : Entry} {r : BlockRead} {k : Key}

theorem blockRead_right (valid : e.Valid drives) {blk : Nat} (small : blk * blockSize < 2 ^ 63) :
    (blockRead e blk).Right := by
  have offset := valid.offset_lt
  have tracked : diskOffset (keyAt e.devno (e.partitionOffset + blk * blockSize)) =
      e.partitionOffset + blk * blockSize := diskOffset_keyAt _ (by omega)
  simp only [BlockRead.Right, BlockRead.address, blockRead, tracked, valid.reader_devno,
    valid.reader_base]
  cases e.isVss <;> simp [keyAt]

theorem transferBlocks_le (e : Entry) : e.transferBlocks ≤ e.blockCount := by
  simp only [Entry.transferBlocks]
  split
  · split <;> omega
  · exact Nat.zero_le _

theorem transferBlocks_fit (e : Entry) :
    e.transferBlocks * blockSize ≤ e.reader.size - e.partitionOffset := by
  have whole := Nat.div_mul_le_self (e.reader.size - e.partitionOffset) blockSize
  simp only [Entry.transferBlocks]
  split_ifs with beyond many
  · exact whole
  · exact le_trans (Nat.mul_le_mul_right _ (Nat.le_of_not_gt many)) whole
  · simp

theorem transferBlocks_inside {blk : Nat} (h : blk < e.transferBlocks) :
    blk * blockSize + blockSize ≤ e.reader.size - e.partitionOffset :=
  (block_end_le h).trans (transferBlocks_fit e)

theorem mainReads_right (valid : e.Valid drives) (h : r ∈ mainReads e) : r.Right := by
  obtain ⟨blk, hb, rfl⟩ := List.mem_map.mp h
  have within := List.mem_range.mp hb
  exact blockRead_right valid (valid.blocks_lt blk (within.trans_le (transferBlocks_le e)))

theorem incsyncReads_right (valid : e.Valid drives) (h : r ∈ incsyncReads e) : r.Right := by
  obtain ⟨blk, hb, rfl⟩ := List.mem_map.mp h
  exact blockRead_right valid (valid.blocks_lt blk (List.mem_range.mp hb))

theorem drive_right (d : Fin maxTargetDisks) {offset : Nat} (h : offset < 2 ^ 64) :
    (BlockRead.mk (drives.handle d) offset (keyAt d offset)).Right := by
  rw [BlockRead.Right, diskOffset_keyAt d h, BlockRead.address, Drives.handle, Nat.zero_add]
  rfl

theorem mem_gptBlockReads {d : Fin maxTargetDisks} (h : r ∈ gptBlockReads (drives.handle d)) :
    ∃ offset, offset < 2 ^ 63 ∧ r = ⟨drives.handle d, offset, keyAt d offset⟩ := by
  have size := drives.size_lt d
  have below := Nat.div_mul_le_self (drives.size d) blockSize
  simp only [gptBlockReads, List.mem_cons] at h
  rcases h with rfl | tail
  · exact ⟨0, by decide, rfl⟩
  · split at tail
    · obtain ⟨t, -, rfl⟩ := List.mem_map.mp tail
      refine ⟨_, ?_, rfl⟩
      simp only [Drives.handle]
      omega
    · cases tail

theorem gptBlockReads_right {d : Fin maxTargetDisks} (h : r ∈ gptBlockReads (drives.handle d)) :
    r.Right := by
  obtain ⟨offset, small, rfl⟩ := mem_gptBlockReads h
  exact drive_right d (by omega)

theorem gptReads_right {opens : Fin maxTargetDisks → Bool}
    (valid : ∀ e ∈ entries, e.Valid drives) (h : r ∈ gptReads drives opens entries) : r.Right := by
  obtain ⟨e, first, member⟩ := List.mem_flatMap.mp h
  have entry := List.mem_of_find?_eq_some (mem_once.mp first).2
  unfold gptEntryReads at member
  split at member
  · cases member
  · split at member
    · exact gptBlockReads_right member
    next drive =>
      rw [(valid e entry).drive (by simpa using drive)] at member
      exact gptBlockReads_right member

theorem retransmitRead_right (valid : ∀ e ∈ entries, e.Valid drives)
    (h : retransmitRead entries k = some r) : r.Right := by
  obtain ⟨e, found, rfl⟩ := Option.map_eq_some_iff.mp h
  obtain ⟨entry, device, low, -⟩ := findEntry_spec found
  have v := valid e entry
  simp only [BlockRead.Right, BlockRead.address, v.reader_devno, v.reader_base, Prod.mk.injEq]
  refine ⟨device, ?_⟩
  have low' : e.partitionOffset ≤ diskOffset k := low
  have offset : e.range.readerOffset k =
      if e.isVss then diskOffset k - e.partitionOffset else diskOffset k := rfl
  rw [offset]
  by_cases vss : e.isVss = true
  · rw [if_pos vss, if_pos vss]
    omega
  · rw [if_neg vss, if_neg vss]
    omega

/-- The live read goes wrong exactly by the start of the reader it uses. -/
theorem roundRead_right_iff (valid : ∀ e ∈ entries, e.Valid drives)
    (found : findEntry entries k = some e) :
    (BlockRead.mk (e.live.getD e.reader) (diskOffset k) k).Right ↔
      (e.live.getD e.reader).base = 0 := by
  obtain ⟨entry, device, -⟩ := findEntry_spec found
  have v := valid e entry
  have devno : (e.live.getD e.reader).devno = e.devno := by
    cases h : e.live with
    | none => exact v.reader_devno
    | some live =>
      rcases v.live live h with rfl | rfl
      · rfl
      · exact v.reader_devno
  have device' : Int32.ofInt e.devno.val = k.1 := device
  simp only [BlockRead.Right, BlockRead.address, devno, device', Prod.mk.injEq, true_and]
  omega

theorem mem_roundReads {now : Int} {rows : List (Row × Nat)} (h : r ∈ roundReads entries now rows) :
    ∃ row ∈ rows.map Prod.fst, roundRead entries row.key = some r := by
  induction rows with
  | nil => cases h
  | cons x rest ih =>
    obtain ⟨row, queueCount⟩ := x
    have later : r ∈ roundReads entries now rest →
        ∃ row' ∈ ((row, queueCount) :: rest).map Prod.fst, roundRead entries row'.key = some r :=
      fun h => (ih h).imp fun _ found => ⟨List.mem_cons_of_mem _ found.1, found.2⟩
    unfold roundReads at h
    split at h
    · exact later h
    · cases h
    · rcases List.mem_append.mp h with here | rest
      · exact ⟨row, List.mem_cons_self, Option.mem_toList.mp here⟩
      · exact later rest

end Right

def ofPartition (l : FullSync.Layout) (p : FullSync.Partition) : Entry :=
  ⟨p.devno, p.offset, volumeBlockCount p.length, p.vss,
    ⟨p.devno, if p.vss then p.offset else 0, FullSync.readerSize l p⟩, none⟩

def BlockRead.asked (r : BlockRead) : FullSync.DiskRange :=
  ⟨r.handle.devno, r.handle.base + r.offset, toRead r.handle.size r.offset⟩

/-- The main loop over such entries asks for the ranges of the full sync. -/
theorem mainReads_asked (l : FullSync.Layout) (p : FullSync.Partition) :
    (mainReads (ofPartition l p)).map BlockRead.asked = FullSync.transferRanges l p := by
  rw [mainReads, List.map_map]
  refine List.map_congr_left fun blk _ => ?_
  simp only [Function.comp_apply, BlockRead.asked, blockRead, ofPartition, FullSync.transferBlock]
  cases p.vss <;> simp

theorem gptBlockReads_asked (drives : Drives) (d : Fin maxTargetDisks) :
    (gptBlockReads (drives.handle d)).map BlockRead.asked = FullSync.gptBlocks d (drives.size d) := by
  simp only [gptBlockReads, FullSync.gptBlocks, Drives.handle, List.map_cons, BlockRead.asked,
    Nat.zero_add]
  split <;> simp [BlockRead.asked]

def freshRow (k : Key) : Row := ⟨k.1, k.2, 0, 0, false, 0, 0, ""⟩

theorem freshRow_batch (k : Key) :
    IsUnackedBatch (Keyed.put Keyed.empty (freshRow k)) "" roundLimit [freshRow k] := by
  simp [IsUnackedBatch, Keyed.put, Keyed.empty, unackedRows, freshRow, roundLimit]

theorem freshRow_read {entries : List Entry} {k : Key} {r : BlockRead}
    (h : roundRead entries k = some r) : r ∈ roundReads entries 0 [(freshRow k, 0)] := by
  simp [roundReads, examineRow, freshRow, h, Row.key]

/-- Every read is made at the address its block is tracked under, exactly when no lookup
leads to a snapshot standing in for the live reader of a partition that does not start
at the disk's first byte. -/
theorem reads_right_iff (drives : Drives) (opens : Fin maxTargetDisks → Bool) (tailSend : Bool)
    (volumes : List (Volume × Opening)) :
    (∀ r, Reads drives opens tailSend volumes r → r.Right) ↔
      (tailSend = true → ∀ k e, findEntry (readers drives tailSend volumes) k = some e →
        e.isVss = true → e.live = some e.reader → e.partitionOffset = 0) := by
  have valid : ∀ e ∈ readers drives tailSend volumes, e.Valid drives :=
    fun e => valid_of_mem_readers
  constructor
  · intro right tail k e found vss live
    have read : roundRead (readers drives tailSend volumes) k =
        some ⟨e.live.getD e.reader, diskOffset k, k⟩ := by rw [roundRead, found, Option.map_some]
    have here := right _ (.round tail (freshRow_batch k) (freshRow_read read))
    have base := (roundRead_right_iff valid found).mp here
    rw [live, Option.getD_some, (valid e (findEntry_spec found).1).reader_base, if_pos vss] at base
    exact base
  · rintro condition r (⟨entry, read⟩ | read | ⟨-, -, read⟩ | ⟨tail, -, read⟩ | ⟨entry, read⟩)
    · exact mainReads_right (valid _ entry) read
    · exact gptReads_right valid read
    · exact retransmitRead_right valid read
    · obtain ⟨row, -, read⟩ := mem_roundReads read
      obtain ⟨e, found, rfl⟩ := Option.map_eq_some_iff.mp read
      refine (roundRead_right_iff valid found).mpr ?_
      have entry := (findEntry_spec found).1
      obtain ⟨h, live⟩ := live_of_tailSend (tail ▸ entry)
      rw [live, Option.getD_some]
      rcases (valid e entry).live h live with rfl | rfl
      · rfl
      · rw [(valid e entry).reader_base]
        split
        next vss => exact condition tail row.key e found vss live
        · rfl
    · exact incsyncReads_right (valid_of_mem_readers entry) read

theorem blockSize_lt : blockSize < 2 ^ 63 := by decide

theorem fourBlocks_lt : 4 * blockSize < 2 ^ 63 := by decide

theorem eightBlocks_lt : 8 * blockSize < 2 ^ 63 := by decide

def fallbackDrives : Drives := ⟨fun _ => 8 * blockSize, fun _ => eightBlocks_lt⟩

/-- A partition with a snapshot at the second block of its disk; the drive cannot be opened
again for the incremental rounds. -/
def fallbackVolumes : List (Volume × Opening) :=
  [(⟨0, blockSize, 4 * blockSize, true, blockSize_lt, fourBlocks_lt⟩,
    ⟨some (4 * blockSize), true, false, by simp [blockSize]⟩)]

def fallbackRead : BlockRead :=
  ⟨⟨0, blockSize, 4 * blockSize⟩, blockSize, keyAt 0 blockSize⟩

/-- The round reads the second block of the partition and compares it with the first. -/
theorem fallbackRead_wrong :
    Reads fallbackDrives (fun _ => true) true fallbackVolumes fallbackRead ∧
      fallbackRead.address = (0, 2 * blockSize) ∧ diskOffset fallbackRead.key = blockSize ∧
      ¬ fallbackRead.Right := by
  have read : roundRead (readers fallbackDrives true fallbackVolumes) (keyAt 0 blockSize) =
      some fallbackRead := by decide +kernel
  exact ⟨.round rfl (freshRow_batch _) (freshRow_read read), by decide, by decide, by decide⟩

end Go2Cloud.ReaderTable
