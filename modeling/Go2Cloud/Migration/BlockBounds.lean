import Go2Cloud.Migration.ReaderTable

/-! Where the blocks of a partition end (the main transfer loop of do_migrate and
cmd_incsync in client/main.c). Block counts are rounded up to whole blocks, and a read
is cut at the end of its reader, which for a physical drive is the end of the disk. -/
namespace Go2Cloud.BlockBounds
open Protocol Reader BlockWriter Mirror ReaderTable

def length (r : BlockRead) : Nat :=
  min (toRead r.handle.size r.offset) (r.handle.size - r.offset)

theorem data_length (src : Source) (r : BlockRead) : (r.data src).length = length r := by
  rw [BlockRead.data, blockReaderRead, ByteStore.read_length]
  rfl

def Has (r : BlockRead) (x : Nat) : Prop := r.address.2 ≤ x ∧ x < r.address.2 + length r

instance (r : BlockRead) (x : Nat) : Decidable (Has r x) := inferInstanceAs (Decidable (_ ∧ _))

def Belongs (v : Volume) (x : Nat) : Prop :=
  v.partitionOffset ≤ x ∧ x < v.partitionOffset + v.totalBytes

instance (v : Volume) (x : Nat) : Decidable (Belongs v x) := inferInstanceAs (Decidable (_ ∧ _))

structure Partitions where
  volumes : List Volume
  nonempty : ∀ v ∈ volumes, 1 ≤ v.totalBytes
  apart : ∀ v ∈ volumes, ∀ w ∈ volumes, v ≠ w → v.devno = w.devno →
    v.partitionOffset + v.totalBytes ≤ w.partitionOffset ∨
      w.partitionOffset + w.totalBytes ≤ v.partitionOffset
  sectors : ∀ v ∈ volumes, 512 ∣ v.partitionOffset ∧ 512 ∣ v.totalBytes

/-- No block of a partition has a byte of another one on its disk. -/
def Within (p : Partitions) (v : Volume) (reads : List BlockRead) : Prop :=
  ∀ r ∈ reads, ∀ w ∈ p.volumes, w ≠ v → w.devno = v.devno → ∀ x, Has r x → ¬ Belongs w x

def blocksEnd (e : Entry) (n : Nat) : Nat :=
  min (e.partitionOffset + n * blockSize) (e.reader.base + e.reader.size)

def EndsBefore (p : Partitions) (v : Volume) (e : Entry) (n : Nat) : Prop :=
  ∀ w ∈ p.volumes, w.devno = v.devno → v.partitionOffset < w.partitionOffset →
    blocksEnd e n ≤ w.partitionOffset

theorem length_eq {r : BlockRead} (size : r.handle.size < 2 ^ 64) :
    length r = min blockSize (r.handle.size - r.offset) := by
  unfold length
  by_cases inside : r.offset ≤ r.handle.size
  · rw [toRead_eq inside size]
    omega
  · omega

theorem blockRead_has {drives : Drives} {e : Entry} (valid : e.Valid drives) (blk x : Nat) :
    Has (blockRead e blk) x ↔ e.partitionOffset + blk * blockSize ≤ x ∧
      x < e.partitionOffset + blk * blockSize + blockSize ∧
      x < e.reader.base + e.reader.size := by
  have size := valid.reader_size
  have start : (blockRead e blk).address.2 = e.partitionOffset + blk * blockSize := by
    simp only [BlockRead.address, blockRead, valid.reader_base]
    cases e.isVss <;> simp
  have long : length (blockRead e blk) =
      min blockSize (e.reader.size - (blockRead e blk).offset) := length_eq (by
    show e.reader.size < 2 ^ 64
    omega)
  have offset : e.reader.base + (blockRead e blk).offset = e.partitionOffset + blk * blockSize :=
    start
  rw [Has, start, long]
  omega

theorem blocks_have {drives : Drives} {e : Entry} (valid : e.Valid drives) (n x : Nat) :
    (∃ r ∈ (List.range n).map (blockRead e), Has r x) ↔
      e.partitionOffset ≤ x ∧ x < blocksEnd e n := by
  simp only [List.mem_map, List.mem_range, blocksEnd, lt_min_iff]
  constructor
  · rintro ⟨-, ⟨blk, hb, rfl⟩, has⟩
    obtain ⟨low, high, inside⟩ := (blockRead_has valid blk x).mp has
    have next := block_end_le hb
    exact ⟨by omega, by omega, inside⟩
  · rintro ⟨low, high, inside⟩
    have within : x - e.partitionOffset < n * blockSize := by omega
    obtain ⟨hb, below, above⟩ := block_around within
    exact ⟨_, ⟨_, hb, rfl⟩, (blockRead_has valid _ x).mpr ⟨by omega, by omega, inside⟩⟩

theorem within_iff {drives : Drives} (p : Partitions) {v : Volume} (hv : v ∈ p.volumes) {e : Entry}
    (valid : e.Valid drives) (start : e.partitionOffset = v.partitionOffset) (n : Nat) :
    Within p v ((List.range n).map (blockRead e)) ↔ EndsBefore p v e n := by
  -- partitions lie apart, so only those behind a partition can be reached
  constructor
  · intro within w hw same behind
    by_contra spills
    have bytes := p.nonempty w hw
    obtain ⟨r, hr, has⟩ := (blocks_have valid n w.partitionOffset).mpr ⟨by omega, by omega⟩
    refine within r hr w hw ?_ same _ has ⟨le_rfl, by omega⟩
    rintro rfl
    exact absurd behind (lt_irrefl _)
  · intro ends r hr w hw ne same x has belongs
    obtain ⟨low, high⟩ := (blocks_have valid n x).mp ⟨r, hr, has⟩
    obtain ⟨low', high'⟩ := belongs
    have bytes := p.nonempty v hv
    rcases p.apart v hv w hw (Ne.symm ne) same.symm with behind | before
    · have := ends w hw same (by omega)
      omega
    · omega

/-- The blocks of the main loop and of cmd_incsync keep to their partition exactly when the
rounded-up blocks of each partition, cut at the end of its reader, end before the next
partition of the disk. -/
theorem blocks_within_iff (drives : Drives) (tailSend : Bool) (p : Partitions)
    (migrate incsync : Volume → Opening) :
    (∀ v ∈ p.volumes,
      (∀ e, openEntry drives tailSend v (migrate v) = some e → Within p v (mainReads e)) ∧
        ∀ e, openEntry drives false v (incsync v) = some e → Within p v (incsyncReads e)) ↔
      ∀ v ∈ p.volumes,
        (∀ e, openEntry drives tailSend v (migrate v) = some e → EndsBefore p v e e.transferBlocks) ∧
          ∀ e, openEntry drives false v (incsync v) = some e → EndsBefore p v e e.blockCount := by
  refine forall₂_congr fun v hv => and_congr ?_ ?_
  · exact forall₂_congr fun e opened =>
      within_iff p hv (openEntry_valid opened) (openEntry_volume opened).2.1 e.transferBlocks
  · exact forall₂_congr fun e opened =>
      within_iff p hv (openEntry_valid opened) (openEntry_volume opened).2.1 e.blockCount

theorem oneAndHalfBlocks_lt : 3 * 524288 < 2 ^ 63 := by decide

theorem twoAndHalfBlocks_lt : 5 * 524288 < 2 ^ 63 := by decide

-- a partition of one and a half blocks directly before another, read from the drive
def first : Volume := ⟨0, blockSize, 3 * 524288, false, blockSize_lt, oneAndHalfBlocks_lt⟩

def second : Volume := ⟨0, 5 * 524288, 4 * blockSize, false, twoAndHalfBlocks_lt, fourBlocks_lt⟩

def adjacent : Partitions where
  volumes := [first, second]
  nonempty := by simp [first, second, blockSize]
  apart := by simp [first, second, blockSize]
  sectors := by simp [first, second, blockSize]

def adjacentDrives : Drives := ⟨fun _ => 16 * blockSize, fun _ => Nat.le_of_ble_eq_true rfl⟩

def firstEntry : Entry := ⟨0, blockSize, 2, false, adjacentDrives.handle 0, none⟩

/-- The second block of the first partition runs half a block into the second one. -/
theorem adjacent_not_within :
    openEntry adjacentDrives false first .fromDrive = some firstEntry ∧
      ¬ Within adjacent first (mainReads firstEntry) ∧
      ¬ Within adjacent first (incsyncReads firstEntry) := by
  have opened : openEntry adjacentDrives false first .fromDrive = some firstEntry := by
    decide +kernel
  have valid := openEntry_valid opened
  have listed : first ∈ adjacent.volumes := List.mem_cons_self
  have next : second ∈ adjacent.volumes := List.mem_cons_of_mem _ List.mem_cons_self
  refine ⟨opened, ?_, ?_⟩
  · rw [mainReads, within_iff adjacent listed valid rfl]
    intro ends
    exact absurd (ends second next rfl (by decide)) (by decide)
  · rw [incsyncReads, within_iff adjacent listed valid rfl]
    intro ends
    exact absurd (ends second next rfl (by decide)) (by decide)

end Go2Cloud.BlockBounds
