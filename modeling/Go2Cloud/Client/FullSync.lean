import Go2Cloud.Client.Reader
import Go2Cloud.Lib.ByteStore
import Go2Cloud.Lib.Table
import Go2Cloud.Server.BlockWriter

/-! Which bytes the full sync reads: the main transfer loop and the GPT step of
do_migrate (client/main.c). Offsets and sizes are below 2^64 throughout, so they
are naturals. -/
namespace Go2Cloud.FullSync
open Protocol Reader Intervals Keyed BlockWriter

structure Partition where
  devno : Fin maxTargetDisks
  offset : Nat
  length : Nat
  vss : Bool
  deriving DecidableEq, Repr

structure Layout where
  diskSize : Fin maxTargetDisks → Nat
  partitions : List Partition
  sizes : ∀ d, diskSize d < 2 ^ 64
  inside : ∀ p ∈ partitions, 1 ≤ p.length ∧ p.offset + p.length ≤ diskSize p.devno
  sectors : ∀ p ∈ partitions, 512 ∣ p.offset ∧ 512 ∣ p.length

def volumeBlockCount (totalBytes : Nat) : Nat :=
  if totalBytes % blockSize ≠ 0 then totalBytes / blockSize + 1 else totalBytes / blockSize

def readerSize (l : Layout) (p : Partition) : Nat :=
  if p.vss then p.length else l.diskSize p.devno

def transferBlocks (l : Layout) (p : Partition) : Nat :=
  let diskEnd := readerSize l p
  if diskEnd > p.offset then
    let maxBlocks := (diskEnd - p.offset) / blockSize
    if volumeBlockCount p.length > maxBlocks then maxBlocks else volumeBlockCount p.length
  else 0

structure DiskRange where
  devno : Fin maxTargetDisks
  start : Nat
  len : Nat
  deriving DecidableEq, Repr

def DiskRange.Has (r : DiskRange) (devno : Fin maxTargetDisks) (x : Nat) : Prop :=
  r.devno = devno ∧ r.start ≤ x ∧ x < r.start + r.len

def transferBlock (l : Layout) (p : Partition) (blk : Nat) : DiskRange :=
  let diskOffset := p.offset + blk * blockSize
  let readerOffset := if p.vss then blk * blockSize else diskOffset
  ⟨p.devno, diskOffset, toRead (readerSize l p) readerOffset⟩

def transferRanges (l : Layout) (p : Partition) : List DiskRange :=
  (List.range (transferBlocks l p)).map (transferBlock l p)

def gptBlocks (devno : Fin maxTargetDisks) (diskSize : Nat) : List DiskRange :=
  let alignedEnd := diskSize / blockSize * blockSize
  ⟨devno, 0, toRead diskSize 0⟩ ::
    if alignedEnd ≥ 2 * blockSize then
      [2, 1].map fun t =>
        ⟨devno, alignedEnd - t * blockSize, toRead diskSize (alignedEnd - t * blockSize)⟩
    else []

/-- The GPT step visits each disk once, at its first reader. With a snapshot
reader the physical drive has to be opened for it, which `opens` decides. -/
def gptRanges (l : Layout) (opens : Fin maxTargetDisks → Bool) :
    List Partition → (Fin maxTargetDisks → Bool) → List DiskRange
  | [], _ => []
  | p :: rest, done =>
    if done p.devno then gptRanges l opens rest done
    else
      let done' := Function.update done p.devno true
      if p.vss && !opens p.devno then gptRanges l opens rest done'
      else gptBlocks p.devno (l.diskSize p.devno) ++ gptRanges l opens rest done'

def fullSyncRanges (l : Layout) (opens : Fin maxTargetDisks → Bool) : List DiskRange :=
  l.partitions.flatMap (transferRanges l) ++ gptRanges l opens l.partitions fun _ => false

def Covers (l : Layout) (opens : Fin maxTargetDisks → Bool) : Prop :=
  ∀ p ∈ l.partitions, ∀ x, p.offset ≤ x → x < p.offset + p.length →
    ∃ r ∈ fullSyncRanges l opens, r.Has p.devno x

def gptSent (l : Layout) (opens : Fin maxTargetDisks → Bool) (d : Fin maxTargetDisks) : Bool :=
  match l.partitions.find? fun p => p.devno = d with
  | some p => !p.vss || opens d
  | none => false

def gptRuns (diskSize : Nat) : List Interval :=
  let alignedEnd := diskSize / blockSize * blockSize
  ⟨0, min blockSize diskSize⟩ ::
    if alignedEnd ≥ 2 * blockSize then [⟨alignedEnd - 2 * blockSize, alignedEnd⟩] else []

/-- From the start of a partition on, as many blocks as it has, but only the whole ones
between that address and the size of the snapshot or of the disk. -/
def partitionRun (l : Layout) (p : Partition) : Interval :=
  let size := if p.vss then p.length else l.diskSize p.devno
  ⟨p.offset, p.offset +
    min ((p.length + (blockSize - 1)) / blockSize) ((size - p.offset) / blockSize) * blockSize⟩

def runs (l : Layout) (opens : Fin maxTargetDisks → Bool) (d : Fin maxTargetDisks) :
    List Interval :=
  ((l.partitions.filter fun p => p.devno = d).map (partitionRun l)) ++
    if gptSent l opens d then gptRuns (l.diskSize d) else []

theorem volumeBlockCount_eq (totalBytes : Nat) :
    volumeBlockCount totalBytes = (totalBytes + (blockSize - 1)) / blockSize := by
  unfold volumeBlockCount blockSize
  split <;> omega

theorem transferBlocks_eq (l : Layout) (p : Partition) :
    transferBlocks l p = min ((p.length + (blockSize - 1)) / blockSize)
      ((readerSize l p - p.offset) / blockSize) := by
  rw [← volumeBlockCount_eq]
  simp only [transferBlocks]
  split_ifs with beyond many
  · exact (Nat.min_eq_right many.le).symm
  · exact (Nat.min_eq_left (Nat.le_of_not_gt many)).symm
  · rw [Nat.sub_eq_zero_of_le (Nat.le_of_not_gt beyond), Nat.zero_div, Nat.min_zero]

theorem partitionRun_eq (l : Layout) (p : Partition) :
    partitionRun l p = ⟨p.offset, p.offset + transferBlocks l p * blockSize⟩ := by
  rw [transferBlocks_eq]
  rfl

theorem transferBlocks_fit (l : Layout) (p : Partition) :
    transferBlocks l p * blockSize ≤ readerSize l p - p.offset := by
  rw [transferBlocks_eq]
  exact (Nat.mul_le_mul_right _ (Nat.min_le_right _ _)).trans (Nat.div_mul_le_self _ _)

theorem readerSize_lt {l : Layout} {p : Partition} (h : p ∈ l.partitions) :
    readerSize l p < 2 ^ 64 := by
  have disk := l.sizes p.devno
  have inside := (l.inside p h).2
  unfold readerSize
  split <;> omega

theorem transferBlock_len {l : Layout} {p : Partition} (h : p ∈ l.partitions) {blk : Nat}
    (hb : blk < transferBlocks l p) : (transferBlock l p blk).len = blockSize := by
  have fit := transferBlocks_fit l p
  have next := block_end_le hb
  have small := readerSize_lt h
  have positive : 0 < blockSize := by decide
  simp only [transferBlock]
  split
  all_goals
    rw [toRead_eq (by omega) small]
    exact Nat.min_eq_left (by omega)

theorem transferRanges_has {l : Layout} {p : Partition} (h : p ∈ l.partitions)
    (d : Fin maxTargetDisks) (x : Nat) :
    (∃ r ∈ transferRanges l p, r.Has d x) ↔
      p.devno = d ∧ p.offset ≤ x ∧ x < p.offset + transferBlocks l p * blockSize := by
  simp only [transferRanges, List.mem_map, List.mem_range]
  constructor
  · rintro ⟨-, ⟨blk, hb, rfl⟩, disk, low, high⟩
    rw [transferBlock_len h hb] at high
    have next := block_end_le hb
    simp only [transferBlock] at disk low high
    exact ⟨disk, by omega, by omega⟩
  · rintro ⟨disk, low, high⟩
    -- the block that holds x
    have inside : x - p.offset < transferBlocks l p * blockSize := by omega
    obtain ⟨hb, below, above⟩ := block_around inside
    refine ⟨_, ⟨_, hb, rfl⟩, disk, ?_, ?_⟩
    · simp only [transferBlock]
      omega
    · rw [transferBlock_len h hb]
      simp only [transferBlock]
      omega

theorem gptBlocks_has {d d' : Fin maxTargetDisks} {size : Nat} (h : size < 2 ^ 64) (x : Nat) :
    (∃ r ∈ gptBlocks d size, r.Has d' x) ↔ d = d' ∧ Covered (gptRuns size) x := by
  have below := Nat.div_mul_le_self size blockSize
  have first := toRead_eq (Nat.zero_le size) h
  by_cases two : size / blockSize * blockSize ≥ 2 * blockSize
  · have footer : ∀ t, 1 ≤ t → t ≤ 2 →
        toRead size (size / blockSize * blockSize - t * blockSize) = blockSize := by
      intro t one le
      have : blockSize ≤ t * blockSize := Nat.le_mul_of_pos_left _ one
      rw [toRead_eq (by omega) h]
      have : t * blockSize ≤ 2 * blockSize := Nat.mul_le_mul_right _ le
      exact Nat.min_eq_left (by omega)
    simp only [gptBlocks, gptRuns, if_pos two, Covered, DiskRange.Has, Interval.Has,
      List.map_cons, List.map_nil, List.mem_cons, List.not_mem_nil, or_false, exists_eq_or_imp,
      exists_eq_left, first, footer 2 (by decide) (by decide), footer 1 (by decide) (by decide),
      Nat.sub_zero, Nat.zero_add, Nat.zero_le, true_and]
    omega
  · simp only [gptBlocks, gptRuns, if_neg two, Covered, DiskRange.Has, Interval.Has, List.mem_cons,
      List.not_mem_nil, or_false, exists_eq_left, first, Nat.sub_zero, Nat.zero_add, Nat.zero_le,
      true_and]

def Serves (opens : Fin maxTargetDisks → Bool) (ps : List Partition) (d : Fin maxTargetDisks) :
    Prop :=
  ∃ p, ps.find? (fun p => p.devno = d) = some p ∧ (!p.vss || opens d) = true

theorem gptRanges_eq (l : Layout) (opens : Fin maxTargetDisks → Bool) (ps : List Partition)
    (done : Fin maxTargetDisks → Bool) :
    gptRanges l opens ps done = (once Partition.devno ps done).flatMap fun p =>
      if p.vss && !opens p.devno then [] else gptBlocks p.devno (l.diskSize p.devno) := by
  induction ps generalizing done with
  | nil => rfl
  | cons q rest ih =>
    rw [gptRanges, once]
    split
    · exact ih done
    · rw [List.flatMap_cons, ← ih]
      split <;> simp_all

theorem mem_gptRanges (l : Layout) (opens : Fin maxTargetDisks → Bool) (ps : List Partition)
    (done : Fin maxTargetDisks → Bool) (r : DiskRange) :
    r ∈ gptRanges l opens ps done ↔
      ∃ d, done d = false ∧ Serves opens ps d ∧ r ∈ gptBlocks d (l.diskSize d) := by
  simp only [gptRanges_eq, List.mem_flatMap, mem_once]
  constructor
  · rintro ⟨p, ⟨fresh, first⟩, member⟩
    split at member
    · cases member
    next sends =>
      exact ⟨p.devno, fresh, ⟨p, first, by cases hv : p.vss <;> simp_all⟩, member⟩
  · rintro ⟨d, fresh, ⟨p, first, sends⟩, member⟩
    obtain rfl : p.devno = d := by simpa using List.find?_some first
    refine ⟨p, ⟨fresh, first⟩, ?_⟩
    rw [if_neg (by cases hv : p.vss <;> simp_all)]
    exact member

theorem gptSent_iff (l : Layout) (opens : Fin maxTargetDisks → Bool) (d : Fin maxTargetDisks) :
    gptSent l opens d = true ↔ Serves opens l.partitions d := by
  unfold gptSent Serves
  cases l.partitions.find? fun p => p.devno = d <;> simp

theorem gptRanges_has (l : Layout) (opens : Fin maxTargetDisks → Bool) (d : Fin maxTargetDisks)
    (x : Nat) :
    (∃ r ∈ gptRanges l opens l.partitions fun _ => false, r.Has d x) ↔
      Covered (if gptSent l opens d then gptRuns (l.diskSize d) else []) x := by
  simp only [mem_gptRanges, true_and, ← gptSent_iff]
  constructor
  · rintro ⟨r, ⟨d', sent, hr⟩, has⟩
    obtain ⟨rfl, covered⟩ := (gptBlocks_has (l.sizes d') x).mp ⟨r, hr, has⟩
    rwa [if_pos sent]
  · intro covered
    split at covered
    next sent =>
      obtain ⟨r, hr, has⟩ := (gptBlocks_has (l.sizes d) x).mpr ⟨rfl, covered⟩
      exact ⟨r, ⟨d, sent, hr⟩, has⟩
    · simp [Covered] at covered

theorem fullSyncRanges_has (l : Layout) (opens : Fin maxTargetDisks → Bool)
    (d : Fin maxTargetDisks) (x : Nat) :
    (∃ r ∈ fullSyncRanges l opens, r.Has d x) ↔ Covered (runs l opens d) x := by
  have transfer : (∃ r ∈ l.partitions.flatMap (transferRanges l), r.Has d x) ↔
      Covered ((l.partitions.filter fun p => p.devno = d).map (partitionRun l)) x := by
    simp only [Covered, List.mem_map, List.mem_filter, List.mem_flatMap, decide_eq_true_eq,
      partitionRun_eq]
    constructor
    · rintro ⟨r, ⟨p, hp, hr⟩, has⟩
      obtain ⟨disk, low, high⟩ := (transferRanges_has hp d x).mp ⟨r, hr, has⟩
      exact ⟨_, ⟨p, ⟨hp, disk⟩, rfl⟩, low, high⟩
    · rintro ⟨-, ⟨p, ⟨hp, disk⟩, rfl⟩, low, high⟩
      obtain ⟨r, hr, has⟩ := (transferRanges_has hp d x).mpr ⟨disk, low, high⟩
      exact ⟨r, ⟨p, hp, hr⟩, has⟩
  have gpt := gptRanges_has l opens d x
  simp only [fullSyncRanges, runs, Covered, List.mem_append, or_and_right, exists_or] at transfer gpt ⊢
  rw [transfer, gpt]

/-- The full sync reads every byte of every partition exactly when, behind the run of
each partition, the rest of it is bridged: the first byte left out and every end of a
run among those bytes lie in another run. -/
theorem covers_iff_tails_bridged (l : Layout) (opens : Fin maxTargetDisks → Bool) :
    Covers l opens ↔ ∀ p ∈ l.partitions, ∀ x,
      (x = (partitionRun l p).stop ∨ ∃ r ∈ runs l opens p.devno, x = r.stop) →
      (partitionRun l p).stop ≤ x → x < p.offset + p.length →
        ∃ r ∈ runs l opens p.devno, r.start ≤ x ∧ x < r.stop := by
  refine forall₂_congr fun p hp => ?_
  have own : ∀ x, p.offset ≤ x → x < (partitionRun l p).stop →
      Covered (runs l opens p.devno) x := fun x low high =>
    ⟨partitionRun l p, List.mem_append_left _ (List.mem_map.mpr
      ⟨p, List.mem_filter.mpr ⟨hp, by simp⟩, rfl⟩), low, high⟩
  have tail := covered_iff_continued (runs l opens p.devno) (partitionRun l p).stop
    (p.offset + p.length)
  have starts : p.offset ≤ (partitionRun l p).stop := Nat.le_add_right _ _
  simp only [fullSyncRanges_has]
  constructor
  · intro all
    exact tail.mp fun x low high => all x (by omega) high
  · intro bridged x low high
    by_cases inOwn : x < (partitionRun l p).stop
    · exact own x low inOwn
    · exact tail.mpr bridged x (by omega) high

def snapshotLayout : Layout where
  -- a two MiB volume at four MiB on a disk of ten MiB, read from its snapshot
  diskSize := fun _ => 10 * blockSize
  partitions := [⟨0, 4 * blockSize, 2 * blockSize, true⟩]
  sizes := by decide
  inside := by decide
  sectors := by decide

/-- The snapshot ends before the partition starts on the disk, so no block of it
is transferred. -/
theorem snapshotLayout_not_covered : ¬ Covers snapshotLayout fun _ => true := by
  intro covers
  obtain ⟨r, hr, disk, low, high⟩ := covers ⟨0, 4 * blockSize, 2 * blockSize, true⟩ (by decide)
    (4 * blockSize) (by decide) (by decide)
  have listed : fullSyncRanges snapshotLayout (fun _ => true) =
      [⟨0, 0, blockSize⟩, ⟨0, 8 * blockSize, blockSize⟩, ⟨0, 9 * blockSize, blockSize⟩] := by
    decide +kernel
  rw [listed] at hr
  simp only [List.mem_cons, List.not_mem_nil, or_false] at hr
  rcases hr with rfl | rfl | rfl <;> simp [blockSize] at low high

/-- The bytes of the two GPT copies: protective MBR, header and entries in the first 34
sectors, entries and header again in the last 33. -/
def GptArea (diskSize x : Nat) : Prop :=
  x < 34 * 512 ∨ diskSize - 33 * 512 ≤ x ∧ x < diskSize

theorem gptRuns_area {size : Nat} (large : 2 * blockSize ≤ size) :
    (∀ x, GptArea size x → Covered (gptRuns size) x) ↔ size % blockSize = 0 := by
  have split := Nat.div_add_mod' size blockSize
  have two : size / blockSize * blockSize ≥ 2 * blockSize :=
    Nat.mul_le_mul_right _ ((Nat.le_div_iff_mul_le (by decide)).mpr large)
  have block : blockSize = 0x100000 := rfl
  simp only [gptRuns, if_pos two, Covered, Interval.Has, List.mem_cons, List.not_mem_nil, or_false,
    exists_eq_or_imp, exists_eq_left]
  constructor
  · -- the last byte lies behind the last whole block unless that ends the disk
    intro covered
    have last := covered (size - 1) (.inr (by omega))
    omega
  · rintro aligned x (head | tail)
    · exact .inl ⟨Nat.zero_le x, by omega⟩
    · exact .inr ⟨by omega, by omega⟩

/-- The GPT step sends both copies of a disk it serves exactly when the disk is a whole
number of blocks. -/
theorem gpt_copies_sent_iff (l : Layout) (opens : Fin maxTargetDisks → Bool)
    (d : Fin maxTargetDisks) (served : Serves opens l.partitions d)
    (large : 2 * blockSize ≤ l.diskSize d) :
    (∀ x, GptArea (l.diskSize d) x →
      ∃ r ∈ gptRanges l opens l.partitions (fun _ => false), r.Has d x) ↔
      l.diskSize d % blockSize = 0 := by
  rw [← gptRuns_area large]
  refine forall₂_congr fun x _ => ?_
  have sent : gptSent l opens d = true := (gptSent_iff l opens d).mpr served
  rw [gptRanges_has, if_pos sent]

def oddDisk : Layout where
  -- one partition on a disk one sector longer than two blocks
  diskSize := fun _ => 2 * blockSize + 512
  partitions := [⟨0, 512, 512, false⟩]
  sizes := by decide
  inside := by decide
  sectors := by decide

/-- The sector of the backup GPT header is in no block the GPT step sends. -/
theorem oddDisk_backup_not_sent :
    Serves (fun _ => true) oddDisk.partitions 0 ∧ 512 ∣ oddDisk.diskSize 0 ∧
      GptArea (oddDisk.diskSize 0) (2 * blockSize) ∧
      ¬ ∃ r ∈ gptRanges oddDisk (fun _ => true) oddDisk.partitions (fun _ => false),
        r.Has 0 (2 * blockSize) := by
  have listed : gptRanges oddDisk (fun _ => true) oddDisk.partitions (fun _ => false) =
      [⟨0, 0, blockSize⟩, ⟨0, 0, blockSize⟩, ⟨0, blockSize, blockSize⟩] := by
    decide +kernel
  refine ⟨⟨_, rfl, rfl⟩, by decide, .inr (by decide), ?_⟩
  rw [listed]
  rintro ⟨r, hr, -, low, high⟩
  simp only [List.mem_cons, List.not_mem_nil, or_false] at hr
  rcases hr with rfl | rfl | rfl <;> simp [blockSize] at low high

theorem gpt_copies_sent_iff_oddDisk :
    Serves (fun _ => true) oddDisk.partitions 0 ∧ 2 * blockSize ≤ oddDisk.diskSize 0 ∧
      ((∀ x, GptArea (oddDisk.diskSize 0) x →
        ∃ r ∈ gptRanges oddDisk (fun _ => true) oddDisk.partitions (fun _ => false), r.Has 0 x) ↔
        oddDisk.diskSize 0 % blockSize = 0) :=
  have served : Serves (fun _ => true) oddDisk.partitions 0 := ⟨_, rfl, rfl⟩
  ⟨served, by decide, gpt_copies_sent_iff oddDisk (fun _ => true) 0 served (by decide)⟩

end Go2Cloud.FullSync
