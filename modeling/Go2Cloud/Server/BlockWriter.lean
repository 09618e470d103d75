import Go2Cloud.Lib.ByteStore
import Go2Cloud.Protocol
import Mathlib.Logic.Function.Basic

/-! Writing blocks to the target disks (server/block_writer.c). System calls
consult a script of results; past its end they succeed in full. Every routine
also lists the effects it had on the disks, in order. -/
namespace Go2Cloud.BlockWriter
open Protocol

def maxTargetDisks : Nat := 16
instance : NeZero maxTargetDisks := ⟨by decide⟩

def fsyncBlockInterval : Nat := 2000

structure TargetDisk where
  registered : Bool
  opened : Bool
  position : Nat
  image : Nat → UInt8

structure Writer where
  disks : Fin maxTargetDisks → TargetDisk
  totalBlocks : UInt64
  totalBytes : UInt64
  blocksSinceFsync : UInt64
  pendingBytes : UInt64

def blankWriter : Writer := ⟨fun _ => ⟨true, true, 0, fun _ => 0⟩, 0, 0, 0, 0⟩

inductive WriteResult where
  | wrote (n : Nat)
  | interrupted
  | error
  deriving DecidableEq, Repr

structure DiskIo where
  -- results of the system calls one message may cause
  seek : Bool
  writes : List WriteResult
  fsyncs : List Bool
  deriving DecidableEq, Repr

inductive DiskOp where
  | wrote (disk : Fin maxTargetDisks) (pos : Nat) (bytes : List UInt8)
  | synced (disk : Fin maxTargetDisks) (ok : Bool)
  deriving DecidableEq, Repr

def TargetDisk.seek (d : TargetDisk) (pos : Nat) : TargetDisk := { d with position := pos }

def TargetDisk.put (d : TargetDisk) (bytes : List UInt8) : TargetDisk :=
  { d with image := ByteStore.write d.image d.position bytes, position := d.position + bytes.length }

def Writer.setDisk (w : Writer) (i : Fin maxTargetDisks) (d : TargetDisk) : Writer :=
  { w with disks := Function.update w.disks i d }

structure LoopResult where
  ok : Bool
  disk : TargetDisk
  landed : List UInt8

def writeLoop : List WriteResult → TargetDisk → List UInt8 → LoopResult
  -- `while (written < len)`
  | _, d, [] => ⟨true, d, []⟩
  | [], d, data => ⟨true, d.put data, data⟩
  | .interrupted :: script, d, data => writeLoop script d data
  | .error :: _, d, _ => ⟨false, d, []⟩
  | .wrote n :: script, d, data =>
    let rest := writeLoop script (d.put (data.take n)) (data.drop n)
    { rest with landed := data.take n ++ rest.landed }

def fsyncFrom (disks : Fin maxTargetDisks → TargetDisk) :
    List (Fin maxTargetDisks) → List Bool → List DiskOp
  -- one fsync per open disk, in index order; failures are only logged
  | [], _ => []
  | i :: rest, script =>
    if (disks i).opened then
      .synced i (script.headD true) :: fsyncFrom disks rest script.tail
    else fsyncFrom disks rest script

def blockWriterFsyncAll (w : Writer) (script : List Bool) : List DiskOp :=
  fsyncFrom w.disks (List.finRange maxTargetDisks) script

def diskOf (devno : Int32) : Option (Fin maxTargetDisks) :=
  if h : 0 ≤ devno.toInt ∧ devno.toInt.toNat < maxTargetDisks then some ⟨devno.toInt.toNat, h.2⟩
  else none

theorem diskOf_val {d : Int32} {i : Fin maxTargetDisks} (h : diskOf d = some i) : d.toInt = i.val := by
  unfold diskOf at h
  split at h
  next range =>
    cases h
    exact (Int.toNat_of_nonneg range.1).symm
  · cases h

theorem diskOf_injective {a b : Int32} {i : Fin maxTargetDisks} (ha : diskOf a = some i)
    (hb : diskOf b = some i) : a = b :=
  Int32.toInt_inj.mp ((diskOf_val ha).trans (diskOf_val hb).symm)

structure Written where
  ok : Bool
  writer : Writer
  ops : List DiskOp

def Written.landed (r : Written) : List UInt8 :=
  match r.ops with
  | .wrote _ _ bytes :: _ => bytes
  | _ => []

def countBlock (w : Writer) (io : DiskIo) (len : Nat) : Writer × List DiskOp :=
  -- counters after a complete block, and the fsync every FSYNC_BLOCK_INTERVAL blocks
  let since := w.blocksSinceFsync + 1
  let due := since ≥ UInt64.ofNat fsyncBlockInterval
  ({ w with
      totalBlocks := w.totalBlocks + 1
      totalBytes := w.totalBytes + UInt64.ofNat len
      pendingBytes := w.pendingBytes + UInt64.ofNat len
      blocksSinceFsync := if due then 0 else since },
    if due then blockWriterFsyncAll w io.fsyncs else [])

def finishWrite (w : Writer) (io : DiskIo) (i : Fin maxTargetDisks) (b : Block)
    (r : LoopResult) : Written :=
  let wrote := DiskOp.wrote i b.offset.toInt.toNat r.landed
  if r.ok then
    let counted := countBlock (w.setDisk i r.disk) io b.data.length
    ⟨true, counted.1, wrote :: counted.2⟩
  else ⟨false, w.setDisk i r.disk, [wrote]⟩

def blockWriterWrite (w : Writer) (io : DiskIo) (b : Block) : Written :=
  match diskOf b.devno with
  | none => ⟨false, w, []⟩
  | some i =>
    if ¬ (w.disks i).registered ∨ ¬ (w.disks i).opened then ⟨false, w, []⟩
    else if ¬ io.seek ∨ b.offset.toInt < 0 then ⟨false, w, []⟩
    else
      finishWrite w io i b
        (writeLoop io.writes ((w.disks i).seek b.offset.toInt.toNat) b.data)

/-- Nothing stands in the way of the write: the target is registered and open,
lseek accepts the offset, and no write call fails. -/
def Ready (w : Writer) (io : DiskIo) (b : Block) : Prop :=
  (∃ i, diskOf b.devno = some i ∧ (w.disks i).registered = true ∧ (w.disks i).opened = true) ∧
    io.seek = true ∧ 0 ≤ b.offset.toInt ∧ .error ∉ io.writes

instance (w : Writer) (io : DiskIo) (b : Block) : Decidable (Ready w io b) :=
  inferInstanceAs (Decidable (_ ∧ _ ∧ _ ∧ _))

def blockWriterPendingBytes (w : Writer) : UInt64 × Writer :=
  -- reading the counter resets it
  (w.pendingBytes, { w with pendingBytes := 0 })

theorem TargetDisk.put_put (d : TargetDisk) (a b : List UInt8) :
    (d.put a).put b = d.put (a ++ b) := by
  simp only [TargetDisk.put, ByteStore.write_append, List.length_append, Nat.add_assoc]

@[simp] theorem TargetDisk.put_nil (d : TargetDisk) : d.put [] = d := by
  simp [TargetDisk.put]

theorem writeLoop_spec (script : List WriteResult) (d : TargetDisk) (data : List UInt8) :
    (writeLoop script d data).landed <+: data ∧
      (writeLoop script d data).disk = d.put (writeLoop script d data).landed ∧
      ((writeLoop script d data).ok = true → (writeLoop script d data).landed = data) := by
  -- the loop puts a prefix of the data at the file position, all of it on success
  induction script generalizing d data with
  | nil =>
    cases data with
    | nil => exact ⟨ List.nil_prefix, d.put_nil.symm, fun _ => rfl⟩
    | cons b data => exact ⟨ List.prefix_refl _, rfl, fun _ => rfl⟩
  | cons result script ih =>
    cases data with
    | nil => exact ⟨ List.nil_prefix, d.put_nil.symm, fun _ => rfl⟩
    | cons b data =>
      cases result with
      | interrupted => exact ih d (b :: data)
      | error => exact ⟨ List.nil_prefix, d.put_nil.symm, fun ok => Bool.noConfusion ok⟩
      | wrote n =>
        obtain ⟨⟨rest, split⟩, put, all⟩ :=
          ih (d.put ((b :: data).take n)) ((b :: data).drop n)
        refine ⟨⟨rest, ?_⟩, ?_, fun ok => ?_⟩
        · simp only [writeLoop]
          rw [List.append_assoc, split, List.take_append_drop]
        · simp only [writeLoop]
          rw [put, TargetDisk.put_put]
        · simp only [writeLoop] at ok ⊢
          rw [all ok, List.take_append_drop]

theorem writeLoop_ok {script : List WriteResult} (h : .error ∉ script) (d : TargetDisk)
    (data : List UInt8) : (writeLoop script d data).ok = true := by
  induction script generalizing d data with
  | nil => cases data <;> rfl
  | cons result script ih =>
    have rest : .error ∉ script := fun member => h (List.mem_cons_of_mem _ member)
    cases data with
    | nil => rfl
    | cons b data =>
      cases result with
      | interrupted => exact ih rest d (b :: data)
      | error => exact absurd List.mem_cons_self h
      | wrote n => exact ih rest _ _

abbrev Store := Fin maxTargetDisks → Nat → UInt8

def Writer.store (w : Writer) : Store := fun i => (w.disks i).image

def Store.put (s : Store) (devno : Int32) (offset : Int64) (bytes : List UInt8) : Store :=
  match diskOf devno with
  | none => s
  | some i => Function.update s i (ByteStore.write (s i) offset.toInt.toNat bytes)

theorem Store.put_on (s : Store) {devno : Int32} {i : Fin maxTargetDisks}
    (disk : diskOf devno = some i) (offset : Int64) (bytes : List UInt8) :
    s.put devno offset bytes =
      Function.update s i (ByteStore.write (s i) offset.toInt.toNat bytes) := by
  rw [Store.put, disk]

@[simp] theorem Store.put_nil (s : Store) (devno : Int32) (offset : Int64) :
    s.put devno offset [] = s := by
  unfold Store.put
  split <;> simp

@[simp] theorem Writer.store_setDisk (w : Writer) (i : Fin maxTargetDisks) (d : TargetDisk) :
    (w.setDisk i d).store = Function.update w.store i d.image := by
  funext j
  by_cases h : j = i
  · subst h
    simp [Writer.store, Writer.setDisk]
  · simp [Writer.store, Writer.setDisk, Function.update_of_ne h]

@[simp] theorem countBlock_store (w : Writer) (io : DiskIo) (len : Nat) :
    (countBlock w io len).1.store = w.store := rfl

/-- What one call does: bytes of the block land from its offset on, all of them
exactly when the call succeeds, and only then the counters move. -/
structure WriteSpec (w : Writer) (b : Block) (r : Written) (landed : List UInt8) : Prop where
  landed_le : landed <+: b.data
  store : r.writer.store = w.store.put b.devno b.offset landed
  complete : r.ok = true → landed = b.data
  disk : r.ok = true → ∃ i synced, diskOf b.devno = some i ∧ 0 ≤ b.offset.toInt ∧
    r.ops = .wrote i b.offset.toInt.toNat b.data :: synced
  blocks : r.writer.totalBlocks = w.totalBlocks + if r.ok then 1 else 0
  bytes : r.writer.totalBytes = w.totalBytes + if r.ok then UInt64.ofNat b.data.length else 0

theorem WriteSpec.refused (w : Writer) (b : Block) : WriteSpec w b ⟨false, w, []⟩ [] where
  landed_le := List.nil_prefix
  store := by simp
  complete := by simp
  disk := by simp
  blocks := by simp
  bytes := by simp

theorem finishWrite_landed (w : Writer) (io : DiskIo) (i : Fin maxTargetDisks) (b : Block)
    (r : LoopResult) : (finishWrite w io i b r).landed = r.landed := by
  unfold finishWrite
  split <;> rfl

theorem finishWrite_spec (w : Writer) (io : DiskIo) {b : Block} {i : Fin maxTargetDisks}
    (device : diskOf b.devno = some i) (offset : 0 ≤ b.offset.toInt) {r : LoopResult}
    (landed_le : r.landed <+: b.data)
    (put : r.disk = ((w.disks i).seek b.offset.toInt.toNat).put r.landed)
    (all : r.ok = true → r.landed = b.data) :
    WriteSpec w b (finishWrite w io i b r) r.landed := by
  have store : Function.update w.store i r.disk.image = w.store.put b.devno b.offset r.landed := by
    rw [put, Store.put, device]
    rfl
  cases ok : r.ok with
  | false =>
    simp only [finishWrite, ok]
    exact ⟨landed_le, by simpa using store, by simp, by simp, by simp [Writer.setDisk],
      by simp [Writer.setDisk]⟩
  | true =>
    simp only [finishWrite, ok, if_true]
    refine ⟨landed_le, by simpa using store, fun _ => all ok, fun _ => ?_, rfl, rfl⟩
    exact ⟨i, _, device, offset, by rw [all ok]⟩

theorem blockWriterWrite_landed (w : Writer) (io : DiskIo) (b : Block) :
    WriteSpec w b (blockWriterWrite w io b) (blockWriterWrite w io b).landed := by
  unfold blockWriterWrite
  cases device : diskOf b.devno with
  | none => exact .refused w b
  | some i =>
    simp only
    split
    · exact .refused w b
    split
    · exact .refused w b
    next seek =>
      obtain ⟨landed_le, put, all⟩ :=
        writeLoop_spec io.writes ((w.disks i).seek b.offset.toInt.toNat) b.data
      rw [finishWrite_landed]
      exact finishWrite_spec w io device (by omega) landed_le put all

theorem blockWriterWrite_spec (w : Writer) (io : DiskIo) (b : Block) :
    ∃ landed, WriteSpec w b (blockWriterWrite w io b) landed :=
  ⟨_, blockWriterWrite_landed w io b⟩

theorem blockWriterWrite_ready {w : Writer} {io : DiskIo} {b : Block} (h : Ready w io b) :
    (blockWriterWrite w io b).ok = true := by
  obtain ⟨⟨i, disk, registered, opened⟩, seek, nonneg, no_error⟩ := h
  have done := writeLoop_ok no_error ((w.disks i).seek b.offset.toInt.toNat) b.data
  have available : ¬ (¬ (w.disks i).registered ∨ ¬ (w.disks i).opened) := by
    simp [registered, opened]
  have sought : ¬ (¬ io.seek ∨ b.offset.toInt < 0) := by
    simpa [seek] using nonneg
  simp only [blockWriterWrite, disk, if_neg available, if_neg sought, finishWrite, done, if_true]

theorem blockWriterWrite_available (w : Writer) (io : DiskIo) (b : Block) (j : Fin maxTargetDisks) :
    ((blockWriterWrite w io b).writer.disks j).registered = (w.disks j).registered ∧
      ((blockWriterWrite w io b).writer.disks j).opened = (w.disks j).opened := by
  unfold blockWriterWrite
  split
  · exact ⟨rfl, rfl⟩
  next i device =>
    split
    · exact ⟨rfl, rfl⟩
    split
    · exact ⟨rfl, rfl⟩
    generalize loop : writeLoop io.writes ((w.disks i).seek b.offset.toInt.toNat) b.data = r
    have put := (writeLoop_spec io.writes ((w.disks i).seek b.offset.toInt.toNat) b.data).2.1
    rw [loop] at put
    have same : ((w.setDisk i r.disk).disks j).registered = (w.disks j).registered ∧
        ((w.setDisk i r.disk).disks j).opened = (w.disks j).opened := by
      by_cases here : j = i
      · subst here
        rw [Writer.setDisk, put]
        simp [TargetDisk.put, TargetDisk.seek]
      · simp [Writer.setDisk, Function.update_of_ne here]
    unfold finishWrite
    split
    · exact same
    · exact same

theorem wrote_not_mem_fsyncFrom {disks : Fin maxTargetDisks → TargetDisk}
    {order : List (Fin maxTargetDisks)} {script : List Bool} {i : Fin maxTargetDisks} {pos : Nat}
    {bytes : List UInt8} : .wrote i pos bytes ∉ fsyncFrom disks order script := by
  induction order generalizing script with
  | nil => simp [fsyncFrom]
  | cons j order ih =>
    unfold fsyncFrom
    split
    · simp [ih]
    · exact ih

theorem synced_mem_fsyncFrom {disks : Fin maxTargetDisks → TargetDisk}
    {order : List (Fin maxTargetDisks)} {script : List Bool} {i : Fin maxTargetDisks}
    (good : ∀ r ∈ script, r = true) (opened : (disks i).opened = true) (member : i ∈ order) :
    .synced i true ∈ fsyncFrom disks order script := by
  induction order generalizing script with
  | nil => cases member
  | cons j order ih =>
    have later : ∀ r ∈ script.tail, r = true := fun r hr => good r (List.mem_of_mem_tail hr)
    unfold fsyncFrom
    rcases List.mem_cons.mp member with rfl | rest
    · have first : script.headD true = true := by
        cases script with
        | nil => rfl
        | cons r script => exact good r List.mem_cons_self
      rw [if_pos opened, first]
      exact List.mem_cons_self
    · split
      · exact List.mem_cons_of_mem _ (ih later rest)
      · exact ih good rest

theorem synced_mem_fsyncAll {w : Writer} {script : List Bool} {i : Fin maxTargetDisks}
    (good : ∀ r ∈ script, r = true) (opened : (w.disks i).opened = true) :
    .synced i true ∈ blockWriterFsyncAll w script :=
  synced_mem_fsyncFrom good opened (List.mem_finRange i)

theorem mem_fsyncAll {w : Writer} {script : List Bool} {op : DiskOp}
    (h : op ∈ blockWriterFsyncAll w script) : ∃ j ok, op = .synced j ok := by
  cases op with
  | wrote i pos bytes => exact (wrote_not_mem_fsyncFrom h).elim
  | synced j ok => exact ⟨j, ok, rfl⟩

/-- The effects of one call: none, or a prefix of the block put on its open target
and possibly fsyncs after it. -/
theorem blockWriterWrite_ops (w : Writer) (io : DiskIo) (b : Block) :
    ((blockWriterWrite w io b).ops = [] ∧ (blockWriterWrite w io b).writer = w) ∨
      ∃ i landed syncs, diskOf b.devno = some i ∧
        ((w.disks i).registered = true ∧ (w.disks i).opened = true) ∧ landed <+: b.data ∧
        0 ≤ b.offset.toInt ∧ (blockWriterWrite w io b).ops = .wrote i b.offset.toInt.toNat landed :: syncs ∧
        (∀ op ∈ syncs, ∃ j ok, op = .synced j ok) ∧
        (blockWriterWrite w io b).writer.store = w.store.put b.devno b.offset landed := by
  unfold blockWriterWrite
  cases device : diskOf b.devno with
  | none => exact .inl ⟨rfl, rfl⟩
  | some i =>
    simp only
    split
    · exact .inl ⟨rfl, rfl⟩
    next available =>
    split
    · exact .inl ⟨rfl, rfl⟩
    next seek =>
      right
      simp only [not_or, not_not] at available
      obtain ⟨landed_le, put, all⟩ :=
        writeLoop_spec io.writes ((w.disks i).seek b.offset.toInt.toNat) b.data
      have spec := finishWrite_spec w io device (by omega) landed_le put all
      refine ⟨i, _, (finishWrite w io i b
        (writeLoop io.writes ((w.disks i).seek b.offset.toInt.toNat) b.data)).ops.tail, rfl,
        available, landed_le, by omega, ?_, fun op member => ?_, spec.store⟩
      · unfold finishWrite
        split <;> rfl
      · unfold finishWrite at member
        split at member
        · simp only [countBlock, List.tail_cons] at member
          split at member
          · exact mem_fsyncAll member
          · cases member
        · cases member

theorem blockWriterWrite_wrote {w : Writer} {io : DiskIo} {b : Block} {i : Fin maxTargetDisks}
    {pos : Nat} {bytes : List UInt8} (h : .wrote i pos bytes ∈ (blockWriterWrite w io b).ops) :
    diskOf b.devno = some i ∧ (w.disks i).registered = true ∧ (w.disks i).opened = true := by
  rcases blockWriterWrite_ops w io b with
    ⟨none_left, -⟩ | ⟨j, landed, syncs, device, available, -, -, ops, only, -⟩
  · rw [none_left] at h
    cases h
  · rw [ops] at h
    rcases List.mem_cons.mp h with same | later
    · cases same
      exact ⟨device, available⟩
    · obtain ⟨_, _, other⟩ := only _ later
      cases other

inductive Counted (w : Writer) (io : DiskIo) (r : Written) : Prop
  | refused (failed : r.ok = false) (same : r.writer.blocksSinceFsync = w.blocksSinceFsync)
  | early (ok : r.ok = true) (since : r.writer.blocksSinceFsync = w.blocksSinceFsync + 1)
    (less : w.blocksSinceFsync + 1 < UInt64.ofNat fsyncBlockInterval)
  | due (ok : r.ok = true) (since : r.writer.blocksSinceFsync = 0) (first : DiskOp) (w' : Writer)
    (opened : ∀ j, (w'.disks j).opened = (w.disks j).opened)
    (ops : r.ops = first :: blockWriterFsyncAll w' io.fsyncs)

theorem blockWriterWrite_counted (w : Writer) (io : DiskIo) (b : Block) :
    Counted w io (blockWriterWrite w io b) := by
  have available := blockWriterWrite_available w io b
  unfold blockWriterWrite at available ⊢
  cases device : diskOf b.devno with
  | none => exact .refused rfl rfl
  | some i =>
    simp only [device] at available ⊢
    split
    · exact .refused rfl rfl
    next usable =>
    rw [if_neg usable] at available
    split
    · exact .refused rfl rfl
    next sought =>
    rw [if_neg sought] at available
    unfold finishWrite at available ⊢
    split
    next ok =>
      simp only [if_pos ok] at available
      by_cases due : w.blocksSinceFsync + 1 ≥ UInt64.ofNat fsyncBlockInterval
      · refine .due rfl ?_ (.wrote i b.offset.toInt.toNat (writeLoop io.writes
          ((w.disks i).seek b.offset.toInt.toNat) b.data).landed) (w.setDisk i _)
          (fun j => (available j).2) ?_
        · simp [countBlock, Writer.setDisk, due]
        · exact congrArg (List.cons _) (if_pos due)
      · refine .early rfl ?_ (UInt64.not_le.mp due)
        simp [countBlock, Writer.setDisk, due]
    · exact .refused rfl rfl

end Go2Cloud.BlockWriter
