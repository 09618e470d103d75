import Go2Cloud.Migration.Incsync
import Go2Cloud.Migration.NoResend

/-! One incsync run over any tracker (cmd_incsync in client/main.c): which blocks it sends,
and that a tracker whose hashes describe the target is one again after the run. -/
namespace Go2Cloud.IncsyncSound
open Protocol Reader Tracker Round BlockWriter Mirror History Transition ReaderTable Incsync
open FullSyncRows (readData readData_val)
open Retransmit (diskOffset)

/-- The run scans the blocks of the volumes that can be opened, in order, over an unchanging
source, and nothing fails. -/
structure ScansVolumes (drives : Drives) (volumes : List (Volume × Opening)) (src : Source)
    (r : Run) : Prop where
  reads : r.scans.map (fun x => ((x.devno, x.offset), x.read)) =
    ((readers drives false volumes).flatMap incsyncReads).map fun b => (b.key, some (readData src b))
  encoded : ∀ x ∈ r.scans, x.encoded = true

def changed (p : Scanning) (x : Scan) : List Block :=
  x.block.toList.filter fun b => sqliteBlockLookup p.db b.key ≠ some (hashOf b)

def changedWhenScanned (remoteId : String) (r : Run) (db : BlockTable) : List Block :=
  trace (fun p x => some (scanBlock remoteId r.version r.now p x)) changed ⟨db, []⟩ r.scans

def targetBytes (store : Store) (k : Key) (n : Nat) : List UInt8 :=
  if 0 ≤ k.2.toInt then
    match diskOf k.1 with
    | some i => ByteStore.read (store i) k.2.toInt.toNat n
    | none => []
  else []

def stored (store : Store) (row : Row) : List UInt8 := targetBytes store row.key row.size.toInt.toNat

/-- Every row's hash is the hash of the target's bytes at its key and size. -/
def Sound (db : BlockTable) (store : Store) : Prop :=
  ∀ row ∈ db.rows, row.hash = blockHash row.offset (stored store row)

instance (db : BlockTable) (store : Store) : Decidable (Sound db store) :=
  inferInstanceAs (Decidable (∀ _ ∈ _, _))

/-- No scanned block has a byte of a tracked block with another key. -/
def Apart (scanned : List Block) (db : BlockTable) : Prop :=
  ∀ b ∈ scanned, ∀ row ∈ db.rows, row.key ≠ b.key → ∀ x < row.size.toInt.toNat,
    ¬ Covers b row.devno (row.offset.toInt.toNat + x)

instance (scanned : List Block) (db : BlockTable) : Decidable (Apart scanned db) :=
  inferInstanceAs (Decidable (∀ _ ∈ _, _))

/-- hash_block tells apart the contents of each scanned block: those scanned and the one on
the target. -/
structure Collisionless (scanned : List Block) (db : BlockTable) (store : Store) : Prop where
  scans : ∀ b ∈ scanned, ∀ q ∈ scanned, q.key = b.key → hashOf q = hashOf b → q.data = b.data
  target : ∀ b ∈ scanned, ∀ row ∈ db.rows, row.key = b.key →
    blockHash row.offset (stored store row) = hashOf b → stored store row = b.data

theorem diskOffset_of_nonneg {k : Key} (h : 0 ≤ k.2.toInt) : diskOffset k = k.2.toInt.toNat := by
  have signed : k.2.toInt = k.2.toBitVec.toInt := rfl
  have unsigned : diskOffset k = k.2.toBitVec.toNat := rfl
  have range := k.2.toBitVec.isLt
  rw [signed, BitVec.toInt_eq_toNat_cond] at h ⊢
  rw [unsigned]
  split at h <;> split <;> omega

section Scanned
variable {drives : Drives} {volumes : List (Volume × Opening)} {src : Source} {r : Run}

theorem ScansVolumes.block (h : ScansVolumes drives volumes src r) {b : Block}
    (member : b ∈ r.scanned) :
    ∃ read : BlockRead, read.Right ∧ b.key = read.key ∧ b.data = (readData src read).1 ∧
      b.data ≠ [] := by
  obtain ⟨x, scan, found⟩ := List.mem_filterMap.mp member
  have listed := List.mem_map_of_mem (f := fun x : Scan => ((x.devno, x.offset), x.read)) scan
  rw [h.reads] at listed
  obtain ⟨read, planned, same⟩ := List.mem_map.mp listed
  obtain ⟨key, returned⟩ := Prod.mk.inj same
  obtain ⟨e, entry, here⟩ := List.mem_flatMap.mp planned
  simp only [Scan.block, ← returned] at found
  split at found
  · cases found
  next nonempty =>
    cases found
    exact ⟨read, incsyncReads_right (valid_of_mem_readers entry) here, key.symm, rfl, nonempty⟩

theorem ScansVolumes.copies (h : ScansVolumes drives volumes src r) {b : Block}
    (member : b ∈ r.scanned) (nonneg : 0 ≤ b.offset.toInt) : Copies src b := by
  obtain ⟨read, right, key, data, -⟩ := h.block member
  have offset : diskOffset b.key = b.key.2.toInt.toNat := diskOffset_of_nonneg nonneg
  rw [readData_val] at data
  have bytes := NoResend.data_eq src right
  rw [← BlockBounds.data_length src, ← data, ← key, offset] at bytes
  exact bytes

end Scanned

section Queue
variable (remoteId : String) (version now : Int)

theorem scanBlock_queued {x : Scan} (encoded : x.encoded = true) (p : Scanning) :
    (scanBlock remoteId version now p x).queued.reverse = p.queued.reverse ++ changed p x := by
  unfold scanBlock changed
  cases x.block with
  | none => simp
  | some b =>
    simp only [syncBlock, encoded, Option.toList_some]
    split
    next same => simp [same]
    next differs => simp [differs]

theorem foldl_scanBlock_queued {scans : List Scan} (encoded : ∀ x ∈ scans, x.encoded = true)
    (p : Scanning) :
    (scans.foldl (scanBlock remoteId version now) p).queued.reverse = p.queued.reverse ++
      trace (fun p x => some (scanBlock remoteId version now p x)) changed p scans := by
  induction scans generalizing p with
  | nil => simp [trace]
  | cons x scans ih =>
    rw [List.foldl_cons, ih fun y hy => encoded y (List.mem_cons_of_mem _ hy),
      scanBlock_queued remoteId version now (encoded x List.mem_cons_self), List.append_assoc]
    rfl

end Queue

inductive Origin (db : BlockTable) (queued : List Block) (row : Row) : Prop
  | queued (q : Block) (member : q ∈ queued) (key : row.key = q.key) (hash : row.hash = hashOf q)
    (size : row.size = Int32.ofInt q.data.length)
  | kept (old : Row) (member : old ∈ db.rows) (same : Row.Same old row)
    (unsent : ∀ q ∈ queued, q.key ≠ row.key)

theorem Origin.same {db : BlockTable} {queued : List Block} {row row' : Row}
    (h : Origin db queued row) (same : Row.Same row row') : Origin db queued row' := by
  cases h with
  | queued q member key hash size =>
    exact .queued q member (same.key.trans key) (same.hash.trans hash) (same.size.trans size)
  | kept old member before unsent =>
    refine .kept old member (before.trans same) ?_
    rw [same.key]
    exact unsent

theorem mem_acks {acks : List Key} {db : BlockTable} {row : Row}
    (h : row ∈ (acks.foldl sqliteBlockMarkAcked db).rows) : ∃ old ∈ db.rows, Row.Same old row := by
  induction acks generalizing db with
  | nil => exact ⟨row, h, .refl row⟩
  | cons k acks ih =>
    obtain ⟨mid, member, same⟩ := ih h
    obtain ⟨old, kept, marked⟩ := mem_markAcked member 0
    exact ⟨old, kept, marked.toSame.trans same⟩

/-- The scan after the blocks in `scanned`, over the tracker `db` at its start: every row has
an origin, and every block was known to the tracker or to the queue. -/
structure Recorded (db : BlockTable) (scanned : List Block) (p : Scanning) : Prop where
  rows : ∀ row ∈ p.db.rows, Origin db p.queued row
  queued : ∀ q ∈ p.queued, q ∈ scanned
  known : ∀ b ∈ scanned, (∃ q ∈ p.queued, q.key = b.key ∧ hashOf q = hashOf b) ∨
    ∃ old ∈ db.rows, old.key = b.key ∧ old.hash = hashOf b

section Recorded
variable (remoteId : String) (version now : Int) {db : BlockTable} {scanned : List Block}

theorem Recorded.skipped {p : Scanning} (h : Recorded db scanned p) {b : Block}
    (same : sqliteBlockLookup p.db b.key = some (hashOf b)) :
    (∃ q ∈ p.queued, q.key = b.key ∧ hashOf q = hashOf b) ∨
      ∃ old ∈ db.rows, old.key = b.key ∧ old.hash = hashOf b := by
  obtain ⟨row, found, hash⟩ := Option.map_eq_some_iff.mp same
  obtain ⟨member, key⟩ := (Keyed.get_eq_some_iff p.db).mp found
  cases h.rows row member with
  | queued q listed here content _ =>
    exact .inl ⟨q, listed, here.symm.trans key, content.symm.trans hash⟩
  | kept old tracked before _ =>
    exact .inr ⟨old, tracked, before.key.symm.trans key, before.hash.symm.trans hash⟩

theorem Recorded.sync {p : Scanning} (h : Recorded db scanned p) (b : Block) :
    Recorded db (scanned ++ [b]) (syncBlock remoteId version now p b true) := by
  unfold syncBlock
  split
  next same =>
    refine ⟨fun row member => ?_, fun q member => List.mem_append_left _ (h.queued q member),
      fun b' member => ?_⟩
    · obtain ⟨mid, touched, verified⟩ := mem_markVerified member
      obtain ⟨old, kept, sent, -⟩ := mem_updateLastSent touched
      exact ((h.rows old kept).same sent).same verified.toSame
    · rcases List.mem_append.mp member with old | new
      · exact h.known b' old
      · obtain rfl := List.mem_singleton.mp new
        exact h.skipped same
  next differs =>
    rw [if_pos rfl]
    refine ⟨fun row member => ?_, fun q member => ?_, fun b' member => ?_⟩
    · rcases mem_upsert member with rfl | ⟨kept, other⟩
      · exact .queued b List.mem_cons_self rfl rfl rfl
      · cases h.rows row kept with
        | queued q listed key hash size =>
          exact .queued q (List.mem_cons_of_mem _ listed) key hash size
        | kept old tracked before unsent =>
          exact .kept old tracked before (List.forall_mem_cons.mpr ⟨other.symm, unsent⟩)
    · rcases List.mem_cons.mp member with rfl | old
      · exact List.mem_append_right _ List.mem_cons_self
      · exact List.mem_append_left _ (h.queued q old)
    · rcases List.mem_append.mp member with old | new
      · exact (h.known b' old).imp_left fun ⟨q, listed, same⟩ =>
          ⟨q, List.mem_cons_of_mem _ listed, same⟩
      · obtain rfl := List.mem_singleton.mp new
        exact .inl ⟨b', List.mem_cons_self, rfl, rfl⟩

theorem Recorded.scan {p : Scanning} (h : Recorded db scanned p) {x : Scan}
    (encoded : x.encoded = true) :
    Recorded db (scanned ++ x.block.toList) (scanBlock remoteId version now p x) := by
  have acked : ∀ {q : Scanning} {scanned : List Block}, Recorded db scanned q →
      Recorded db scanned { q with db := x.acks.foldl sqliteBlockMarkAcked q.db } := by
    intro q scanned h
    refine ⟨fun row member => ?_, h.queued, h.known⟩
    obtain ⟨old, kept, same⟩ := mem_acks member
    exact (h.rows old kept).same same
  unfold scanBlock
  cases x.block with
  | none =>
    rw [Option.toList_none, List.append_nil]
    exact acked h
  | some b =>
    rw [encoded]
    exact acked (h.sync remoteId version now b)

theorem Recorded.fold {scans : List Scan} {p : Scanning} (h : Recorded db scanned p)
    (encoded : ∀ x ∈ scans, x.encoded = true) :
    Recorded db (scanned ++ scans.filterMap Scan.block)
      (scans.foldl (scanBlock remoteId version now) p) := by
  induction scans generalizing scanned p with
  | nil => simpa using h
  | cons x scans ih =>
    rw [filterMap_block_cons, ← List.append_assoc]
    exact ih (h.scan remoteId version now (encoded x List.mem_cons_self))
      fun y hy => encoded y (List.mem_cons_of_mem _ hy)

theorem recorded_scanAll (r : Run) (encoded : ∀ x ∈ r.scans, x.encoded = true) (db : BlockTable) :
    Recorded db r.scanned (scanAll remoteId r db) := by
  have start : Recorded db [] ⟨db, []⟩ :=
    ⟨fun row member => .kept row member (.refl row) (by simp), by simp, by simp⟩
  exact start.fold remoteId r.version r.now encoded

end Recorded

section Target
variable {store store' : Store} {k : Key} {n : Nat}

theorem targetBytes_on {i : Fin maxTargetDisks} (nonneg : 0 ≤ k.2.toInt) (disk : diskOf k.1 = some i) :
    targetBytes store k n = ByteStore.read (store i) k.2.toInt.toNat n := by
  rw [targetBytes, if_pos nonneg, disk]

theorem targetBytes_ne_nil (h : targetBytes store k n ≠ []) :
    0 ≤ k.2.toInt ∧ ∃ i, diskOf k.1 = some i := by
  unfold targetBytes at h
  split at h
  next nonneg =>
    split at h
    next i disk => exact ⟨nonneg, i, disk⟩
    · exact absurd rfl h
  · exact absurd rfl h

theorem targetBytes_congr (h : ∀ i, diskOf k.1 = some i → ∀ x < n,
    store i (k.2.toInt.toNat + x) = store' i (k.2.toInt.toNat + x)) :
    targetBytes store k n = targetBytes store' k n := by
  unfold targetBytes
  split
  · split
    next i disk => exact ByteStore.read_eq_read_iff.mpr (h i disk)
    · rfl
  · rfl

end Target

section Run
variable {drives : Drives} {volumes : List (Volume × Opening)} {src : Source} {r : Run}
  {remoteId : String} {s : State}

/-- The target after the run: the source's bytes where a queued block has them, the bytes
before elsewhere. -/
theorem incsync_store (scans : ScansVolumes drives volumes src r)
    (arrive : FramesWritten (scanAll remoteId r s.db).queued r.arrivals) {devno : Int32}
    {i : Fin maxTargetDisks} (disk : diskOf devno = some i) (a : Nat) :
    (incsync remoteId s r).store i a =
      if ∃ q ∈ (scanAll remoteId r s.db).queued, Covers q devno a then src devno a
      else s.store i a := by
  have recorded := recorded_scanAll remoteId r scans.encoded s.db
  have same := mem_written_iff arrive.1
  have byte := foldl_put_source (fun q hq => scans.copies (recorded.queued q ((same q).mp hq))
    (arrive.2 q ((same q).mp hq)).1) s.store disk a
  simp only [same] at byte
  exact byte

theorem queued_matches (scans : ScansVolumes drives volumes src r)
    (arrive : FramesWritten (scanAll remoteId r s.db).queued r.arrivals) {q : Block}
    (member : q ∈ (scanAll remoteId r s.db).queued) :
    Matches src (incsync remoteId s r).store q.key q.data.length := by
  obtain ⟨nonneg, some_disk⟩ := arrive.2 q member
  obtain ⟨i, disk⟩ := Option.isSome_iff_exists.mp some_disk
  refine ⟨nonneg, i, disk, ByteStore.read_eq_read_iff.mpr fun x inside => ?_⟩
  have covers : Covers q q.devno (q.offset.toInt.toNat + x) := ⟨rfl, by omega, by omega⟩
  exact (incsync_store scans arrive disk _).trans (if_pos ⟨q, member, covers⟩)

theorem stored_matches (scans : ScansVolumes drives volumes src r)
    (arrive : FramesWritten (scanAll remoteId r s.db).queued r.arrivals) {b : Block}
    (member : b ∈ r.scanned) {row : Row} (key : row.key = b.key)
    (content : stored s.store row = b.data) :
    Matches src (incsync remoteId s r).store b.key b.data.length := by
  obtain ⟨-, -, -, -, nonempty⟩ := scans.block member
  obtain ⟨nonneg, i, disk⟩ := targetBytes_ne_nil (content.trans_ne nonempty)
  rw [stored, targetBytes_on nonneg disk] at content
  rw [key] at nonneg disk content
  have size : row.size.toInt.toNat = b.data.length := by
    rw [← content, ByteStore.read_length]
  have before : ByteStore.read (s.store i) b.key.2.toInt.toNat b.data.length =
      src.read b.key b.data.length := (size ▸ content).trans (scans.copies member nonneg)
  refine ⟨nonneg, i, disk, ByteStore.read_eq_read_iff.mpr fun x inside => ?_⟩
  rw [incsync_store scans arrive disk]
  split
  · rfl
  · exact ByteStore.read_eq_read_iff.mp before x inside

theorem incsync_sound (scans : ScansVolumes drives volumes src r)
    (arrive : FramesWritten (scanAll remoteId r s.db).queued r.arrivals) (sound : Sound s.db s.store)
    (apart : Apart r.scanned s.db) :
    Sound (incsync remoteId s r).db (incsync remoteId s r).store := by
  have recorded := recorded_scanAll remoteId r scans.encoded s.db
  intro row member
  cases recorded.rows row member with
  | queued q listed key hash size =>
    obtain ⟨read, -, -, data, -⟩ := scans.block (recorded.queued q listed)
    have short : q.data.length ≤ 1048576 := data ▸ readData_fits (readData src read)
    have long : row.size.toInt.toNat = q.data.length := by
      rw [size, Int32.toInt_ofInt_of_le (by omega) (by omega), Int.toNat_natCast]
    obtain ⟨nonneg, i, disk, same⟩ := queued_matches (s := s) scans arrive listed
    have copies : Copies src q := scans.copies (recorded.queued q listed) nonneg
    have bytes : stored (incsync remoteId s r).store row = q.data := by
      rw [stored, key, long, targetBytes_on nonneg disk, same]
      exact copies.symm
    have offset : row.offset = q.offset := congrArg Prod.snd key
    rw [bytes, hash, offset, hashOf]
  | kept old tracked same unsent =>
    have offset : row.offset = old.offset := congrArg Prod.snd same.key
    have bytes : stored s.store old = stored (incsync remoteId s r).store row := by
      rw [stored, stored, same.key, same.size]
      refine targetBytes_congr fun i disk x inside => ?_
      rw [incsync_store scans arrive disk, if_neg]
      rintro ⟨q, listed, covers⟩
      refine apart q (recorded.queued q listed) old tracked ?_ x inside covers
      exact fun here => unsent q listed (same.key.trans here).symm
    rw [← bytes, same.hash, offset]
    exact sound old tracked

end Run

/-- A run that nothing interrupts sends exactly the blocks for which the tracker has no row
or another hash when they are scanned. From a sound tracker, where blocks of different keys
do not overlap and hashes do not collide, and with every queued frame written, it leaves
each scanned block equal on both sides and the tracker sound. -/
theorem incsync_sends_changed_sound (remoteId : String) (drives : Drives)
    (volumes : List (Volume × Opening)) (src : Source) (s : State) (r : Run)
    (scans : ScansVolumes drives volumes src r) :
    (scanAll remoteId r s.db).queued.reverse = changedWhenScanned remoteId r s.db ∧
      (Sound s.db s.store → Apart r.scanned s.db → Collisionless r.scanned s.db s.store →
        FramesWritten (scanAll remoteId r s.db).queued r.arrivals →
        (∀ b ∈ r.scanned,
          Matches src (incsync remoteId s r).store b.key b.data.length) ∧
        Sound (incsync remoteId s r).db (incsync remoteId s r).store) := by
  refine ⟨foldl_scanBlock_queued remoteId r.version r.now scans.encoded _,
    fun sound apart collisionless arrive => ⟨fun b member => ?_,
      incsync_sound scans arrive sound apart⟩⟩
  have recorded := recorded_scanAll remoteId r scans.encoded s.db
  rcases recorded.known b member with ⟨q, listed, key, hash⟩ | ⟨old, tracked, key, hash⟩
  · have content : q.data = b.data :=
      collisionless.scans b member q (recorded.queued q listed) key hash
    rw [← key, ← content]
    exact queued_matches scans arrive listed
  · have target : blockHash old.offset (stored s.store old) = hashOf b :=
      (sound old tracked).symm.trans hash
    exact stored_matches scans arrive member key (collisionless.target b member old tracked key target)

def tinyDrives : Drives := ⟨fun _ => 64, fun _ => Nat.le_of_ble_eq_true rfl⟩

def tinyVolumes : List (Volume × Opening) :=
  [(⟨0, 0, 64, false, Nat.le_of_ble_eq_true rfl, Nat.le_of_ble_eq_true rfl⟩, .fromDrive)]

def tinyRead : BlockRead := ⟨tinyDrives.handle 0, 0, keyAt 0 0⟩

def zeroTracker : BlockTable :=
  -- two tracked blocks of zeros, the second one on no volume
  [0, 4096].foldl (fun db offset => sqliteBlockUpsertV db "10.0.0.1:3400" (0, offset) 64
    (blockHash offset (List.replicate 64 0)) true 1) Keyed.empty

def onesRun : Run :=
  -- the first block now has ones
  ⟨2, 1000, [⟨0, 0, some (readData (fun _ _ => 1) tinyRead), true, []⟩], [0]⟩

theorem onesRun_scans :
    ScansVolumes tinyDrives tinyVolumes (fun _ _ => 1) onesRun where
  reads := by decide +kernel
  encoded := by decide

theorem incsync_sends_changed_sound_ones :
    changedWhenScanned "10.0.0.1:3400" onesRun zeroTracker = [⟨0, 0, List.replicate 64 1⟩] ∧
      (scanAll "10.0.0.1:3400" onesRun zeroTracker).queued.reverse =
        changedWhenScanned "10.0.0.1:3400" onesRun zeroTracker ∧
      (∀ b ∈ onesRun.scanned, Matches (fun _ _ => 1)
        (incsync "10.0.0.1:3400" ⟨zeroTracker, fun _ _ => 0, []⟩ onesRun).store b.key
          b.data.length) ∧
      Sound (incsync "10.0.0.1:3400" ⟨zeroTracker, fun _ _ => 0, []⟩ onesRun).db
        (incsync "10.0.0.1:3400" ⟨zeroTracker, fun _ _ => 0, []⟩ onesRun).store :=
  have exact_sound := incsync_sends_changed_sound "10.0.0.1:3400" tinyDrives
    tinyVolumes (fun _ _ => 1) ⟨zeroTracker, fun _ _ => 0, []⟩ onesRun onesRun_scans
  ⟨by decide +kernel, exact_sound.1,
    exact_sound.2 (by decide +kernel) (by decide +kernel)
      ⟨by decide +kernel, by decide +kernel⟩ (by decide +kernel)⟩

end Go2Cloud.IncsyncSound
