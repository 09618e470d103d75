import Go2Cloud.Lib.CrashLog
import Go2Cloud.Migration.AckVersion
import Go2Cloud.Migration.FullMode

/-! A crash of the receiver's host and the client run that resumes with the same
tracker. The receiver acknowledges a block when it is written and syncs the disks
only every FSYNC_BLOCK_INTERVAL blocks, so a row may have ack = 1 for a block that a
crash takes away. ACKs are received whole, before the crash and after it. -/
namespace Go2Cloud.CrashResume
open Protocol Queue Reader Tracker Round Decoder BlockWriter Receiver Migration Mirror Transition
open CrashLog
open FullMode (ReadsSource)

def diskOps (log : List (Nat × DiskOp)) : List (Op (Fin maxTargetDisks) UInt8) :=
  log.filterMap fun entry =>
    match entry.2 with
    | .wrote i pos bytes => some (.wrote i pos bytes)
    | .synced i true => some (.synced i)
    | .synced _ false => none

def onDisk (src : Source) : Store := fun i => src (Int32.ofInt i.val)

/-- An ACK is read only when no write at its block's place waits for an fsync. -/
def SyncedAcks (s : Sys) : Action → Prop
  | .recvAck c => ∀ r ∈ (s.down c).head?, IsAck r → ∀ i ∈ diskOf r.devno,
      ∀ write ∈ unsynced i (diskOps s.log), write.1 ≠ r.offset.toInt.toNat
  | _ => True

instance (s : Sys) : (a : Action) → Decidable (SyncedAcks s a)
  | .recvAck c => inferInstanceAs (Decidable (∀ r ∈ (s.down c).head?, IsAck r →
      ∀ i ∈ diskOf r.devno, ∀ write ∈ unsynced i (diskOps s.log), write.1 ≠ r.offset.toInt.toNat))
  | .sendBlock _ _ | .push _ _ | .giveUp | .flushOne _ | .sendControl _ _ | .deliver _ _
  | .beginRound _ _ _ | .examine _ | .endRound => .isTrue trivial

def Written (src : Source) (len : Key → Nat) (log : List (Nat × DiskOp)) (k : Key) : Prop :=
  ∃ b i, b.key = k ∧ FromSource src len b ∧ diskOf b.devno = some i ∧ 0 ≤ b.offset.toInt ∧
    .wrote i b.offset.toInt.toNat b.data ∈ diskOps log

def Secured (src : Source) (len : Key → Nat) (log : List (Nat × DiskOp)) (k : Key) : Prop :=
  ∃ b i before after, b.key = k ∧ FromSource src len b ∧ diskOf b.devno = some i ∧
    0 ≤ b.offset.toInt ∧ diskOps log = before ++ .wrote i b.offset.toInt.toNat b.data :: after ∧
    after.any (Op.syncs i) = true

/-- `base` is the durable image the run started with. -/
structure Inv (src : Source) (len : Key → Nat) (base : Store) (s : Sys) : Prop where
  position : SendsOnly (FromSource src len) s.pc
  carries : Carries (FromSource src len) s
  store : s.writer.store = playback base (diskOps s.log)
  copies : ∀ op ∈ diskOps s.log, Copies (onDisk src) op
  acks : ∀ c, ∀ r ∈ s.down c, IsAck r → Written src len s.log (r.devno, r.offset)
  rows : ∀ row ∈ s.db.rows, row.ack = true →
    Matches src base row.key (len row.key) ∨ Secured src len s.log row.key

variable {src : Source} {len : Key → Nat} {base : Store} {s s' : Sys} {cfg : Config} {a : Action}
  {log : List (Nat × DiskOp)} {k : Key}

theorem inv_resumed {db : BlockTable} {w : Writer}
    (h : ∀ row ∈ db.rows, row.ack = true → Matches src w.store row.key (len row.key)) :
    Inv src len w.store (resumed db w) where
  position := trivial
  carries := carries_resumed db w
  store := rfl
  copies := by simp [resumed, init, diskOps]
  acks := by simp [resumed, init]
  rows row member ack := .inl (h row member ack)

theorem onDisk_eq (src : Source) {devno : Int32} {i : Fin maxTargetDisks}
    (disk : diskOf devno = some i) : onDisk src i = src devno := by
  unfold diskOf at disk
  split at disk
  next range =>
    cases disk
    rw [onDisk, Int.toNat_of_nonneg range.1, Int32.ofInt_toInt]
  · cases disk

theorem diskOps_append (log later : List (Nat × DiskOp)) :
    diskOps (log ++ later) = diskOps log ++ diskOps later :=
  List.filterMap_append

theorem Written.append (h : Written src len log k) (later : List (Nat × DiskOp)) :
    Written src len (log ++ later) k := by
  obtain ⟨b, i, key, source, disk, nonneg, member⟩ := h
  refine ⟨b, i, key, source, disk, nonneg, ?_⟩
  rw [diskOps_append]
  exact List.mem_append_left _ member

theorem Secured.append (h : Secured src len log k) (later : List (Nat × DiskOp)) :
    Secured src len (log ++ later) k := by
  obtain ⟨b, i, before, after, key, source, disk, nonneg, split, flushed⟩ := h
  refine ⟨b, i, before, after ++ diskOps later, key, source, disk, nonneg, ?_, ?_⟩
  · rw [diskOps_append, split, List.append_assoc, List.cons_append]
  · rw [List.any_append, flushed, Bool.true_or]

theorem Written.secured (h : Written src len log k)
    (synced : ∀ i ∈ diskOf k.1, ∀ write ∈ unsynced i (diskOps log), write.1 ≠ k.2.toInt.toNat) :
    Secured src len log k := by
  obtain ⟨b, i, rfl, source, disk, nonneg, member⟩ := h
  rcases unsynced_or_synced member with waits | ⟨before, after, split, flushed⟩
  · exact absurd rfl (synced i disk _ waits)
  · exact ⟨b, i, before, after, rfl, source, disk, nonneg, split, flushed⟩

theorem Secured.matches (h : Secured src len log k)
    (copies : ∀ op ∈ diskOps log, Copies (onDisk src) op) (keep : Nat → Nat → Bool) :
    Matches src (crash keep base (diskOps log)) k (len k) := by
  obtain ⟨b, i, before, after, rfl, source, disk, nonneg, split, flushed⟩ := h
  refine ⟨nonneg, i, disk, ByteStore.read_eq_read_iff.mpr fun n inside => ?_⟩
  have covered : b.offset.toInt.toNat + n < b.offset.toInt.toNat + b.data.length := by
    rw [source.length]
    omega
  rw [split] at copies ⊢
  change _ = src b.devno (b.offset.toInt.toNat + n)
  rw [← onDisk_eq src disk]
  exact crash_synced copies keep flushed (Nat.le_add_right _ n) covered

theorem matches_crash (h : Matches src base k (len k))
    (copies : ∀ op ∈ diskOps log, Copies (onDisk src) op) (keep : Nat → Nat → Bool) :
    Matches src (crash keep base (diskOps log)) k (len k) := by
  obtain ⟨nonneg, i, disk, same⟩ := h
  refine ⟨nonneg, i, disk, ByteStore.read_eq_read_iff.mpr fun n inside => ?_⟩
  have before := ByteStore.read_eq_read_iff.mp same n inside
  rw [← onDisk_eq src disk] at before ⊢
  exact crash_copied copies keep before

def entries (id : Nat) (ops : List DiskOp) : List (Nat × DiskOp) := ops.map fun op => (id, op)

theorem mem_diskOps_syncs {id : Nat} {ops : List DiskOp} (h : ∀ op ∈ ops, ∃ j ok, op = .synced j ok) :
    ∀ op ∈ diskOps (entries id ops), ∃ j, op = .synced j := by
  intro op member
  simp only [diskOps, entries, List.filterMap_map, List.mem_filterMap, Function.comp_apply] at member
  obtain ⟨raw, raw_member, logged⟩ := member
  obtain ⟨j, ok, rfl⟩ := h raw raw_member
  cases ok with
  | true => exact ⟨j, (Option.some.inj logged).symm⟩
  | false => cases logged

theorem dispatch_ops (w : Writer) (io : DiskIo) (id : Nat) (m : Msg) :
    ((∀ op ∈ diskOps (entries id (dispatch w io m).ops), ∃ j, op = .synced j) ∧
        (dispatch w io m).writer.store = w.store) ∨
      ∃ b i landed syncs, m = .block b ∧ diskOf b.devno = some i ∧ landed <+: b.data ∧
        0 ≤ b.offset.toInt ∧
        diskOps (entries id (dispatch w io m).ops) =
          .wrote i b.offset.toInt.toNat landed :: syncs ∧
        (∀ op ∈ syncs, ∃ j, op = .synced j) ∧
        (dispatch w io m).writer.store = w.store.put b.devno b.offset landed := by
  cases m with
  | control ctl =>
    left
    cases ctl with
    | incremental => exact ⟨by simp [dispatch, entries, diskOps], rfl⟩
    | endIncremental => exact ⟨mem_diskOps_syncs fun op member => mem_fsyncAll member, rfl⟩
  | block b =>
    have ops : (dispatch w io (.block b)).ops = (blockWriterWrite w io b).ops := by
      simp only [dispatch, dispatchBlock]
      split <;> rfl
    have store : (dispatch w io (.block b)).writer.store = (blockWriterWrite w io b).writer.store :=
      dispatchBlock_store w io b
    rw [ops, store]
    rcases blockWriterWrite_ops w io b with ⟨none_left, same⟩ |
      ⟨i, landed, syncs, disk, -, landed_le, nonneg, all, only, put⟩
    · left
      rw [none_left, same]
      exact ⟨by simp [entries, diskOps], rfl⟩
    · right
      refine ⟨b, i, landed, diskOps (entries id syncs), rfl, disk, landed_le, nonneg, ?_,
        mem_diskOps_syncs only, put⟩
      rw [all]
      rfl

theorem dispatch_written {w : Writer} {io : DiskIo} {m : Msg} {r : ServerResponse} (id : Nat)
    (source : ∀ b, m = .block b → FromSource src len b)
    (member : r ∈ (dispatch w io m).responses) (ack : IsAck r) :
    Written src len (entries id (dispatch w io m).ops) (r.devno, r.offset) := by
  obtain ⟨b, rfl, key, ok, -⟩ := AckVersion.dispatch_ack member ack
  obtain ⟨landed, spec⟩ := blockWriterWrite_spec w io b
  obtain ⟨i, syncs, disk, nonneg, ops⟩ := spec.disk ok
  refine ⟨b, i, key.symm, source b rfl, disk, nonneg, ?_⟩
  have all : (dispatch w io (.block b)).ops = .wrote i b.offset.toInt.toNat b.data :: syncs := by
    simp only [dispatch, dispatchBlock, ok, if_true, ops]
  rw [all]
  exact List.mem_cons_self

theorem Inv.delivers (h : Inv src len base s) {c : Conn} {f : Frame} {rest : List Frame}
    {io : DiskIo} {m : Msg} (head : s.up c = f :: rest) (good : f.body.msg = .ok m)
    (carries : Carries (FromSource src len) (handled s c f.id rest (dispatch s.writer io m))) :
    Inv src len base (handled s c f.id rest (dispatch s.writer io m)) := by
  have source : ∀ b, m = .block b → FromSource src len b := fun b block =>
    h.carries.block (head ▸ List.mem_cons_self) (block ▸ good)
  have grows : diskOps (handled s c f.id rest (dispatch s.writer io m)).log =
      diskOps s.log ++ diskOps (entries f.id (dispatch s.writer io m).ops) := diskOps_append _ _
  refine ⟨h.position, carries, ?_, fun op member => ?_, fun c' r member ack => ?_,
    fun row member ack => ?_⟩
  · rw [grows, playback_append, ← h.store]
    change (dispatch s.writer io m).writer.store = _
    rcases dispatch_ops s.writer io f.id m with ⟨only, same⟩ |
      ⟨b, i, landed, syncs, -, disk, -, -, ops, only, put⟩
    · rw [same, playback_syncs _ only]
    · rw [put, ops, playback_wrote, playback_syncs _ only, Store.put_on _ disk]
  · rw [grows] at member
    rcases List.mem_append.mp member with old | new
    · exact h.copies op old
    · rcases dispatch_ops s.writer io f.id m with ⟨only, -⟩ |
        ⟨b, i, landed, syncs, block, disk, landed_le, -, ops, only, -⟩
      · obtain ⟨j, rfl⟩ := only op new
        trivial
      · rw [ops] at new
        rcases List.mem_cons.mp new with rfl | sync
        · refine ⟨len b.key, ?_⟩
          rw [onDisk_eq src disk]
          have whole : b.data = src.read b.key (len b.key) := source b block
          rw [whole] at landed_le
          exact landed_le
        · obtain ⟨j, rfl⟩ := only op sync
          trivial
  · rcases mem_handled_down.mp member with old | ⟨-, new⟩
    · exact (h.acks c' r old ack).append _
    · obtain ⟨b, i, key, from_source, disk, nonneg, wrote⟩ := dispatch_written f.id source new ack
      exact ⟨b, i, key, from_source, disk, nonneg, by rw [grows]; exact List.mem_append_right _ wrote⟩
  · exact (h.rows row member ack).imp id fun secured => secured.append _

theorem step_inv (h : Inv src len base s) (full : cfg.tailSend = false)
    (reads : ReadsSource src len a) (synced : SyncedAcks s a)
    (hs : Migration.step cfg s a = some s') : Inv src len base s' := by
  have st := Migration.step_inv hs
  have carries := step_carries h.carries (fun b pusher push => (h.position.pushing push).1) st
  have rows : ∀ row ∈ s'.db.rows, row.ack = true →
      Matches src base row.key (len row.key) ∨ Secured src len s.log row.key := by
    intro row member ack
    rcases h.position.acked_before full st member ack with
      ⟨old, old_member, key, old_ack⟩ | ⟨c, rfl, r, first, is_ack, key⟩
    · exact key ▸ h.rows old old_member old_ack
    · rw [key]
      have written := h.acks c r (List.mem_of_mem_head? first) is_ack
      exact .inr (written.secured (synced r first is_ack))
  have position := h.position.step (fun _ _ _ _ => full) (fun b version taken => by subst taken; exact reads) st
  cases st with
  | acked head ack =>
    exact ⟨position, carries, h.store, h.copies,
      fun c r member => h.acks c r (mem_of_taken head member), rows⟩
  | finished head done =>
    exact ⟨position, carries, h.store, h.copies,
      fun c r member => h.acks c r (mem_of_taken head member), rows⟩
  | ignored head =>
    exact ⟨position, carries, h.store, h.copies,
      fun c r member => h.acks c r (mem_of_taken head member), rows⟩
  | delivered head good => exact h.delivers head good carries
  | _ => exact ⟨position, carries, h.store, h.copies, h.acks, rows⟩

def readAcks (s : Sys) : Action → List Key
  | .recvAck c => ((s.down c).head?.filter fun r => decide (IsAck r)).toList.map fun r =>
      (r.devno, r.offset)
  | _ => []

structure Marks (db : BlockTable) (seen : List Key) (s : Sys) : Prop where
  position : SendsOnly (fun _ => True) s.pc
  rows : ∀ row ∈ s.db.rows, row.ack = true →
    row.key ∈ seen ∨ sqliteBlockAcked db row.key = some true

theorem step_marks {db : BlockTable} {seen : List Key} (h : Marks db seen s)
    (full : cfg.tailSend = false) (hs : Migration.step cfg s a = some s') :
    Marks db (seen ++ readAcks s a) s' := by
  have st := Migration.step_inv hs
  refine ⟨h.position.step (fun _ _ _ _ => full) (fun _ _ _ => trivial) st, fun row member ack => ?_⟩
  rcases h.position.acked_before full st member ack with
    ⟨old, old_member, key, old_ack⟩ | ⟨c, rfl, r, first, is_ack, key⟩
  · rw [← key]
    exact (h.rows old old_member old_ack).imp (List.mem_append_left _) id
  · left
    refine List.mem_append_right _ ?_
    rw [Option.mem_def] at first
    simp [readAcks, first, is_ack, key]

theorem acked_of_lookup {db : BlockTable} (h : sqliteBlockAcked db k = some true) :
    ∃ row ∈ db.rows, row.key = k ∧ row.ack = true := by
  obtain ⟨row, found, ack⟩ := Option.map_eq_some_iff.mp h
  obtain ⟨member, key⟩ := (Keyed.get_eq_some_iff db).mp found
  exact ⟨row, member, key, ack⟩

/-- Whatever the crash discards of the writes that no fsync followed: a block the
resumed run skips has its acknowledged bytes in the durable image, unless the
resumed run itself has read an ACK for it. It holds if the first run reads one
source and reads each ACK after the fsync of what the ACK answers. -/
theorem resume_loses_nothing (src : Source) (len : Key → Nat) (db : BlockTable) (w : Writer)
    (remoteId : String) (actions : List Action) (s : Sys)
    (before : ∀ row ∈ db.rows, row.ack = true → Matches src w.store row.key (len row.key))
    (hr : run (Migration.step ⟨false, remoteId⟩) (resumed db w) actions = some s)
    (synced : Meets (Migration.step ⟨false, remoteId⟩)
      (fun s a => ReadsSource src len a ∧ SyncedAcks s a) (resumed db w) actions)
    (keep : Nat → Nat → Bool) (w' : Writer)
    (image : w'.store = crash keep w.store (diskOps s.log))
    (remoteId' : String) (actions' : List Action) (s' : Sys)
    (hr' : run (Migration.step ⟨false, remoteId'⟩) (resumed s.db w') actions' = some s')
    (k : Key) (skipped : sqliteBlockAcked s'.db k = some true) :
    k ∈ trace (Migration.step ⟨false, remoteId'⟩) readAcks (resumed s.db w') actions' ∨
      Matches src w'.store k (len k) := by
  have inv : Inv src len w.store s :=
    run_invariant_of_meets (fun _ _ _ h cond hs => step_inv h rfl cond.1 cond.2 hs) hr synced
      (inv_resumed before)
  have started : Marks s.db [] (resumed s.db w') := by
    refine ⟨trivial, fun row member ack => .inr ?_⟩
    rw [sqliteBlockAcked, (Keyed.get_eq_some_iff s.db).mpr ⟨member, rfl⟩, Option.map_some, ack]
  have always : Meets (Migration.step ⟨false, remoteId'⟩) (fun _ _ => True) (resumed s.db w')
      actions' := meets_of_forall _ fun _ _ _ => trivial
  have marks := run_invariant_trace (fun _ _ _ _ h _ hs => step_marks h rfl hs) hr' always started
  obtain ⟨row, member, rfl, ack⟩ := acked_of_lookup skipped
  rcases marks.rows row member ack with read_here | tracked
  · exact .inl read_here
  · obtain ⟨old, old_member, key, old_ack⟩ := acked_of_lookup tracked
    right
    rw [image, ← key]
    rcases inv.rows old old_member old_ack with on_base | secured
    · exact matches_crash on_base inv.copies keep
    · exact secured.matches inv.copies keep

def restarted (store : Store) : Writer := ⟨fun i => ⟨true, true, 0, store i⟩, 0, 0, 0, 0⟩

theorem lostBlock_fits : [(1 : UInt8), 2, 3].length ≤ blockSize := by decide

def lostBlock : ReadBlock := ⟨⟨0, 512, [1, 2, 3]⟩, lostBlock_fits⟩

def syncedActions : List Action :=
  -- the end marker makes the receiver sync before the client reads the ACK
  [.sendBlock lostBlock 0, .push true 0, .flushOne (.sentOn 0),
    .sendControl .endIncremental (.sentOn 0), .deliver 0 ⟨true, [], []⟩, .deliver 0 ⟨true, [], []⟩,
    .recvAck 0]

/-- Nothing unsynced survives the crash, and the synced block does. -/
theorem resume_loses_nothing_synced :
    ∃ s ∈ run (Migration.step ⟨false, "10.0.0.1:3400"⟩) (resumed Keyed.empty blankWriter) syncedActions,
      ∃ s' ∈ run (Migration.step ⟨false, "10.0.0.1:3400"⟩)
          (resumed s.db (restarted (crash (fun _ _ => false) blankWriter.store (diskOps s.log))))
          [.sendBlock lostBlock 0],
        sqliteBlockAcked s'.db (0, 512) = some true ∧
        ((0, 512) ∈ trace (Migration.step ⟨false, "10.0.0.1:3400"⟩) readAcks
            (resumed s.db (restarted (crash (fun _ _ => false) blankWriter.store (diskOps s.log))))
            [.sendBlock lostBlock 0] ∨
          Matches (fun _ a => UInt8.ofNat (a - 511))
            (restarted (crash (fun _ _ => false) blankWriter.store (diskOps s.log))).store (0, 512) 3) := by
  have runs : ∃ s ∈ run (Migration.step ⟨false, "10.0.0.1:3400"⟩) (resumed Keyed.empty blankWriter)
      syncedActions, Meets (Migration.step ⟨false, "10.0.0.1:3400"⟩) SyncedAcks
        (resumed Keyed.empty blankWriter) syncedActions ∧
      ∃ s' ∈ run (Migration.step ⟨false, "10.0.0.1:3400"⟩)
          (resumed s.db (restarted (crash (fun _ _ => false) blankWriter.store (diskOps s.log))))
          [.sendBlock lostBlock 0], sqliteBlockAcked s'.db (0, 512) = some true := by
    decide +kernel
  obtain ⟨s, hr, synced, s', hr', skipped⟩ := runs
  have block : FromSource (fun _ a => UInt8.ofNat (a - 511)) (fun _ => 3) lostBlock.1 := by
    decide +kernel
  refine ⟨s, hr, s', hr', skipped, ?_⟩
  refine resume_loses_nothing (fun _ a => UInt8.ofNat (a - 511)) (fun _ => 3) Keyed.empty blankWriter
    "10.0.0.1:3400" syncedActions s (by simp [Keyed.empty]) hr ?_ (fun _ _ => false) _ rfl
    "10.0.0.1:3400" [.sendBlock lostBlock 0] s' hr' (0, 512) skipped
  exact meets_and (meets_of_forall _ (by simp [syncedActions, ReadsSource, block])) synced

def unsyncedActions : List Action :=
  -- the block is written and acknowledged, and the ACK read, before any fsync
  [.sendBlock lostBlock 0, .push true 0, .flushOne (.sentOn 0), .deliver 0 ⟨true, [], []⟩, .recvAck 0]

/-- The crash takes the acknowledged block away, and the resumed run skips it. -/
theorem resume_skips_lost_block :
    ∃ s ∈ run (Migration.step ⟨false, "10.0.0.1:3400"⟩) (resumed Keyed.empty blankWriter)
        unsyncedActions,
      trace (Migration.step ⟨false, "10.0.0.1:3400"⟩) AckVersion.acknowledged
        (resumed Keyed.empty blankWriter) unsyncedActions = [lostBlock.1] ∧
      ∃ s' ∈ run (Migration.step ⟨false, "10.0.0.1:3400"⟩)
          (resumed s.db (restarted (crash (fun _ _ => false) blankWriter.store (diskOps s.log))))
          [.sendBlock lostBlock 0],
        sqliteBlockAcked s'.db (0, 512) = some true ∧ AckVersion.pushedBlock s'.pc = none ∧
        ByteStore.read (s'.writer.store 0) 512 3 = [0, 0, 0] := by
  decide +kernel

end Go2Cloud.CrashResume
