import Go2Cloud.Migration.CrashResume

/-! How much of what the tracker counts as acknowledged a crash of the receiver's host can take
away. The receiver syncs the disks behind every 2000th block it has written, whatever the
sessions, and at an end marker. -/
namespace Go2Cloud.CrashWindow
open Protocol Reader Tracker Decoder BlockWriter Receiver Migration Mirror Transition CrashLog
  CrashResume
open FullMode (ReadsSource)

def Syncs : Action → Prop
  | .deliver _ io => ∀ ok ∈ io.fsyncs, ok = true
  | _ => True

/-- The block of the key is secured, or it is one of those counted since the last periodic fsync. -/
def Kept (src : Source) (len : Key → Nat) (recent : List Key) (log : List (Nat × DiskOp)) (k : Key) :
    Prop :=
  Secured src len log k ∨ k ∈ recent

def withoutRows (s : Sys) : Sys := { s with db := Keyed.empty }

structure Window (src : Source) (len : Key → Nat) (base : Store) (recent : List Key) (s : Sys) :
    Prop where
  inv : Inv src len base (withoutRows s)
  opened : ∀ i pos cells, .wrote i pos cells ∈ diskOps s.log → (s.writer.disks i).opened = true
  acks : ∀ c, ∀ r ∈ s.down c, IsAck r → Kept src len recent s.log (r.devno, r.offset)
  rows : ∀ row ∈ s.db.rows, row.ack = true →
    Matches src base row.key (len row.key) ∨ Kept src len recent s.log row.key
  written : ∀ k ∈ recent, Written src len s.log k
  count : s.writer.blocksSinceFsync.toNat = recent.length
  bound : recent.length < fsyncBlockInterval

variable {src : Source} {len : Key → Nat} {base : Store} {recent : List Key} {s s' : Sys}
  {cfg : Config} {a : Action} {log : List (Nat × DiskOp)} {k : Key}

theorem window_resumed {db : BlockTable} {w : Writer} (fresh : w.blocksSinceFsync = 0)
    (h : ∀ row ∈ db.rows, row.ack = true → Matches src w.store row.key (len row.key)) :
    Window src len w.store [] (resumed db w) where
  inv := show Inv src len w.store (resumed Keyed.empty w) from inv_resumed (by simp [Keyed.empty])
  opened := by simp [resumed, init, diskOps]
  acks := by simp [resumed, init]
  rows row member ack := .inl (h row member ack)
  written := by simp
  count := by simp [resumed, init, fresh]
  bound := by decide

theorem secured_of_flushed (h : Written src len log k) {later : List (Nat × DiskOp)}
    (syncs : ∀ i pos cells, .wrote i pos cells ∈ diskOps log → .synced i ∈ diskOps later) :
    Secured src len (log ++ later) k := by
  obtain ⟨b, i, key, source, disk, nonneg, member⟩ := h
  obtain ⟨before, after, split⟩ := List.append_of_mem member
  refine ⟨b, i, before, after ++ diskOps later, key, source, disk, nonneg, ?_, ?_⟩
  · rw [diskOps_append, split, List.append_assoc, List.cons_append]
  · rw [List.any_append, Bool.or_eq_true]
    refine .inr (List.any_eq_true.mpr ⟨.synced i, syncs i _ _ member, by simp [Op.syncs]⟩)

theorem Kept.append (h : Kept src len recent log k) (later : List (Nat × DiskOp)) :
    Kept src len recent (log ++ later) k :=
  h.imp (fun secured => secured.append later) id

theorem mem_diskOps_wrote {i : Fin maxTargetDisks} {pos : Nat} {cells : List UInt8} {id : Nat}
    {ops : List DiskOp} (h : .wrote i pos cells ∈ diskOps (entries id ops)) :
    DiskOp.wrote i pos cells ∈ ops := by
  simp only [diskOps, entries, List.filterMap_map, List.mem_filterMap, Function.comp_apply] at h
  obtain ⟨op, member, logged⟩ := h
  cases op with
  | wrote j at_pos bytes =>
    cases Option.some.inj logged
    exact member
  | synced j ok => cases ok <;> cases logged

theorem synced_mem_diskOps {id : Nat} {ops : List DiskOp} {i : Fin maxTargetDisks}
    (h : .synced i true ∈ ops) : .synced i ∈ diskOps (entries id ops) := by
  simp only [diskOps, entries, List.filterMap_map, List.mem_filterMap, Function.comp_apply]
  exact ⟨_, h, rfl⟩

theorem dispatch_wrote {w : Writer} {io : DiskIo} {m : Msg} {i : Fin maxTargetDisks} {pos : Nat}
    {cells : List UInt8} (h : .wrote i pos cells ∈ (dispatch w io m).ops) :
    (w.disks i).opened = true := by
  cases m with
  | control ctl =>
    cases ctl with
    | incremental => cases h
    | endIncremental =>
      obtain ⟨_, _, other⟩ := mem_fsyncAll h
      cases other
  | block b =>
    have ops : (dispatch w io (.block b)).ops = (blockWriterWrite w io b).ops := by
      simp only [dispatch, dispatchBlock]
      split <;> rfl
    rw [ops] at h
    exact (blockWriterWrite_wrote h).2.2

inductive Shifts (w : Writer) (io : DiskIo) (m : Msg) (d : Dispatched) : Prop
  | still (silent : ∀ r ∈ d.responses, ¬ IsAck r)
    (same : d.writer.blocksSinceFsync = w.blocksSinceFsync)
  | grows (b : Block) (block : m = .block b) (ok : (blockWriterWrite w io b).ok = true)
    (since : d.writer.blocksSinceFsync = w.blocksSinceFsync + 1)
    (less : w.blocksSinceFsync + 1 < UInt64.ofNat fsyncBlockInterval)
  | closes (b : Block) (block : m = .block b) (ok : (blockWriterWrite w io b).ok = true)
    (since : d.writer.blocksSinceFsync = 0) (first : DiskOp) (synced : List DiskOp)
    (ops : d.ops = first :: synced)
    (all : ∀ i, (w.disks i).opened = true → .synced i true ∈ synced)

theorem dispatch_shifts (w : Writer) {io : DiskIo} (m : Msg)
    (syncs : ∀ ok ∈ io.fsyncs, ok = true) : Shifts w io m (dispatch w io m) := by
  cases m with
  | control ctl =>
    refine .still (fun r member ack => ?_) (by cases ctl <;> rfl)
    obtain ⟨b, block, -⟩ := AckVersion.dispatch_ack member ack
    cases block
  | block b =>
    have ops : (dispatch w io (.block b)).ops = (blockWriterWrite w io b).ops := by
      simp only [dispatch, dispatchBlock]
      split <;> rfl
    have since : (dispatch w io (.block b)).writer.blocksSinceFsync =
        (blockWriterWrite w io b).writer.blocksSinceFsync := by
      simp only [dispatch, dispatchBlock]
      split <;> rfl
    cases blockWriterWrite_counted w io b with
    | refused failed same =>
      refine .still (fun r member ack => ?_) (since.trans same)
      obtain ⟨b', block, -, ok, -⟩ := AckVersion.dispatch_ack member ack
      cases block
      rw [failed] at ok
      cases ok
    | early ok counted less => exact .grows b rfl ok (since.trans counted) less
    | due ok counted first w' opened all =>
      refine .closes b rfl ok (since.trans counted) first _ (ops.trans all) fun i open_disk => ?_
      exact synced_mem_fsyncAll syncs ((opened i).trans open_disk)

theorem written_of_ok {w : Writer} {io : DiskIo} {b : Block} (id : Nat) (source : FromSource src len b)
    (ok : (blockWriterWrite w io b).ok = true) (log : List (Nat × DiskOp)) :
    Written src len (log ++ entries id (dispatch w io (.block b)).ops) b.key := by
  have answered : ackSendBlock b ∈ (dispatch w io (.block b)).responses := by
    simp [dispatch, dispatchBlock, ok]
  have written : Written src len (entries id (dispatch w io (.block b)).ops) b.key :=
    dispatch_written id (fun b' same => by cases same; exact source) answered
          (by simp [IsAck, ackSendBlock])
  obtain ⟨b', i, key, from_source, disk, nonneg, member⟩ := written
  refine ⟨b', i, key, from_source, disk, nonneg, ?_⟩
  rw [diskOps_append]
  exact List.mem_append_right _ member

theorem secured_of_closes {w : Writer} {io : DiskIo} {b : Block} (id : Nat)
    (source : FromSource src len b) (ok : (blockWriterWrite w io b).ok = true) {first : DiskOp}
    {synced : List DiskOp} (ops : (dispatch w io (.block b)).ops = first :: synced)
    (all : ∀ i, (w.disks i).opened = true → .synced i true ∈ synced) (log : List (Nat × DiskOp)) :
    Secured src len (log ++ entries id (dispatch w io (.block b)).ops) b.key := by
  obtain ⟨landed, spec⟩ := blockWriterWrite_spec w io b
  obtain ⟨i, rest, disk, nonneg, written⟩ := spec.disk ok
  have same : first :: synced = .wrote i b.offset.toInt.toNat b.data :: rest := by
    rw [← ops, ← written]
    simp [dispatch, dispatchBlock, ok]
  obtain ⟨rfl, rfl⟩ := List.cons.inj same
  have open_disk : (w.disks i).opened = true :=
    dispatch_wrote (m := .block b) (ops ▸ List.mem_cons_self)
  refine ⟨b, i, diskOps log, diskOps (entries id synced), rfl, source, disk, nonneg, ?_, ?_⟩
  · rw [ops, diskOps_append]
    rfl
  · exact List.any_eq_true.mpr
      ⟨.synced i, synced_mem_diskOps (all i open_disk), by simp [Op.syncs]⟩

theorem Window.delivers (h : Window src len base recent s) {c : Conn} {f : Frame}
    {rest : List Frame} {io : DiskIo} {m : Msg} (head : s.up c = f :: rest)
    (good : f.body.msg = .ok m) (syncs : ∀ ok ∈ io.fsyncs, ok = true)
    (carries : Carries (FromSource src len) (handled s c f.id rest (dispatch s.writer io m))) :
    ∃ recent', Window src len base recent' (handled s c f.id rest (dispatch s.writer io m)) := by
  have source : ∀ b, m = .block b → FromSource src len b := fun b block =>
    h.inv.carries.block (s := withoutRows s) (c := c) (head ▸ List.mem_cons_self) (block ▸ good)
  have inv : Inv src len base (withoutRows (handled s c f.id rest (dispatch s.writer io m))) :=
    h.inv.delivers head good ⟨carries.slots, carries.frames, carries.under_way⟩
  have grown : (handled s c f.id rest (dispatch s.writer io m)).log =
      s.log ++ entries f.id (dispatch s.writer io m).ops := rfl
  have opened : ∀ i pos cells,
      .wrote i pos cells ∈ diskOps (handled s c f.id rest (dispatch s.writer io m)).log →
        ((dispatch s.writer io m).writer.disks i).opened = true := by
    intro i pos cells member
    rw [dispatch_opened]
    rw [grown, diskOps_append] at member
    rcases List.mem_append.mp member with old | new
    · exact h.opened i pos cells old
    · exact dispatch_wrote (mem_diskOps_wrote new)
  cases dispatch_shifts s.writer m syncs with
  | still silent same =>
    refine ⟨recent, inv, opened, fun c' r member ack => ?_,
      fun row member ack => (h.rows row member ack).imp id fun kept => kept.append _,
      fun k member => (h.written k member).append _, ?_, h.bound⟩
    · rcases mem_handled_down.mp member with old | ⟨-, new⟩
      · exact (h.acks c' r old ack).append _
      · exact absurd ack (silent r new)
    · exact (congrArg UInt64.toNat same).trans h.count
  | grows b block ok since less =>
    have counted : (s.writer.blocksSinceFsync + 1).toNat = recent.length + 1 := by
      have bound := h.bound
      unfold fsyncBlockInterval at bound
      rw [UInt64.toNat_add, h.count]
      exact Nat.mod_eq_of_lt (by simp; omega)
    refine ⟨recent ++ [b.key], inv, opened, fun c' r member ack => ?_, fun row member ack => ?_,
      fun k member => ?_, ?_, ?_⟩
    · rcases mem_handled_down.mp member with old | ⟨-, new⟩
      · exact ((h.acks c' r old ack).append _).imp id (List.mem_append_left _)
      · obtain ⟨b', block', key, -⟩ := AckVersion.dispatch_ack new ack
        cases block.symm.trans block'
        right
        rw [key]
        simp
    · exact (h.rows row member ack).imp id fun kept =>
        (kept.append _).imp id (List.mem_append_left _)
    · rcases List.mem_append.mp member with old | new
      · exact (h.written k old).append _
      · rw [List.mem_singleton.mp new, grown, block]
        exact written_of_ok f.id (source b block) ok s.log
    · rw [List.length_append]
      exact (congrArg UInt64.toNat since).trans counted
    · have fewer := UInt64.lt_iff_toNat_lt.mp less
      rw [counted] at fewer
      simpa [fsyncBlockInterval] using fewer
  | closes b block ok since first synced ops all =>
    subst block
    have secured : ∀ k, Kept src len recent s.log k →
        Secured src len (s.log ++ entries f.id (dispatch s.writer io (.block b)).ops) k := by
      rintro k (before | waits)
      · exact before.append _
      · refine secured_of_flushed (h.written k waits) fun i pos cells member => ?_
        refine synced_mem_diskOps ?_
        rw [ops]
        exact List.mem_cons_of_mem _ (all i (h.opened i pos cells member))
    refine ⟨[], inv, opened, fun c' r member ack => .inl ?_,
      fun row member ack => (h.rows row member ack).imp id fun kept => .inl (secured _ kept),
      by simp, congrArg UInt64.toNat since, by decide⟩
    rcases mem_handled_down.mp member with old | ⟨-, new⟩
    · exact secured _ (h.acks c' r old ack)
    · obtain ⟨b', block', key, -⟩ := AckVersion.dispatch_ack new ack
      cases block'
      rw [key]
      exact secured_of_closes f.id (source b rfl) ok ops all s.log

theorem step_window (h : Window src len base recent s) (full : cfg.tailSend = false)
    (reads : ReadsSource src len a) (syncs : Syncs a) (hs : Migration.step cfg s a = some s') :
    ∃ recent', Window src len base recent' s' := by
  have st := Migration.step_inv hs
  have before : SendsOnly (FromSource src len) s.pc := h.inv.position
  have position := before.step (fun _ _ _ _ => full)
    (fun b version taken => by subst taken; exact reads) st
  have carried : Carries (FromSource src len) s :=
    ⟨h.inv.carries.slots, h.inv.carries.frames, h.inv.carries.under_way⟩
  have carries := step_carries carried (fun b pusher push => (before.pushing push).1) st
  have rows : ∀ row ∈ s'.db.rows, row.ack = true →
      Matches src base row.key (len row.key) ∨ Kept src len recent s.log row.key := by
    intro row member ack
    rcases before.acked_before full st member ack with
      ⟨old, old_member, key, old_ack⟩ | ⟨c, rfl, r, first, is_ack, key⟩
    · exact key ▸ h.rows old old_member old_ack
    · rw [key]
      exact .inr (h.acks c r (List.mem_of_mem_head? first) is_ack)
  -- everything but a delivery leaves the disks alone and takes answers away at most
  have quiet : ∀ t : Sys, t = s' → t.writer = s.writer → t.log = s.log →
      (∀ c, ∀ r ∈ t.down c, r ∈ s.down c) → ∃ recent', Window src len base recent' s' := by
    rintro t rfl same_writer same_log fewer
    refine ⟨recent, ⟨position, ⟨carries.slots, carries.frames, carries.under_way⟩, ?_, ?_,
      fun c r member => ?_, by simp [withoutRows, Keyed.empty]⟩, ?_, fun c r member => ?_, ?_, ?_, ?_,
    h.bound⟩
    · simpa [withoutRows, same_writer, same_log] using h.inv.store
    · simpa [withoutRows, same_log] using h.inv.copies
    · simpa [withoutRows, same_log] using h.inv.acks c r (fewer c r member)
    · simpa [same_log, same_writer] using h.opened
    · simpa [same_log] using h.acks c r (fewer c r member)
    · simpa [same_log] using rows
    · simpa [same_log] using h.written
    · simpa [same_writer] using h.count
  cases st with
  | acked head ack => exact quiet _ rfl rfl rfl fun c r member => mem_of_taken head member
  | finished head done => exact quiet _ rfl rfl rfl fun c r member => mem_of_taken head member
  | ignored head => exact quiet _ rfl rfl rfl fun c r member => mem_of_taken head member
  | delivered head good => exact h.delivers head good syncs carries
  | _ => exact quiet _ rfl rfl rfl fun c r member => member

/-- With a fixed source and a receiver whose fsyncs succeed: whatever the interleaving and the
failed writes, and whatever a crash discards of the writes that no fsync followed, fewer than
FSYNC_BLOCK_INTERVAL of the blocks with ack = 1 are lost. -/
theorem crash_loses_less_than_interval (src : Source) (len : Key → Nat) (db : BlockTable)
    (w : Writer) (remoteId : String) (actions : List Action) (s : Sys)
    (fresh : w.blocksSinceFsync = 0)
    (before : ∀ row ∈ db.rows, row.ack = true → Matches src w.store row.key (len row.key))
    (hr : run (Migration.step ⟨false, remoteId⟩) (resumed db w) actions = some s)
    (reads : ∀ a ∈ actions, ReadsSource src len a) (syncs : ∀ a ∈ actions, Syncs a)
    (keep : Nat → Nat → Bool) (lost : List Row) (distinct : lost.Nodup)
    (gone : ∀ row ∈ lost, row ∈ s.db.rows ∧ row.ack = true ∧
      ¬ Matches src (crash keep w.store (diskOps s.log)) row.key (len row.key)) :
    lost.length < fsyncBlockInterval := by
  have window : ∃ recent, Window src len w.store recent s :=
    run_invariant_of_meets (P := fun s => ∃ recent, Window src len w.store recent s)
      (fun _ a _ ⟨_, h⟩ (cond : ReadsSource src len a ∧ Syncs a) hs =>
        step_window h rfl cond.1 cond.2 hs) hr
      (meets_of_forall _ fun a member _ => ⟨reads a member, syncs a member⟩)
      ⟨[], window_resumed fresh before⟩
  obtain ⟨recent, h⟩ := window
  have waiting : ∀ row ∈ lost, row.key ∈ recent := by
    intro row member
    obtain ⟨listed, ack, unmatched⟩ := gone row member
    rcases h.rows row listed ack with on_base | secured | recently
    · exact absurd (matches_crash on_base h.inv.copies keep) unmatched
    · exact absurd (secured.matches h.inv.copies keep) unmatched
    · exact recently
  have keys : (lost.map Row.key).Nodup := by
    refine distinct.map_on fun r hr r' hr' same => ?_
    exact List.inj_on_of_nodup_map s.db.unique (gone r hr).1 (gone r' hr').1 same
  have fits : (lost.map Row.key).Subperm recent := by
    refine List.subperm_of_subset keys fun k member => ?_
    obtain ⟨row, listed, rfl⟩ := List.mem_map.mp member
    exact waiting row listed
  have few := fits.length_le
  rw [List.length_map] at few
  exact few.trans_lt h.bound

/-- One acknowledged block is lost to a crash before the first fsync. -/
theorem crash_loses_less_than_interval_unsynced :
    ∃ s ∈ run (Migration.step ⟨false, "10.0.0.1:3400"⟩) (resumed Keyed.empty blankWriter)
        unsyncedActions,
      ∃ row ∈ s.db.rows, row.ack = true ∧
        ¬ Matches (fun _ a => UInt8.ofNat (a - 511))
          (crash (fun _ _ => false) blankWriter.store (diskOps s.log)) row.key 3 ∧
        [row].length < fsyncBlockInterval := by
  have runs : ∃ s ∈ run (Migration.step ⟨false, "10.0.0.1:3400"⟩) (resumed Keyed.empty blankWriter)
      unsyncedActions, ∃ row ∈ s.db.rows, row.ack = true ∧
        ¬ Matches (fun _ a => UInt8.ofNat (a - 511))
          (crash (fun _ _ => false) blankWriter.store (diskOps s.log)) row.key 3 := by
    unfold Matches
    decide +kernel
  have block : FromSource (fun _ a => UInt8.ofNat (a - 511)) (fun _ => 3) lostBlock.1 := by
    decide +kernel
  obtain ⟨s, hr, row, member, ack, unmatched⟩ := runs
  refine ⟨s, hr, row, member, ack, unmatched, ?_⟩
  refine crash_loses_less_than_interval (fun _ a => UInt8.ofNat (a - 511)) (fun _ => 3) Keyed.empty
    blankWriter "10.0.0.1:3400" unsyncedActions s rfl (by simp [Keyed.empty]) hr
    (by simp [unsyncedActions, ReadsSource, block]) (by simp [unsyncedActions, Syncs])
    (fun _ _ => false) [row] (by simp) ?_
  intro r listed
  rw [List.mem_singleton.mp listed]
  exact ⟨member, ack, unmatched⟩

end Go2Cloud.CrashWindow
