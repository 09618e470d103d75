import Go2Cloud.Migration.FullMode
import Go2Cloud.Migration.FullRun

/-! What a full sync leaves on the target when its tracker has rows of earlier runs.
send_block skips a block whose row has ack = 1 without comparing its content, so the
run reproduces its own snapshot only where no such row was left. -/
namespace Go2Cloud.Snapshot
open Protocol Queue Reader Tracker BlockWriter Migration Mirror Transition FullRun
open FullSync (Layout)

def nextKey : Phase → Option Key
  | .transfer (k :: _) => some k
  | _ => none

def ReadsSnapshot (src : Source) (len : Key → Nat) (job : Job) : Event → Prop
  -- every read returns the bytes of the sources the run opened
  | .visit (some data) => ∀ k ∈ nextKey job.phase, FromSource src len (readAs k data).1
  | .retransmit k (some data) => FromSource src len (readAs k data).1
  | _ => True

instance (src : Source) (len : Key → Nat) (job : Job) :
    (e : Event) → Decidable (ReadsSnapshot src len job e)
  -- by name, since a search may also find the one that runs over every key
  | .visit (some _) => Option.decidableForallMem (nextKey job.phase)
  | .retransmit k (some data) => inferInstanceAs (Decidable (FromSource src len (readAs k data).1))
  | .visit none | .retransmit _ none | .perform _ | .hangUp _ | .exception | .transferred
  | .drainTurn | .endTransfer _ | .wait | .finished => .isTrue trivial

variable {given : Key → Prop} {src : Source} {len : Key → Nat} {cfg : Config} {job job' : Job}

theorem hangUp_inv {s : Sys} (h : FullMode.Inv given src len s) (c : Conn) :
    FullMode.Inv given src len (hangUp s c) :=
  ⟨h.position, hangUp_carries h.carries c,
    fun c' r member => h.acks c' r (mem_hangUp_down.mp member).2, h.rows⟩

theorem allows_reads {phase : Phase} {a : Migration.Action} (allowed : phase.allows a = true) :
    FullMode.ReadsSource src len a := by
  cases a with
  | sendBlock b version => cases phase <;> cases allowed
  | _ => trivial

theorem step_matches {e : Event} (h : FullMode.Inv given src len job.sys)
    (full : cfg.tailSend = false) (reads : ReadsSnapshot src len job e)
    (turn : Turn cfg job e job') : FullMode.Inv given src len job'.sys := by
  cases turn with
  | @visited k todo data s phase hs =>
    exact FullMode.step_inv (a := .sendBlock _ 0) h full (reads k (by rw [phase]; rfl)) hs
  | resent phase hs => exact FullMode.step_inv (a := .sendBlock _ 0) h full reads hs
  | performed allowed hs => exact FullMode.step_inv h full (allows_reads allowed) hs
  | hungUp => exact hangUp_inv h _
  | ended phase hs => exact FullMode.step_inv (a := .sendControl _ _) h full trivial hs
  | _ => exact h

/-- Whatever tracker and target earlier runs left: a full sync without losses ends
with the bytes of its own snapshot in every block it enumerates, except that a block
whose row had ack = 1 at the start has to have them already. -/
theorem full_sync_reproduces_snapshot (src : Source) (len : Key → Nat) (l : Layout)
    (opens : Fin maxTargetDisks → Bool) (db : BlockTable) (w : Writer) (remoteId : String)
    (events : List Event) (job : Job)
    (hr : run (FullRun.step ⟨false, remoteId⟩) (start db w (enumerated l opens)) events = some job)
    (smooth : Meets (FullRun.step ⟨false, remoteId⟩) Smooth (start db w (enumerated l opens)) events)
    (reads : Meets (FullRun.step ⟨false, remoteId⟩) (ReadsSnapshot src len)
      (start db w (enumerated l opens)) events)
    (success : job.phase = .returned 0) :
    ∀ k ∈ enumerated l opens,
      (sqliteBlockAcked db k = some true → Matches src w.store k (len k)) →
        Matches src job.sys.writer.store k (len k) := by
  intro k planned skipped
  have inv : FullRun.Inv (enumerated l opens) job :=
    run_invariant_of_meets (fun _ _ _ h cond hs => inv_step h rfl cond hs) hr smooth
      (inv_start db w (enumerated l opens))
  -- the keys whose ack = 1 was left by an earlier run and says nothing about this source
  have began : FullMode.Inv (fun k => sqliteBlockAcked db k = some true ∧
      ¬ Matches src w.store k (len k)) src len (start db w (enumerated l opens)).sys := by
    refine FullMode.inv_resumed w fun row member ack => ?_
    by_cases current : Matches src w.store row.key (len row.key)
    · exact .inr current
    · refine .inl ⟨?_, current⟩
      rw [sqliteBlockAcked, (Keyed.get_eq_some_iff db).mpr ⟨member, rfl⟩, Option.map_some, ack]
  have faithful := run_invariant_of_meets
    (P := fun job : Job => FullMode.Inv (fun k => sqliteBlockAcked db k = some true ∧
      ¬ Matches src w.store k (len k)) src len job.sys)
    (fun _ _ _ h cond hs => step_matches h rfl cond (FullRun.step_inv hs)) hr reads began
  obtain ⟨row, member, rfl, ack⟩ := inv.complete success planned
  rcases faithful.rows row member ack with ⟨acked, stale⟩ | current
  · exact absurd (skipped acked) stale
  · exact current

def interruptedDb : BlockTable :=
  -- the tracker of a run that was interrupted after queueing the block
  sqliteBlockUpsertV Keyed.empty "10.0.0.1:3400" (0, 0) 3 0 false 0

theorem full_sync_reproduces_snapshot_interrupted :
    ∃ job ∈ run (FullRun.step ⟨false, "10.0.0.1:3400"⟩)
        (start interruptedDb blankWriter (enumerated oneBlockLayout fun _ => true)) smoothEvents,
      Matches (fun _ a => UInt8.ofNat (a + 1)) job.sys.writer.store (0, 0) 3 := by
  have runs : ∃ job ∈ run (FullRun.step ⟨false, "10.0.0.1:3400"⟩)
        (start interruptedDb blankWriter (enumerated oneBlockLayout fun _ => true)) smoothEvents,
      Meets (FullRun.step ⟨false, "10.0.0.1:3400"⟩) Smooth
        (start interruptedDb blankWriter (enumerated oneBlockLayout fun _ => true)) smoothEvents ∧
      Meets (FullRun.step ⟨false, "10.0.0.1:3400"⟩)
        (ReadsSnapshot (fun _ a => UInt8.ofNat (a + 1)) fun _ => 3)
        (start interruptedDb blankWriter (enumerated oneBlockLayout fun _ => true)) smoothEvents ∧
      job.phase = .returned 0 := by
    decide +kernel
  obtain ⟨job, hr, smooth, reads, success⟩ := runs
  have unacked : sqliteBlockAcked interruptedDb (0, 0) ≠ some true := by decide +kernel
  exact ⟨job, hr,
    full_sync_reproduces_snapshot (fun _ a => UInt8.ofNat (a + 1)) (fun _ => 3) oneBlockLayout
      (fun _ => true) interruptedDb blankWriter "10.0.0.1:3400" smoothEvents job hr smooth reads
      success (0, 0) (by decide +kernel) fun acked => absurd acked unacked⟩

def laterRead : ReadData := ⟨[4, 5, 6], by decide⟩

/-- A later run in which nothing fails, but both visits skip the block. -/
def laterEvents : List Event :=
  ([.visit (some laterRead), .visit (some laterRead), .transferred, .endTransfer (.sentOn 0),
    .perform (.deliver 0 ⟨true, [], []⟩), .perform (.recvAck 0)] : List Event) ++
    List.replicate finishWaits .wait ++ [.finished]

/-- After a complete first run the source changes; the second run reads the new bytes,
succeeds, and leaves the old ones on the target. -/
theorem full_sync_keeps_old_snapshot :
    ∃ job ∈ run (FullRun.step ⟨false, "10.0.0.1:3400"⟩)
        (start Keyed.empty blankWriter (enumerated oneBlockLayout fun _ => true)) smoothEvents,
      job.phase = .returned 0 ∧
      ∃ job' ∈ run (FullRun.step ⟨false, "10.0.0.1:3400"⟩)
          (start job.sys.db job.sys.writer (enumerated oneBlockLayout fun _ => true)) laterEvents,
        job'.phase = .returned 0 ∧
        Meets (FullRun.step ⟨false, "10.0.0.1:3400"⟩) Smooth
          (start job.sys.db job.sys.writer (enumerated oneBlockLayout fun _ => true)) laterEvents ∧
        Meets (FullRun.step ⟨false, "10.0.0.1:3400"⟩)
          (ReadsSnapshot (fun _ a => UInt8.ofNat (a + 4)) fun _ => 3)
          (start job.sys.db job.sys.writer (enumerated oneBlockLayout fun _ => true)) laterEvents ∧
        (0, 0) ∈ enumerated oneBlockLayout (fun _ => true) ∧
        ByteStore.read (job'.sys.writer.store 0) 0 3 = [1, 2, 3] := by
  decide +kernel

end Go2Cloud.Snapshot
