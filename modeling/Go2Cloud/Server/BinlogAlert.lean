import Go2Cloud.Server.Receiver

/-! The BINLOG alert over runs of the receiver (block_writer_pending_bytes and
handle_session), next to a count of the bytes written since the last alert that
the receiver itself does not keep. -/
namespace Go2Cloud.BinlogAlert
open Protocol BlockWriter Receiver Transition

def wroteBytes (r : State) : Event → Nat
  | .message _ io m _ => (dispatch r.writer io m).counted.getD 0
  | _ => 0

def issued (r : State) : Event → List (Nat × ServerResponse)
  | .message session io m _ => (dispatch r.writer io m).responses.map (session, ·)
  | _ => []

def Alerts (r : State) (e : Event) : Prop := ∃ x ∈ issued r e, x.2.type = responseBinlog

instance (r : State) (e : Event) : Decidable (Alerts r e) :=
  inferInstanceAs (Decidable (∃ x ∈ issued r e, _))

structure Watched where
  receiver : State
  since : Nat

def watchStep (s : Watched) (e : Event) : Option Watched :=
  (step s.receiver e).map fun r =>
    ⟨r, if Alerts s.receiver e then 0 else s.since + wroteBytes s.receiver e⟩

def startup (disks : Fin maxTargetDisks → TargetDisk) (maxConnections : Nat) : Watched :=
  ⟨⟨⟨disks, 0, 0, 0, 0⟩, maxConnections, []⟩, 0⟩

/-- The event that takes the count to the limit alerts the client of its session. -/
def Fires (s : Watched) (e : Event) : Prop :=
  s.since < binlogSizeLimit → binlogSizeLimit ≤ s.since + wroteBytes s.receiver e →
    Alerts s.receiver e

def totalWritten (s : Watched) (events : List Event) : Nat :=
  (trace watchStep (fun s e => [wroteBytes s.receiver e]) s events).sum

/-- The responses `issued` lists for a session are those the step appends to it. -/
theorem issued_step {r r' : State} {e : Event} (h : step r e = some r') {session : Nat}
    {s : Session} (at_session : r.sessions[session]? = some s) :
    ∃ s', r'.sessions[session]? = some s' ∧
      s'.responses = s.responses ++ ((issued r e).filter fun x => x.1 = session).map Prod.snd := by
  have inside : session < r.sessions.length := (List.getElem?_eq_some_iff.mp at_session).1
  cases e with
  | accept calloc =>
    cases h
    refine ⟨s, ?_, by simp [issued]⟩
    unfold accept
    split
    · exact at_session
    split
    · exact at_session
    rw [List.getElem?_append_left inside]
    exact at_session
  | remove other =>
    obtain ⟨t, at_other, h⟩ := Option.bind_eq_some_iff.mp h
    obtain ⟨-, -, h⟩ := Option.bind_eq_some_iff.mp h
    cases h
    by_cases same : other = session
    · subst same
      obtain rfl : t = s := Option.some.inj (at_other.symm.trans at_session)
      exact ⟨_, by rw [List.getElem?_set_self inside], by simp [issued]⟩
    · exact ⟨s, by rw [List.getElem?_set_ne same, at_session], by simp [issued]⟩
  | message other io m fits =>
    obtain ⟨t, at_other, h⟩ := Option.bind_eq_some_iff.mp h
    obtain ⟨-, -, h⟩ := Option.bind_eq_some_iff.mp h
    cases h
    by_cases same : other = session
    · subst same
      obtain rfl : t = s := Option.some.inj (at_other.symm.trans at_session)
      refine ⟨_, List.getElem?_set_self inside, ?_⟩
      simp [issued, Session.afterMsg, List.filter_map, Function.comp_def]
    · refine ⟨s, (List.getElem?_set_ne same).trans at_session, ?_⟩
      simp [issued, List.filter_map, Function.comp_def, same]

theorem blockWriterWrite_pending (w : Writer) (io : DiskIo) (b : Block) :
    (blockWriterWrite w io b).writer.pendingBytes =
      w.pendingBytes + if (blockWriterWrite w io b).ok then UInt64.ofNat b.data.length else 0 := by
  unfold blockWriterWrite
  split
  · simp
  split
  · simp
  split
  · simp
  unfold finishWrite
  split
  · rfl
  · simp [Writer.setDisk]

theorem dispatch_pending {w : Writer} (io : DiskIo) {m : Msg} (fits : m.DataFits)
    (empty : w.pendingBytes = 0) :
    (dispatch w io m).writer.pendingBytes = 0 ∧
      ∀ x ∈ (dispatch w io m).responses, x.type ≠ responseBinlog := by
  -- the counter is read and cleared after every block, so it never holds more than one block, which
  -- is far below the limit
  cases m with
  | control c =>
    cases c with
    | incremental => exact ⟨empty, by simp [dispatch]⟩
    | endIncremental => exact ⟨empty, by simp [dispatch, ackSendDone, responseServerDone, responseBinlog]⟩
  | block b =>
    have pending := blockWriterWrite_pending w io b
    simp only [dispatch, dispatchBlock]
    split
    next ok =>
      rw [ok, if_pos rfl, empty, UInt64.zero_add] at pending
      have cap : decodedDataCap = 0x101000 := rfl
      have small : b.data.length ≤ decodedDataCap := fits
      have below : ¬ (blockWriterWrite w io b).writer.pendingBytes ≥ UInt64.ofNat binlogSizeLimit := by
        rw [pending, ge_iff_le, UInt64.le_iff_toNat_le, UInt64.toNat_ofNat_of_lt' (by decide),
          UInt64.toNat_ofNat_of_lt' (by rw [UInt64.size]; omega), binlogSizeLimit]
        omega
      refine ⟨rfl, fun x member => ?_⟩
      rw [blockWriterPendingBytes, if_neg below, List.mem_singleton] at member
      rw [member]
      simp [ackSendBlock, responseAck, responseBinlog]
    next failed =>
      rw [if_neg failed, empty] at pending
      exact ⟨pending, by simp⟩

theorem issued_quiet {r : State} (e : Event) (empty : r.writer.pendingBytes = 0) :
    ¬ Alerts r e := by
  rintro ⟨x, member, binlog⟩
  cases e with
  | message session io m fits =>
    obtain ⟨response, issued, rfl⟩ := List.mem_map.mp member
    exact (dispatch_pending io fits empty).2 response issued binlog
  | accept calloc => cases member
  | remove session => cases member

theorem watchStep_quiet {s s' : Watched} {e : Event} (h : watchStep s e = some s')
    (empty : s.receiver.writer.pendingBytes = 0) :
    s'.receiver.writer.pendingBytes = 0 ∧ s'.since = s.since + wroteBytes s.receiver e := by
  obtain ⟨r, next, rfl⟩ := Option.map_eq_some_iff.mp h
  refine ⟨?_, if_neg (issued_quiet e empty)⟩
  cases e with
  | accept calloc =>
    cases next
    simp only [accept]
    split
    · exact empty
    split <;> exact empty
  | remove session =>
    obtain ⟨t, -, next⟩ := Option.bind_eq_some_iff.mp next
    obtain ⟨-, -, next⟩ := Option.bind_eq_some_iff.mp next
    cases next
    exact empty
  | message session io m fits =>
    obtain ⟨t, -, next⟩ := Option.bind_eq_some_iff.mp next
    obtain ⟨-, -, next⟩ := Option.bind_eq_some_iff.mp next
    cases next
    exact (dispatch_pending io fits empty).1

theorem fires_iff_below {s t : Watched} {events : List Event}
    (h : run watchStep s events = some t) (empty : s.receiver.writer.pendingBytes = 0)
    (below : s.since < binlogSizeLimit) :
    Meets watchStep Fires s events ↔ s.since + totalWritten s events < binlogSizeLimit := by
  -- by induction on the run, from any count below the limit
  induction events generalizing s with
  | nil => simpa [Meets, totalWritten, trace] using below
  | cons e events ih =>
    obtain ⟨s', first, rest⟩ := run_cons h
    obtain ⟨empty', since'⟩ := watchStep_quiet first empty
    have total : totalWritten s (e :: events) =
        wroteBytes s.receiver e + totalWritten s' events := by
      simp [totalWritten, trace, first]
    rw [total, ← Nat.add_assoc, ← since']
    by_cases crossed : s'.since < binlogSizeLimit
    · rw [← ih rest empty' crossed]
      have here : Fires s e := fun _ reached => by omega
      simp [Meets, here, first]
    · refine iff_of_false (fun meets => ?_) (by omega)
      exact issued_quiet e empty (meets.1 below (by omega))

/-- Started with an empty counter, the alert fires whenever it is due exactly in the runs
where it never becomes due. -/
theorem binlog_alert_iff (disks : Fin maxTargetDisks → TargetDisk) (maxConnections : Nat)
    (events : List Event) (t : Watched)
    (h : run watchStep (startup disks maxConnections) events = some t) :
    Meets watchStep Fires (startup disks maxConnections) events ↔
      totalWritten (startup disks maxConnections) events < binlogSizeLimit := by
  have exact_count := fires_iff_below h rfl (Nat.zero_lt_succ _)
  rwa [show (startup disks maxConnections).since = 0 from rfl, Nat.zero_add] at exact_count

def sameBlock (b : Block) (fits : (Msg.block b).DataFits) (n : Nat) : List Event :=
  -- the same block sent `n` times on the first session
  List.replicate n (.message 0 ⟨true, [], []⟩ (.block b) fits)

def Takes (r : State) (b : Block) : Prop :=
  -- a live first session and a target that takes the block
  (∃ session, r.sessions[0]? = some session ∧ session.live = true) ∧
    Ready r.writer ⟨true, [], []⟩ b

theorem watchStep_takes {s : Watched} {b : Block} (fits : (Msg.block b).DataFits)
    (h : Takes s.receiver b) :
    wroteBytes s.receiver (.message 0 ⟨true, [], []⟩ (.block b) fits) = b.data.length ∧
      ∃ t, watchStep s (.message 0 ⟨true, [], []⟩ (.block b) fits) = some t ∧
        Takes t.receiver b := by
  obtain ⟨⟨session, at_first, live⟩, ready⟩ := h
  have ok := blockWriterWrite_ready ready
  have inside := (List.getElem?_eq_some_iff.mp at_first).1
  have enabled : step s.receiver (.message 0 ⟨true, [], []⟩ (.block b) fits) =
      some (handleMsg s.receiver 0 session ⟨true, [], []⟩ (.block b)) := by
    simp [step, at_first, live]
  refine ⟨by simp [wroteBytes, dispatch, dispatchBlock, ok], _,
    Option.map_eq_some_iff.mpr ⟨_, enabled, rfl⟩,
    ⟨_, List.getElem?_set_self inside, live⟩, ?_⟩
  obtain ⟨⟨i, device, registered, opened⟩, rest⟩ := ready
  have same := blockWriterWrite_available s.receiver.writer ⟨true, [], []⟩ b i
  refine ⟨⟨i, device, ?_, ?_⟩, rest⟩
  · simp only [handleMsg, dispatch, dispatchBlock, ok, if_true]
    exact same.1.trans registered
  · simp only [handleMsg, dispatch, dispatchBlock, ok, if_true]
    exact same.2.trans opened

theorem run_sameBlock {b : Block} (fits : (Msg.block b).DataFits) (n : Nat) {s : Watched}
    (h : Takes s.receiver b) :
    (∃ t, run watchStep s (sameBlock b fits n) = some t) ∧
      totalWritten s (sameBlock b fits n) = n * b.data.length := by
  induction n generalizing s with
  | zero => exact ⟨⟨s, rfl⟩, by simp [sameBlock, totalWritten, trace]⟩
  | succ n ih =>
    obtain ⟨writes, t, next, h'⟩ := watchStep_takes fits h
    obtain ⟨⟨u, rest⟩, total⟩ := ih h'
    constructor
    · exact ⟨u, by simpa [sameBlock, List.replicate_succ, run, next] using rest⟩
    · have unfolded : totalWritten s (sameBlock b fits (n + 1)) =
          b.data.length + totalWritten t (sameBlock b fits n) := by
        simp [totalWritten, sameBlock, List.replicate_succ, trace, next, writes]
      rw [unfolded, total]
      ring

theorem run_filling {b : Block} (fits : (Msg.block b).DataFits)
    (ready : Ready blankWriter ⟨true, [], []⟩ b) (n : Nat) :
    (∃ t, run watchStep (startup blankWriter.disks 7) (.accept true :: sameBlock b fits n) =
      some t) ∧
      totalWritten (startup blankWriter.disks 7) (.accept true :: sameBlock b fits n) =
        n * b.data.length := by
  obtain ⟨s, next, takes⟩ : ∃ s, watchStep (startup blankWriter.disks 7) (.accept true) = some s ∧
      Takes s.receiver b := ⟨_, rfl, ⟨.fresh, rfl, rfl⟩, ready⟩
  obtain ⟨⟨t, rest⟩, total⟩ := run_sameBlock fits n takes
  constructor
  · exact ⟨t, by simpa [run, next] using rest⟩
  · rw [← total]
    simp [totalWritten, trace, next, wroteBytes]

def fullBlock : Block := ⟨0, 0, List.replicate blockSize 0⟩

theorem fullBlock_length : fullBlock.data.length = blockSize := List.length_replicate

theorem fullBlock_fits : (Msg.block fullBlock).DataFits := by
  have within : blockSize ≤ decodedDataCap := Nat.le_add_right _ _
  exact fullBlock_length.trans_le within

-- a session that sends 10 GiB in full blocks
def tenGibibytes : List Event := .accept true :: sameBlock fullBlock fullBlock_fits 10240

theorem run_tenGibibytes :
    (∃ t, run watchStep (startup blankWriter.disks 7) tenGibibytes = some t) ∧
      totalWritten (startup blankWriter.disks 7) tenGibibytes = binlogSizeLimit := by
  have ready : Ready blankWriter ⟨true, [], []⟩ fullBlock :=
    ⟨⟨0, rfl, rfl, rfl⟩, rfl, le_rfl, List.not_mem_nil⟩
  obtain ⟨completes, total⟩ := run_filling fullBlock_fits ready 10240
  exact ⟨completes, total.trans (by rw [fullBlock_length, blockSize, binlogSizeLimit])⟩

/-- One session sends 10 GiB: the alert is due on the last block and is not sent. -/
theorem tenGibibytes_no_alert :
    ∃ t, run watchStep (startup blankWriter.disks 7) tenGibibytes = some t ∧
      totalWritten (startup blankWriter.disks 7) tenGibibytes = binlogSizeLimit ∧
      ¬ Meets watchStep Fires (startup blankWriter.disks 7) tenGibibytes := by
  obtain ⟨⟨t, completes⟩, total⟩ := run_tenGibibytes
  refine ⟨t, completes, total, fun meets => ?_⟩
  have below := (fires_iff_below completes rfl (Nat.zero_lt_succ _)).mp meets
  rw [total] at below
  exact absurd below (by simp [startup])

theorem binlog_alert_iff_tenGibibytes :
    ∃ t, run watchStep (startup blankWriter.disks 7) tenGibibytes = some t ∧
      (Meets watchStep Fires (startup blankWriter.disks 7) tenGibibytes ↔
        totalWritten (startup blankWriter.disks 7) tenGibibytes < binlogSizeLimit) :=
  run_tenGibibytes.1.imp fun t completes =>
    ⟨completes, binlog_alert_iff blankWriter.disks 7 tenGibibytes t completes⟩

end Go2Cloud.BinlogAlert
