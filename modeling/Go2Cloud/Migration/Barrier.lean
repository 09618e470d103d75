import Go2Cloud.Migration.InFlight

/-! What SERVER_DONE says about the blocks sent before the end marker. The marker
travels on one connection and the receiver answers it at once, so it covers the
blocks of the other connections only if they have been handled by then. pool_recv_ack
finds every response whole, here and wherever runs of Migration.step are meant. -/
namespace Go2Cloud.Barrier
open Protocol Queue Reader Tracker Round Decoder BlockWriter Receiver Migration Transition
open Msgpack (blockBytes)

def Durable (log : List (Nat × DiskOp)) (id : Nat) (b : Block) : Prop :=
  -- the frame's block was put on its disk, and a later fsync of the disk succeeded
  ∃ i before after, diskOf b.devno = some i ∧
    log = before ++ (id, .wrote i b.offset.toInt.toNat b.data) :: after ∧
    ∃ by_frame, (by_frame, .synced i true) ∈ after

/-- Every block frame among the first `n` sent is durable. -/
def DurableBefore (s : Sys) (n : Nat) : Prop :=
  ∀ f ∈ s.sent, f.id < n → ∀ payload, f.body = .data payload →
    ∃ b, f.block = some b ∧ Durable s.log f.id b

/-- When the end marker is handled, no block frame sent before it is under way on
any connection and every fsync succeeds; no delivered block fails to be written. -/
def Quiesced (s : Sys) : Action → Prop
  | .deliver c io => WritesSucceed s (.deliver c io) ∧
    ∀ f ∈ (s.up c).head?, f.body = .control .endIncremental →
      (∀ r ∈ io.fsyncs, r = true) ∧ ∀ c', ∀ g ∈ s.up c', ∀ b ∈ g.block, f.id ≤ g.id
  | _ => True

instance (s : Sys) : (a : Action) → Decidable (Quiesced s a)
  | .deliver c io => inferInstanceAs (Decidable (WritesSucceed s (.deliver c io) ∧
      ∀ f ∈ (s.up c).head?, f.body = .control .endIncremental →
        (∀ r ∈ io.fsyncs, r = true) ∧ ∀ c', ∀ g ∈ s.up c', ∀ b ∈ g.block, f.id ≤ g.id))
  | .sendBlock _ _ | .push _ _ | .giveUp | .flushOne _ | .sendControl _ _ | .recvAck _
  | .beginRound _ _ _ | .examine _ | .endRound => .isTrue trivial

def Answered (s : Sys) : Prop :=
  s.serverDone = true ∨ ∃ c, ∃ r ∈ s.down c, r.type = responseServerDone

structure Inv (s : Sys) : Prop where
  carries : Carries (fun _ => True) s
  transit : Transit s
  opened : ∀ id i pos bytes, (id, .wrote i pos bytes) ∈ s.log → (s.writer.disks i).opened = true
  bound : ∀ n, s.ctlEndSent = some n → n ≤ s.sent.length
  marker : ∀ c, ∀ f ∈ s.up c, f.body = .control .endIncremental → s.ctlEndSent = some f.id
  answer : Answered s → ∃ n, s.ctlEndSent = some n ∧ DurableBefore s n

theorem inv_init (w : Writer) : Inv (init w) where
  carries := carries_init w
  transit := by simp [Transit, init]
  opened := by simp [init]
  bound := by simp [init]
  marker := by simp [init]
  answer := by simp [Answered, init]

variable {cfg : Config} {s s' : Sys} {a : Action}

theorem Durable.append {log : List (Nat × DiskOp)} {id : Nat} {b : Block} (h : Durable log id b)
    (later : List (Nat × DiskOp)) : Durable (log ++ later) id b := by
  obtain ⟨i, before, after, disk, split, by_frame, synced⟩ := h
  refine ⟨i, before, after ++ later, disk, ?_, by_frame, List.mem_append_left _ synced⟩
  rw [split, List.append_assoc, List.cons_append]

theorem Landed.durable {log : List (Nat × DiskOp)} {id : Nat} {b : Block} (h : Landed log id b)
    {later : List (Nat × DiskOp)}
    (synced : ∀ i, diskOf b.devno = some i →
      (∃ pos bytes, (id, .wrote i pos bytes) ∈ log) → ∃ by_frame, (by_frame, .synced i true) ∈ later) :
    Durable (log ++ later) id b := by
  obtain ⟨i, disk, member⟩ := h
  obtain ⟨by_frame, sync⟩ := synced i disk ⟨_, _, member⟩
  obtain ⟨before, after, split⟩ := List.append_of_mem member
  refine ⟨i, before, after ++ later, disk, ?_, by_frame, List.mem_append_right _ sync⟩
  rw [split, List.append_assoc, List.cons_append]

theorem DurableBefore.sends {n : Nat} (h : DurableBefore s n) (bound : n ≤ s.sent.length) (c : Conn)
    (body : Body) : DurableBefore (sendFrame s c body) n := by
  intro f member earlier payload is_data
  rcases mem_sendFrame_sent.mp member with old | rfl
  · exact h f old earlier payload is_data
  · exact absurd bound (by simpa using earlier)

theorem DurableBefore.handles {n : Nat} (h : DurableBefore s n) (c : Conn) (id : Nat)
    (rest : List Frame) (d : Dispatched) : DurableBefore (handled s c id rest d) n := by
  intro f member earlier payload is_data
  obtain ⟨b, block, durable⟩ := h f member earlier payload is_data
  exact ⟨b, block, durable.append _⟩

theorem Inv.not_answered (h : Inv s) (first : s.ctlEndSent = none) : ¬ Answered s := by
  intro answered
  obtain ⟨n, marked, -⟩ := h.answer answered
  rw [first] at marked
  cases marked

theorem Inv.sends (h : Inv s) (c : Conn) {body : Body}
    (numbered : body = .control .endIncremental → s.ctlEndSent = some s.sent.length)
    (carries : Carries (fun _ => True) (sendFrame s c body)) : Inv (sendFrame s c body) where
  carries := carries
  transit := h.transit.sends c body
  opened := h.opened
  bound n marked := by
    have before := h.bound n marked
    simp only [sendFrame, List.length_append]
    omega
  marker c' f member is_marker := by
    rcases mem_sendFrame_up.mp member with old | ⟨-, rfl⟩
    · exact h.marker c' f old is_marker
    · exact numbered is_marker
  answer answered := by
    obtain ⟨n, marked, durable⟩ := h.answer answered
    exact ⟨n, marked, durable.sends (h.bound n marked) c body⟩

theorem Inv.marks (h : Inv s) (first : s.ctlEndSent = none) :
    Inv { s with ctlEndSent := some s.sent.length, serverDone := false } where
  carries := ⟨h.carries.slots, h.carries.frames, h.carries.under_way⟩
  transit := h.transit
  opened := h.opened
  bound n marked := le_of_eq (Option.some.inj marked).symm
  marker c f member is_marker := by
    have marked := h.marker c f member is_marker
    rw [first] at marked
    cases marked
  answer answered := by
    refine absurd (answered.elim (fun done => ?_) .inr) (h.not_answered first)
    cases done

theorem Inv.keeps (h : Inv s) {t : Sys} (carries : Carries (fun _ => True) t)
    (up : t.up = s.up) (sent : t.sent = s.sent) (log : t.log = s.log) (writer : t.writer = s.writer)
    (marked : t.ctlEndSent = s.ctlEndSent) (answered : Answered t → Answered s) : Inv t where
  carries := carries
  transit := by
    unfold Transit
    rw [up, sent, log]
    exact h.transit
  opened := by
    rw [log, writer]
    exact h.opened
  bound := by
    rw [marked, sent]
    exact h.bound
  marker := by
    rw [up, marked]
    exact h.marker
  answer ans := by
    obtain ⟨n, numbered, durable⟩ := h.answer (answered ans)
    refine ⟨n, marked.trans numbered, ?_⟩
    unfold DurableBefore
    rw [sent, log]
    exact durable

theorem answered_of_read {c : Conn} {r : ServerResponse} {rest : List ServerResponse}
    (head : s.down c = r :: rest)
    (answered : ∃ c', ∃ r' ∈ Function.update s.down c rest c', r'.type = responseServerDone) :
    Answered s := by
  obtain ⟨c', r', member, done⟩ := answered
  exact .inr ⟨c', r', mem_of_taken head member, done⟩

theorem dispatch_done {w : Writer} {io : DiskIo} {m : Msg} {r : ServerResponse}
    (member : r ∈ (dispatch w io m).responses) (done : r.type = responseServerDone) :
    m = .control .endIncremental := by
  cases m with
  | block b =>
    simp only [dispatch, dispatchBlock] at member
    split at member
    · rcases List.mem_cons.mp member with rfl | alert
      · exact absurd done (by simp [ackSendBlock, responseAck, responseServerDone])
      · split at alert
        · rw [List.mem_singleton.mp alert] at done
          exact absurd done (by simp [ackSendBinlog, responseBinlog, responseServerDone])
        · cases alert
    · cases member
  | control c =>
    cases c with
    | incremental => cases member
    | endIncremental => rfl

theorem dispatch_wrote_opened {w : Writer} {io : DiskIo} {m : Msg} {i : Fin maxTargetDisks}
    {pos : Nat} {bytes : List UInt8} (member : .wrote i pos bytes ∈ (dispatch w io m).ops) :
    (w.disks i).opened = true := by
  cases m with
  | block b =>
    simp only [dispatch, dispatchBlock] at member
    split at member
    · exact (blockWriterWrite_wrote member).2.2
    · exact (blockWriterWrite_wrote member).2.2
  | control c =>
    cases c with
    | incremental => cases member
    | endIncremental => exact (wrote_not_mem_fsyncFrom member).elim

/-- Handling the marker with nothing earlier under way makes everything sent
before it durable. -/
theorem Inv.marker_handled (h : Inv s) {c : Conn} {f : Frame} {rest : List Frame} {io : DiskIo}
    (good : ∀ r ∈ io.fsyncs, r = true)
    (none_earlier : ∀ c', ∀ g ∈ s.up c', ∀ b ∈ g.block, f.id ≤ g.id) :
    DurableBefore (handled s c f.id rest (dispatch s.writer io (.control .endIncremental))) f.id := by
  intro g member earlier payload is_data
  obtain ⟨b, -, rfl⟩ := h.carries.frames g member payload is_data
  have block : g.block = some b.1 := Frame.block_eq_some.mpr (is_data ▸ b.msg)
  refine ⟨b.1, block, ?_⟩
  rcases h.transit g member b.1 block with ⟨c', up⟩ | landed
  · have later := none_earlier c' g up b.1 block
    omega
  · refine Landed.durable landed fun i disk ⟨pos, bytes, wrote⟩ => ?_
    have opened := h.opened _ _ _ _ wrote
    exact ⟨f.id, List.mem_map_of_mem (synced_mem_fsyncAll good opened)⟩

theorem Inv.delivers (h : Inv s) {c : Conn} {f : Frame} {rest : List Frame} {io : DiskIo} {m : Msg}
    (head : s.up c = f :: rest) (good : f.body.msg = .ok m)
    (quiesced : Quiesced s (.deliver c io))
    (carries : Carries (fun _ => True) (handled s c f.id rest (dispatch s.writer io m))) :
    Inv (handled s c f.id rest (dispatch s.writer io m)) := by
  have here : f ∈ (s.up c).head? := by
    rw [head, List.head?_cons]
    rfl
  refine ⟨carries, h.transit.delivers head good (quiesced.1 f here), ?_, h.bound, ?_, ?_⟩
  · intro id i pos bytes member
    show ((dispatch s.writer io m).writer.disks i).opened = true
    rw [dispatch_opened]
    rcases List.mem_append.mp member with old | new
    · exact h.opened id i pos bytes old
    · obtain ⟨op, in_ops, same⟩ := List.mem_map.mp new
      cases same
      exact dispatch_wrote_opened in_ops
  · exact fun c' g member is_marker => h.marker c' g (mem_of_taken head member) is_marker
  · intro answered
    by_cases before : Answered s
    · obtain ⟨n, marked, durable⟩ := h.answer before
      exact ⟨n, marked, durable.handles c f.id rest _⟩
    · -- the answer is new, so this frame is the marker
      obtain ⟨c', r, member, done⟩ := answered.resolve_left fun done => before (.inl done)
      rcases mem_handled_down.mp member with old | ⟨-, new⟩
      · exact absurd (.inr ⟨c', r, old, done⟩) before
      · obtain rfl := dispatch_done new done
        have is_marker : f.body = .control .endIncremental := by
          cases body : f.body with
          | data payload =>
            rw [body, Body.msg] at good
            cases decoded : msgpackDecodeBlock payload <;> simp [decoded, Except.map] at good
          | control ctl =>
            rw [body, Body.msg] at good
            cases good
            rfl
        obtain ⟨all_good, none_earlier⟩ := quiesced.2 f here is_marker
        exact ⟨f.id, h.marker c f (head ▸ List.mem_cons_self) is_marker,
          h.marker_handled all_good none_earlier⟩

theorem step_inv (h : Inv s) (quiesced : Quiesced s a) (hs : Migration.step cfg s a = some s') :
    Inv s' := by
  have st := Migration.step_inv hs
  have carries := step_carries h.carries (fun _ _ _ => trivial) st
  cases st with
  | flushed pop bytes =>
    have popped : Inv _ := h.keeps (h.carries.popped pop) rfl rfl rfl rfl rfl id
    exact popped.sends _ (by simp) carries
  | announced => exact h.sends _ (by simp) carries
  | ended first => exact (h.marks first).sends _ (fun _ => rfl) carries
  | endedUnsent first => exact h.marks first
  | acked head ack =>
    exact h.keeps carries rfl rfl rfl rfl rfl
      (Or.elim · .inl (answered_of_read head))
  | finished head done =>
    exact h.keeps carries rfl rfl rfl rfl rfl fun _ =>
      .inr ⟨_, _, head ▸ List.mem_cons_self, done⟩
  | ignored head =>
    exact h.keeps carries rfl rfl rfl rfl rfl (Or.elim · .inl (answered_of_read head))
  | lost head bad => exact (h.carries.never_lost head bad).elim
  | delivered head good => exact h.delivers head good quiesced carries
  | _ => exact h.keeps carries rfl rfl rfl rfl rfl id

/-- In a run whose steps are all quiesced, SERVER_DONE covers every block frame
sent before the end marker. -/
theorem serverDone_covers_sent (cfg : Config) (w : Writer) (actions : List Action) (s : Sys)
    (hr : run (Migration.step cfg) (init w) actions = some s)
    (quiesced : Meets (Migration.step cfg) Quiesced (init w) actions) :
    ∀ n, s.ctlEndSent = some n → s.serverDone = true → DurableBefore s n := by
  have inv : Inv s := run_invariant_of_meets (fun _ _ _ h cond hs => step_inv h cond hs) hr quiesced
    (inv_init w)
  intro n marked done
  obtain ⟨m, numbered, durable⟩ := inv.answer (.inl done)
  obtain rfl : n = m := Option.some.inj (marked.symm.trans numbered)
  exact durable

def firstBlock : ReadBlock := ⟨⟨0, 0, [1, 2, 3]⟩, by decide⟩
def secondBlock : ReadBlock := ⟨⟨1, 512, [4, 5]⟩, by decide⟩

def quiescedActions : List Action :=
  -- blocks on two connections; both are handled before the marker on a third
  [.sendBlock firstBlock 0, .push true 0, .flushOne (.sentOn 0),
    .sendBlock secondBlock 0, .push true 0, .flushOne (.sentOn 1),
    .sendControl .endIncremental (.sentOn 2),
    .deliver 1 ⟨true, [.wrote 1], []⟩, .deliver 0 ⟨true, [], []⟩, .deliver 2 ⟨true, [], [true]⟩,
    .recvAck 2]

theorem serverDone_covers_sent_quiesced :
    ∃ s, run (Migration.step ⟨true, "10.0.0.1:3400"⟩) (init blankWriter) quiescedActions = some s ∧
      (s.ctlEndSent = some 2 ∧ s.serverDone = true) ∧
      ∀ n, s.ctlEndSent = some n → s.serverDone = true → DurableBefore s n :=
  ⟨_, rfl, by decide +kernel,
    serverDone_covers_sent ⟨true, "10.0.0.1:3400"⟩ blankWriter quiescedActions _ rfl
      (by decide +kernel)⟩

/-- The marker overtakes a block that was sent earlier on another connection. -/
def overtakenActions : List Action :=
  [.sendBlock firstBlock 0, .push true 0, .flushOne (.sentOn 0),
    .sendControl .endIncremental (.sentOn 1), .deliver 1 ⟨true, [], []⟩, .recvAck 1]

theorem serverDone_overtakes_block :
    ∃ s, run (Migration.step ⟨true, "10.0.0.1:3400"⟩) (init blankWriter) overtakenActions = some s ∧
      s.ctlEndSent = some 1 ∧ s.serverDone = true ∧ ¬ DurableBefore s 1 := by
  refine ⟨_, rfl, rfl, rfl, fun durable => ?_⟩
  obtain ⟨b, -, i, before, after, -, split, -⟩ :=
    durable ⟨0, .data (blockBytes firstBlock.1)⟩ List.mem_cons_self (by decide) _ rfl
  -- the receiver has synced its disks but written nothing
  have only_synced : ∀ e ∈ before ++ (0, .wrote i b.offset.toInt.toNat b.data) :: after,
      ∃ j ok, e.2 = DiskOp.synced j ok := by
    rw [← split]
    decide +kernel
  obtain ⟨j, ok, same⟩ := only_synced _ (List.mem_append_right _ List.mem_cons_self)
  cases same

end Go2Cloud.Barrier
