import Go2Cloud.Migration.InFlight

/-! TailSend mode: what the rounds' verification of a row says about the target.
A row's hash is recorded when its block is queued, and a round compares it with
the live disk only, so the verification speaks for the target as long as every
queued block gets there first. -/
namespace Go2Cloud.TailSend
open Protocol Queue Reader Tracker Round Decoder BlockWriter Receiver Migration Transition
open Msgpack (blockBytes)

def Sent (s : Sys) (k : Key) (hash : UInt64) : Prop :=
  ∃ f ∈ s.sent, ∃ b, f.block = some b ∧ b.key = k ∧ blockHash b.offset b.data = hash

def Wrote (s : Sys) (k : Key) (hash : UInt64) : Prop :=
  ∃ f ∈ s.sent, ∃ b, f.block = some b ∧ b.key = k ∧ blockHash b.offset b.data = hash ∧
    Landed s.log f.id b

instance (log : List (Nat × DiskOp)) (id : Nat) (b : Block) : Decidable (Landed log id b) :=
  decidable_of_iff (∃ i ∈ diskOf b.devno, (id, .wrote i b.offset.toInt.toNat b.data) ∈ log) Iff.rfl

instance (s : Sys) (k : Key) (hash : UInt64) : Decidable (Wrote s k hash) :=
  decidable_of_iff (∃ f ∈ s.sent, ∃ b ∈ f.block, b.key = k ∧ blockHash b.offset b.data = hash ∧
    Landed s.log f.id b) Iff.rfl

def Queued (s : Sys) (k : Key) (hash : UInt64) : Prop :=
  ∃ e ∈ waiting s.queue, e.key = k ∧ e.hash = hash

def Quiet (s : Sys) (k : Key) : Prop :=
  (∀ e ∈ waiting s.queue, e.key ≠ k) ∧ ∀ c, ∀ f ∈ s.up c, ∀ b ∈ f.block, b.key ≠ k

instance (s : Sys) (k : Key) : Decidable (Quiet s k) := inferInstanceAs (Decidable (_ ∧ _))

def nextRow : Pc → Option Row
  | .round p => p.batch.head?
  | _ => none

/-- Every popped entry is sent, every delivered block is written, and a row whose
live content still has the recorded hash is examined only when nothing for it is
queued or under way. -/
def Settled (s : Sys) : Action → Prop
  | .flushOne outcome => outcome ≠ .noConnection ∧ outcome ≠ .sendFailed
  | .examine live =>
    ∀ row ∈ nextRow s.pc, ∀ data ∈ live, blockHash row.offset data.1 = row.hash → Quiet s row.key
  | a => WritesSucceed s a

instance (s : Sys) : (a : Action) → Decidable (Settled s a)
  | .flushOne outcome =>
    inferInstanceAs (Decidable (outcome ≠ .noConnection ∧ outcome ≠ .sendFailed))
  | .examine live =>
    inferInstanceAs (Decidable (∀ row ∈ nextRow s.pc, ∀ data ∈ live,
      blockHash row.offset data.1 = row.hash → Quiet s row.key))
  | .deliver c io => inferInstanceAs (Decidable (WritesSucceed s (.deliver c io)))
  | .sendBlock _ _ | .push _ _ | .giveUp | .sendControl _ _ | .recvAck _
  | .beginRound _ _ _ | .endRound => .isTrue trivial

theorem Settled.writes {s : Sys} {a : Action} (h : Settled s a) : WritesSucceed s a := by
  cases a with
  | flushOne outcome => trivial
  | examine live => trivial
  | _ => exact h

/-- Each row's block is still queued or was sent, and has landed if verified. -/
structure Inv (s : Sys) : Prop where
  carries : Carries (fun _ => True) s
  transit : Transit s
  recorded : s.pc ≠ .crashed → ∀ row ∈ s.db.rows,
    Queued s row.key row.hash ∨ Sent s row.key row.hash
  verified : ∀ row ∈ s.db.rows, row.ack = true → Wrote s row.key row.hash

theorem inv_init (w : Writer) : Inv (init w) where
  carries := carries_init w
  transit := by simp [Transit, init]
  recorded := by simp [init, Keyed.empty]
  verified := by simp [init, Keyed.empty]

variable {cfg : Config} {s s' : Sys} {a : Action} {k : Key} {hash : UInt64}

theorem Sent.mono (h : Sent s k hash) (st : Step cfg s a s') : Sent s' k hash := by
  obtain ⟨f, member, rest⟩ := h
  exact ⟨f, st.sent_subset member, rest⟩

theorem Wrote.mono (h : Wrote s k hash) (st : Step cfg s a s') : Wrote s' k hash := by
  obtain ⟨f, member, b, block, key, content, landed⟩ := h
  exact ⟨f, st.sent_subset member, b, block, key, content, landed.mono st.log_subset⟩

theorem Inv.queued_step (h : Inv s) (settled : Settled s a) (st : Step cfg s a s')
    (alive : s'.pc ≠ .crashed) (queued : Queued s k hash) :
    Queued s' k hash ∨ Sent s' k hash := by
  obtain ⟨e, member, key, content⟩ := queued
  cases st with
  | deferred push room =>
    exact .inl ⟨e, by rw [waiting_fillHead]; exact List.mem_append_left _ member, key, content⟩
  | recorded push room =>
    exact .inl ⟨e, by rw [waiting_fillHead]; exact List.mem_append_left _ member, key, content⟩
  | @dropped outcome _ _ pop unsent =>
    cases outcome with
    | noConnection => exact absurd rfl settled.1
    | sendFailed => exact absurd rfl settled.2
    | sentOn c => exact absurd rfl (unsent c)
  | crashed pop => exact absurd rfl alive
  | flushed pop bytes =>
    rw [waiting_queuePop pop] at member
    rcases List.mem_cons.mp member with rfl | later
    · obtain ⟨b, block, bkey, bhash⟩ := h.carries.tail_block pop bytes s.sent.length
      exact .inr ⟨_, mem_sendFrame_sent.mpr (.inr rfl), b, block, bkey.trans key,
        bhash.trans content⟩
    · exact .inl ⟨e, later, key, content⟩
  | acked head ack =>
    obtain ⟨e', member', key', content'⟩ := mem_waiting_queueAck member _ _
    exact .inl ⟨e', member', key'.trans key, content'.trans content⟩
  | _ => exact .inl ⟨e, member, key, content⟩

theorem mem_recordPushed {db : BlockTable} {b : Block} {now : Int} {pusher : Pusher} {row : Row}
    (h : row ∈ (recordPushed cfg db b now pusher).rows) :
    (row.key = b.key ∧ row.hash = blockHash b.offset b.data ∧ row.ack = false) ∨ row ∈ db.rows := by
  cases pusher with
  | sendBlock version =>
    rcases mem_upsert h with rfl | ⟨old, -⟩
    · exact .inl ⟨rfl, rfl, rfl⟩
    · exact .inr old
  | round p =>
    rcases mem_recordResent h with rfl | ⟨old, -⟩
    · exact .inl ⟨rfl, rfl, rfl⟩
    · exact .inr old

/-- Where the rows after a step come from: kept with their hash, recorded by a
push, or verified by a round that examined an unchanged block. -/
theorem row_origin (tail : cfg.tailSend = true) (st : Step cfg s a s') {row : Row}
    (member : row ∈ s'.db.rows) :
    (∃ old ∈ s.db.rows, Row.Same old row ∧ row.ack = old.ack) ∨
      (row.ack = false ∧ Queued s' row.key row.hash) ∨
      ∃ live p r rest, a = .examine live ∧ s.pc = .round p ∧ p.batch = r :: rest ∧
        examineRow p.now s.queue.count r live = .unchanged ∧
        ∃ old ∈ s.db.rows, Row.Marked r.key p.version old row := by
  cases st with
  | recorded push room =>
    rcases mem_recordPushed member with ⟨key, hash, ack⟩ | old
    · refine .inr (.inl ⟨ack, entryOf _, ?_, key.symm, hash.symm⟩)
      rw [waiting_fillHead]
      exact List.mem_append_right _ List.mem_cons_self
    · exact .inl ⟨row, old, ⟨rfl, rfl, rfl, rfl⟩, rfl⟩
  | acked head ack =>
    simp only [tail] at member
    exact .inl ⟨row, member, ⟨rfl, rfl, rfl, rfl⟩, rfl⟩
  | stable round batch decision =>
    exact .inr (.inr ⟨_, _, _, _, rfl, round, batch, decision, mem_markStable member⟩)
  | changed round batch decision =>
    obtain ⟨old, member, same, ack, -⟩ := mem_updateLastSent member
    exact .inl ⟨old, member, same, ack⟩
  | _ => exact .inl ⟨row, member, ⟨rfl, rfl, rfl, rfl⟩, rfl⟩

theorem Inv.recorded_step (h : Inv s) (tail : cfg.tailSend = true) (settled : Settled s a)
    (st : Step cfg s a s') (alive : s'.pc ≠ .crashed) {row : Row} (member : row ∈ s'.db.rows) :
    Queued s' row.key row.hash ∨ Sent s' row.key row.hash := by
  have kept : ∀ old ∈ s.db.rows, Row.Same old row →
      Queued s' row.key row.hash ∨ Sent s' row.key row.hash := by
    intro old old_member same
    rw [same.key, same.hash]
    rcases h.recorded (st.alive_before alive) old old_member with queued | sent
    · exact h.queued_step settled st alive queued
    · exact .inr (sent.mono st)
  rcases row_origin tail st member with ⟨old, old_member, same, -⟩ | ⟨-, queued⟩ |
    ⟨live, p, r, rest, -, -, -, -, old, old_member, marked⟩
  · exact kept old old_member same
  · exact .inl queued
  · exact kept old old_member marked.toSame

theorem Inv.wrote_of_quiet (h : Inv s) (alive : s.pc ≠ .crashed) {row : Row}
    (member : row ∈ s.db.rows) (quiet : Quiet s row.key) : Wrote s row.key row.hash := by
  rcases h.recorded alive row member with ⟨e, waits, key, -⟩ | ⟨f, sent, b, block, key, content⟩
  · exact absurd key (quiet.1 e waits)
  · rcases h.transit f sent b block with ⟨c, up⟩ | landed
    · exact absurd key (quiet.2 c f up b block)
    · exact ⟨f, sent, b, block, key, content, landed⟩

theorem Inv.verified_step (h : Inv s) (tail : cfg.tailSend = true) (settled : Settled s a)
    (st : Step cfg s a s') {row : Row} (member : row ∈ s'.db.rows) (ack : row.ack = true) :
    Wrote s' row.key row.hash := by
  rcases row_origin tail st member with ⟨old, old_member, same, same_ack⟩ | ⟨unacked, -⟩ |
    ⟨live, p, r, rest, rfl, round, batch, decision, old, old_member, marked⟩
  · rw [same.key, same.hash]
    exact (h.verified old old_member (same_ack ▸ ack)).mono st
  · rw [unacked] at ack
    cases ack
  · rw [marked.key, marked.hash]
    rcases marked.mark with ⟨same_ack, -⟩ | ⟨examined, -⟩
    · exact (h.verified old old_member (same_ack ▸ ack)).mono st
    · obtain ⟨data, rfl, -, same⟩ := examineRow_unchanged decision
      have next : r ∈ nextRow s.pc := by
        rw [round, nextRow, batch]
        rfl
      have quiet := settled r next data rfl same
      rw [← examined] at quiet
      exact (h.wrote_of_quiet (by simp [round]) old_member quiet).mono st

theorem step_inv (h : Inv s) (tail : cfg.tailSend = true) (settled : Settled s a)
    (hs : Migration.step cfg s a = some s') : Inv s' := by
  have st := Migration.step_inv hs
  exact
    { carries := step_carries h.carries (fun _ _ _ => trivial) st
      transit := step_transit h.transit h.carries settled.writes st
      recorded := fun alive _ member => h.recorded_step tail settled st alive member
      verified := fun _ member ack => h.verified_step tail settled st member ack }

/-- In a run whose steps are all settled, a verified row's content has been
written by the receiver. -/
theorem verified_row_written (w : Writer) (remoteId : String) (actions : List Action) (s : Sys)
    (hr : run (Migration.step ⟨true, remoteId⟩) (init w) actions = some s)
    (settled : Meets (Migration.step ⟨true, remoteId⟩) Settled (init w) actions) :
    ∀ row ∈ s.db.rows, row.ack = true → Wrote s row.key row.hash :=
  (run_invariant_of_meets (fun _ _ _ h cond hs => step_inv h rfl cond hs) hr settled
    (inv_init w)).verified

def tailBlock : ReadBlock := ⟨⟨0, 0x100000, [1, 2, 3]⟩, by decide⟩

def tailRow : Row :=
  ⟨0, 0x100000, 3, blockHash 0x100000 [1, 2, 3], false, 0, 0, "10.0.0.1:3400"⟩

def settledActions : List Action :=
  -- the block is sent, written and acknowledged before a round verifies it
  [.sendBlock tailBlock 0, .push true 1000, .flushOne (.sentOn 0), .deliver 0 ⟨true, [], []⟩,
    .recvAck 0, .beginRound [tailRow] 20000 1, .examine (some ⟨[1, 2, 3], by decide⟩), .endRound]

theorem verified_row_written_settled :
    ∃ s, run (Migration.step ⟨true, "10.0.0.1:3400"⟩) (init blankWriter) settledActions = some s ∧
      (∃ row ∈ s.db.rows, row.ack = true) ∧
      ∀ row ∈ s.db.rows, row.ack = true → Wrote s row.key row.hash :=
  ⟨_, rfl, by decide +kernel,
    verified_row_written blankWriter "10.0.0.1:3400" settledActions _ rfl (by decide +kernel)⟩

def droppedActions : List Action :=
  -- no connection when the block is flushed: it is dropped, and a round finds the live disk
  -- unchanged
  [.sendBlock tailBlock 0, .push true 1000, .flushOne .noConnection,
    .beginRound [tailRow] 20000 1, .examine (some ⟨[1, 2, 3], by decide⟩), .endRound]

theorem dropped_row_verified :
    ∃ s, run (Migration.step ⟨true, "10.0.0.1:3400"⟩) (init blankWriter) droppedActions = some s ∧
      ∃ row ∈ s.db.rows, row.ack = true ∧ ¬ Wrote s row.key row.hash := by
  refine ⟨_, rfl, { tailRow with ack := true, lastSent := 20000, version := 1 }, ?_, rfl, ?_⟩
  · decide +kernel
  · rintro ⟨f, sent, -⟩
    cases sent

end Go2Cloud.TailSend
