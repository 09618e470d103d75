import Go2Cloud.Client.FullSync
import Go2Cloud.Lib.Channels
import Go2Cloud.Migration.InFlight

/-! do_migrate without TailSend (client/main.c), from the main transfer loop to its
return: the blocks of the transfer loop and the GPT step, the drain loop, the end
marker and the fixed wait after it. Calls inside the loops are cut into the actions
of the client, and pool_recv_ack finds every response whole. -/
namespace Go2Cloud.FullRun
open Protocol Queue Reader Tracker Round Decoder BlockWriter Receiver Migration Transition
open FullSync (Layout fullSyncRanges)

def drainLimit : Nat := 300
def finishWaits : Nat := 300

def enumerated (l : Layout) (opens : Fin maxTargetDisks → Bool) : List Key :=
  (fullSyncRanges l opens).map fun r => (Int32.ofInt r.devno.val, Int64.ofInt r.start)

inductive Phase where
  | transfer (todo : List Key)
  | drain (attempts : Nat)
  | finish (waits : Nat)
  | returned (rc : Int)
  deriving DecidableEq, Repr

structure Job where
  sys : Sys
  phase : Phase
  visited : List Key

def start (db : BlockTable) (w : Writer) (plan : List Key) : Job := ⟨resumed db w, .transfer plan, []⟩

inductive Event where
  | visit (read : Option ReadData)
  | retransmit (k : Key) (read : Option ReadData)
  | perform (a : Migration.Action)
  | hangUp (c : Conn)
  | exception
  | transferred
  | drainTurn
  | endTransfer (outcome : FlushOutcome)
  | wait
  | finished

/-- What happens inside the calls of each phase; the receiver acts at any time. -/
def Phase.allows : Phase → Migration.Action → Bool
  | .transfer _, .push _ _ => true
  | .transfer _, .giveUp => true
  | .transfer _, .flushOne _ => true
  | .drain _, .flushOne _ => true
  | .returned _, _ => false
  | _, .recvAck _ => true
  | _, .deliver _ _ => true
  | _, _ => false

def readAs (k : Key) (data : ReadData) : ReadBlock := ⟨⟨k.1, k.2, data.1⟩, readData_fits data⟩

def sendRead (cfg : Config) (s : Sys) (k : Key) (version : Int) : Option ReadData → Option Sys
  -- send_block, whose failed read only makes it return -1
  | some data => Migration.step cfg s (.sendBlock (readAs k data) version)
  | none =>
    match s.pc with
    | .idle => some s
    | _ => none

theorem sendRead_none {cfg : Config} {s s' : Sys} {k : Key} {version : Int}
    (hs : sendRead cfg s k version none = some s') : s' = s := by
  simp only [sendRead] at hs
  split at hs
  · exact (Option.some.inj hs).symm
  · cases hs

def hangUp (s : Sys) (c : Conn) : Sys :=
  -- a connection is closed with everything under way on it
  { s with up := Function.update s.up c [], down := Function.update s.down c [] }

theorem mem_hangUp_up {s : Sys} {c c' : Conn} {f : Frame} :
    f ∈ (hangUp s c).up c' ↔ c' ≠ c ∧ f ∈ s.up c' :=
  Channels.mem_cleared

theorem mem_hangUp_down {s : Sys} {c c' : Conn} {r : ServerResponse} :
    r ∈ (hangUp s c).down c' ↔ c' ≠ c ∧ r ∈ s.down c' :=
  Channels.mem_cleared

/-- An exception in the transfer loop is the one way to -1 from here on. -/
def step (cfg : Config) (job : Job) : Event → Option Job
  | .visit read =>
    match job.phase with
    | .transfer (k :: todo) =>
      (sendRead cfg job.sys k 0 read).map fun s => ⟨s, .transfer todo, job.visited ++ [k]⟩
    | _ => none
  | .retransmit k read =>
    match job.phase with
    | .transfer _ => (sendRead cfg job.sys k 0 read).map fun s => { job with sys := s }
    | _ => none
  | .perform a =>
    if job.phase.allows a then (Migration.step cfg job.sys a).map fun s => { job with sys := s }
    else none
  | .hangUp c => some { job with sys := hangUp job.sys c }
  | .exception =>
    match job.phase with
    | .transfer _ => some { job with phase := .returned (-1) }
    | _ => none
  | .transferred =>
    match job.phase, job.sys.pc with
    | .transfer [], .idle => some { job with phase := .drain 0 }
    | _, _ => none
  | .drainTurn =>
    match job.phase with
    | .drain n =>
      if 0 < job.sys.queue.count ∧ n < drainLimit then some { job with phase := .drain (n + 1) }
      else none
    | _ => none
  | .endTransfer outcome =>
    match job.phase with
    | .drain n =>
      if 0 < job.sys.queue.count ∧ n < drainLimit then none
      else
        (Migration.step cfg job.sys (.sendControl .endIncremental outcome)).map fun s =>
          { job with
            sys := s
            phase := if outcome = .noConnection then .returned 0 else .finish 0 }
    | _ => none
  | .wait =>
    match job.phase with
    | .finish n => if n < finishWaits then some { job with phase := .finish (n + 1) } else none
    | _ => none
  | .finished =>
    match job.phase with
    | .finish n => if n < finishWaits then none else some { job with phase := .returned 0 }
    | _ => none

inductive Turn (cfg : Config) (job : Job) : Event → Job → Prop
  | unread {k : Key} {todo : List Key} (phase : job.phase = .transfer (k :: todo)) :
    Turn cfg job (.visit none) { job with phase := .transfer todo, visited := job.visited ++ [k] }
  | visited {k : Key} {todo : List Key} {data : ReadData} {s : Sys}
    (phase : job.phase = .transfer (k :: todo))
    (hs : Migration.step cfg job.sys (.sendBlock (readAs k data) 0) = some s) :
    Turn cfg job (.visit (some data)) ⟨s, .transfer todo, job.visited ++ [k]⟩
  | passed {k : Key} : Turn cfg job (.retransmit k none) job
  | resent {k : Key} {data : ReadData} {todo : List Key} {s : Sys} (phase : job.phase = .transfer todo)
    (hs : Migration.step cfg job.sys (.sendBlock (readAs k data) 0) = some s) :
    Turn cfg job (.retransmit k (some data)) { job with sys := s }
  | performed {a : Migration.Action} {s : Sys} (allowed : job.phase.allows a = true)
    (hs : Migration.step cfg job.sys a = some s) : Turn cfg job (.perform a) { job with sys := s }
  | hungUp {c : Conn} : Turn cfg job (.hangUp c) { job with sys := hangUp job.sys c }
  | thrown : Turn cfg job .exception { job with phase := .returned (-1) }
  | transferred (phase : job.phase = .transfer []) : Turn cfg job .transferred { job with phase := .drain 0 }
  | drained {n : Nat} (phase : job.phase = .drain n) :
    Turn cfg job .drainTurn { job with phase := .drain (n + 1) }
  | ended {n : Nat} {outcome : FlushOutcome} {s : Sys} (phase : job.phase = .drain n)
    (hs : Migration.step cfg job.sys (.sendControl .endIncremental outcome) = some s) :
    Turn cfg job (.endTransfer outcome)
      { job with sys := s, phase := if outcome = .noConnection then .returned 0 else .finish 0 }
  | waited {n : Nat} (phase : job.phase = .finish n) :
    Turn cfg job .wait { job with phase := .finish (n + 1) }
  | finished {n : Nat} (phase : job.phase = .finish n) :
    Turn cfg job .finished { job with phase := .returned 0 }

section Inversion
variable {cfg : Config} {job job' : Job}

theorem step_inv {e : Event} (h : step cfg job e = some job') : Turn cfg job e job' := by
  cases e with
  | visit read =>
    simp only [step] at h
    split at h
    next k todo phase =>
      obtain ⟨s, hs, rfl⟩ := Option.map_eq_some_iff.mp h
      cases read with
      | some data => exact .visited phase hs
      | none =>
        rw [sendRead_none hs]
        exact .unread phase
    · cases h
  | retransmit k read =>
    simp only [step] at h
    split at h
    next todo phase =>
      obtain ⟨s, hs, rfl⟩ := Option.map_eq_some_iff.mp h
      cases read with
      | some data => exact .resent phase hs
      | none =>
        rw [sendRead_none hs]
        exact .passed
    · cases h
  | perform a =>
    simp only [step] at h
    split at h
    next allowed =>
      obtain ⟨s, hs, rfl⟩ := Option.map_eq_some_iff.mp h
      exact .performed allowed hs
    · cases h
  | hangUp c =>
    cases h
    exact .hungUp
  | exception =>
    simp only [step] at h
    split at h
    · cases h
      exact .thrown
    · cases h
  | transferred =>
    simp only [step] at h
    split at h
    next phase _ =>
      cases h
      exact .transferred phase
    · cases h
  | drainTurn =>
    simp only [step] at h
    split at h
    next n phase =>
      split at h
      · cases h
        exact .drained phase
      · cases h
    · cases h
  | endTransfer outcome =>
    simp only [step] at h
    split at h
    next n phase =>
      split at h
      · cases h
      · obtain ⟨s, hs, rfl⟩ := Option.map_eq_some_iff.mp h
        exact .ended phase hs
    · cases h
  | wait =>
    simp only [step] at h
    split at h
    next n phase =>
      split at h
      · cases h
        exact .waited phase
      · cases h
    · cases h
  | finished =>
    simp only [step] at h
    split at h
    next n phase =>
      split at h
      · cases h
      · cases h
        exact .finished phase
    · cases h

end Inversion

def Answered (s : Sys) : Prop :=
  (∀ c, ∀ f ∈ s.up c, f.block = none) ∧ ∀ c, ∀ r ∈ s.down c, ¬ IsAck r

instance (s : Sys) : Decidable (Answered s) := inferInstanceAs (Decidable (_ ∧ _))

def Lossless (s : Sys) : Migration.Action → Prop
  | .flushOne outcome => outcome ≠ .noConnection ∧ outcome ≠ .sendFailed
  | .giveUp => False
  | a => WritesSucceed s a

instance (s : Sys) : (a : Migration.Action) → Decidable (Lossless s a)
  | .flushOne outcome =>
    inferInstanceAs (Decidable (outcome ≠ .noConnection ∧ outcome ≠ .sendFailed))
  | .giveUp => .isFalse id
  | .deliver c io => inferInstanceAs (Decidable (WritesSucceed s (.deliver c io)))
  | .sendBlock _ _ | .push _ _ | .sendControl _ _ | .recvAck _ | .beginRound _ _ _ | .examine _
  | .endRound => .isTrue trivial

/-- Every enumerated block is read, nothing is lost on the way, the drain loop ends
with an empty queue, and no ACK is missing when do_migrate returns. -/
def Smooth (job : Job) : Event → Prop
  | .visit read => ∃ data ∈ read, data.1 ≠ []
  | .perform a => Lossless job.sys a
  | .hangUp c => (∀ f ∈ job.sys.up c, f.block = none) ∧ ∀ r ∈ job.sys.down c, ¬ IsAck r
  | .endTransfer outcome =>
    job.sys.queue.count = 0 ∧ (outcome = .noConnection → Answered job.sys)
  | .finished => Answered job.sys
  | _ => True

instance (job : Job) : (e : Event) → Decidable (Smooth job e)
  | .visit (some data) => decidable_of_iff (data.1 ≠ []) (by simp [Smooth])
  | .visit none => .isFalse (by simp [Smooth])
  | .perform a => inferInstanceAs (Decidable (Lossless job.sys a))
  | .hangUp c => inferInstanceAs (Decidable ((∀ f ∈ job.sys.up c, f.block = none) ∧
      ∀ r ∈ job.sys.down c, ¬ IsAck r))
  | .endTransfer outcome => inferInstanceAs (Decidable (job.sys.queue.count = 0 ∧
      (outcome = .noConnection → Answered job.sys)))
  | .finished => inferInstanceAs (Decidable (Answered job.sys))
  | .retransmit _ _ | .exception | .transferred | .drainTurn | .wait => .isTrue trivial

def Outstanding (s : Sys) (k : Key) : Prop :=
  (∃ e ∈ waiting s.queue, e.key = k) ∨ (∃ c, ∃ f ∈ s.up c, ∃ b ∈ f.block, b.key = k) ∨
    ∃ c, ∃ r ∈ s.down c, IsAck r ∧ (r.devno, r.offset) = k

def Recorded (s : Sys) (k : Key) : Prop :=
  ∃ row ∈ s.db.rows, row.key = k ∧ (row.ack = true ∨ Outstanding s k)

def Taken (s : Sys) (k : Key) : Prop :=
  (∃ b pusher, s.pc = .pushing b pusher ∧ b.1.key = k) ∨ Recorded s k

variable {cfg : Config} {s s' : Sys} {a : Migration.Action} {k : Key}

theorem not_outstanding (drained : waiting s.queue = []) (answered : Answered s) :
    ¬ Outstanding s k := by
  rintro (⟨e, member, -⟩ | ⟨c, f, member, b, block, -⟩ | ⟨c, r, member, ack, -⟩)
  · simp [drained] at member
  · simp [answered.1 c f member] at block
  · exact answered.2 c r member ack

theorem Recorded.imp (h : Recorded s k) (db : s'.db = s.db)
    (kept : Outstanding s k → Outstanding s' k) : Recorded s' k := by
  obtain ⟨row, member, key, state⟩ := h
  exact ⟨row, db ▸ member, key, state.imp id kept⟩

theorem Outstanding.sends (h : Outstanding s k) (c : Conn) (body : Body) :
    Outstanding (sendFrame s c body) k := by
  rcases h with queued | ⟨c', f, member, block⟩ | unread
  · exact .inl queued
  · exact .inr (.inl ⟨c', f, mem_sendFrame_up.mpr (.inl member), block⟩)
  · exact .inr (.inr unread)

theorem Outstanding.flushes (h : Outstanding s k) (carries : Carries (fun _ => True) s)
    {e : QueueEntry} {q : SendQueue} {payload : List UInt8} (c : Conn)
    (pop : queuePop s.queue = some (e, q)) (bytes : e.payload = some payload) :
    Outstanding (sendFrame { s with queue := q } c (.data payload)) k := by
  rcases h with ⟨e', member, key⟩ | ⟨c', f, member, block⟩ | unread
  · rw [waiting_queuePop pop] at member
    rcases List.mem_cons.mp member with rfl | later
    · obtain ⟨b, block, same, -⟩ := carries.tail_block pop bytes s.sent.length
      exact .inr (.inl ⟨c, _, mem_sendFrame_up.mpr (.inr ⟨rfl, rfl⟩), b, block, same.trans key⟩)
    · exact .inl ⟨e', later, key⟩
  · exact .inr (.inl ⟨c', f, mem_sendFrame_up.mpr (.inl member), block⟩)
  · exact .inr (.inr unread)

theorem Outstanding.reads (h : Outstanding s k) {c : Conn} {r : ServerResponse}
    {rest : List ServerResponse} (head : s.down c = r :: rest)
    (other : IsAck r → (r.devno, r.offset) ≠ k) {q : SendQueue}
    (kept : ∀ e ∈ waiting s.queue, ∃ e' ∈ waiting q, e'.key = e.key) {db : BlockTable} {done : Bool} :
    Outstanding { s with
      down := Function.update s.down c rest, queue := q, db := db, serverDone := done } k := by
  rcases h with ⟨e, member, key⟩ | under_way | ⟨c', r', member, ack, key⟩
  · obtain ⟨e', member', same⟩ := kept e member
    exact .inl ⟨e', member', same.trans key⟩
  · exact .inr (.inl under_way)
  · right
    right
    refine ⟨c', r', ?_, ack, key⟩
    change r' ∈ Function.update s.down c rest c'
    by_cases here : c' = c
    · subst here
      rw [head] at member
      rcases List.mem_cons.mp member with rfl | later
      · exact absurd key (other ack)
      · rwa [Function.update_self]
    · rwa [Function.update_of_ne here]

theorem Outstanding.handles (h : Outstanding s k) {c : Conn} {f : Frame} {rest : List Frame}
    {io : DiskIo} {m : Msg} (head : s.up c = f :: rest) (good : f.body.msg = .ok m)
    (ready : ∀ b ∈ f.block, Ready s.writer io b) :
    Outstanding (handled s c f.id rest (dispatch s.writer io m)) k := by
  rcases h with queued | ⟨c', g, member, b, block, key⟩ | ⟨c', r, member, ack⟩
  · exact .inl queued
  · rcases mem_up_of_handled head member with rfl | still
    · obtain rfl : m = .block b := by
        rw [Frame.block_eq_some.mp block] at good
        exact (Except.ok.inj good).symm
      have ok := blockWriterWrite_ready (ready b block)
      refine .inr (.inr ⟨c, ackSendBlock b, mem_handled_down.mpr (.inr ⟨rfl, ?_⟩), .inl rfl, key⟩)
      simp only [dispatch, dispatchBlock, ok, if_true]
      exact List.mem_cons_self
    · exact .inr (.inl ⟨c', g, still, b, block, key⟩)
  · exact .inr (.inr ⟨c', r, mem_handled_down.mpr (.inl member), ack⟩)

theorem Outstanding.fills (h : Outstanding s k) (room : s.queue.count < queueCapacity)
    (e : QueueEntry) {db : BlockTable} {pc : Pc} :
    Outstanding { s with queue := fillHead s.queue room e, db := db, pc := pc } k := by
  rcases h with ⟨e', member, key⟩ | under_way | unread
  · refine .inl ⟨e', ?_, key⟩
    rw [waiting_fillHead]
    exact List.mem_append_left _ member
  · exact .inr (.inl under_way)
  · exact .inr (.inr unread)

theorem recorded_pushed {b : Block} (room : s.queue.count < queueCapacity) (version : Int) :
    Recorded { s with
      queue := fillHead s.queue room (entryOf b)
      db := sqliteBlockUpsertV s.db cfg.remoteId b.key (Int32.ofInt b.data.length)
        (blockHash b.offset b.data) false version
      pc := .idle } b.key := by
  refine ⟨_, (Keyed.mem_put s.db).mpr (.inl rfl), rfl, .inr (.inl ⟨entryOf b, ?_, rfl⟩)⟩
  rw [waiting_fillHead]
  exact List.mem_append_right _ List.mem_cons_self

theorem Recorded.upserts (h : Recorded s k) {b : Block} (room : s.queue.count < queueCapacity)
    (version : Int) :
    Recorded { s with
      queue := fillHead s.queue room (entryOf b)
      db := sqliteBlockUpsertV s.db cfg.remoteId b.key (Int32.ofInt b.data.length)
        (blockHash b.offset b.data) false version
      pc := .idle } k := by
  by_cases here : k = b.key
  · rw [here]
    exact recorded_pushed room version
  · obtain ⟨row, member, rfl, state⟩ := h
    exact ⟨row, (Keyed.mem_put s.db).mpr (.inr ⟨member, here⟩), rfl,
      state.imp id fun outstanding => outstanding.fills room _⟩

theorem Recorded.answers (h : Recorded s k) (full : cfg.tailSend = false) {c : Conn}
    {r : ServerResponse} {rest : List ServerResponse} (head : s.down c = r :: rest) :
    Recorded (processAck cfg { s with down := Function.update s.down c rest } r) k := by
  obtain ⟨row, member, key, state⟩ := h
  unfold processAck
  split
  next ack =>
    simp only [full]
    by_cases here : (r.devno, r.offset) = k
    · rw [here, ← key]
      exact ⟨_, markAcked_self member, rfl, .inl rfl⟩
    · have other : row.key ≠ (r.devno, r.offset) := by
        rw [key]
        exact Ne.symm here
      refine ⟨row, markAcked_other member other, key, state.imp id fun outstanding =>
        outstanding.reads head (fun _ => here) fun e queued => ?_⟩
      obtain ⟨e', queued', same, -⟩ := mem_waiting_queueAck queued r.devno r.offset
      exact ⟨e', queued', same⟩
  next other =>
    split <;> exact ⟨row, member, key, state.imp id fun outstanding =>
      outstanding.reads head (fun ack => absurd ack other) fun e queued => ⟨e, queued, rfl⟩⟩

theorem recvAck_eq {c : Conn} {r : ServerResponse} {rest : List ServerResponse}
    (hs : Migration.step cfg s (.recvAck c) = some s') (head : s.down c = r :: rest) :
    s' = processAck cfg { s with down := Function.update s.down c rest } r := by
  simp only [Migration.step, recvAck, head] at hs
  split at hs
  · cases hs
  · exact (Option.some.inj hs).symm

theorem step_recorded (h : Recorded s k) (carries : Carries (fun _ => True) s)
    (position : SendsOnly (fun _ => True) s.pc) (full : cfg.tailSend = false)
    (lossless : Lossless s a) (hs : Migration.step cfg s a = some s') (alive : s'.pc ≠ .crashed) :
    Recorded s' k := by
  cases Migration.step_inv hs with
  | moved moves => exact h.imp rfl id
  | deferred push room => exact h.imp rfl fun outstanding => outstanding.fills room _
  | recorded push room =>
    obtain ⟨-, version, rfl⟩ := position.pushing push
    exact h.upserts room version
  | @dropped outcome _ _ pop unsent =>
    cases outcome with
    | noConnection => exact absurd rfl lossless.1
    | sendFailed => exact absurd rfl lossless.2
    | sentOn c => exact absurd rfl (unsent c)
  | crashed pop => exact absurd rfl alive
  | flushed pop bytes => exact h.imp rfl fun outstanding => outstanding.flushes carries _ pop bytes
  | announced => exact h.imp rfl fun outstanding => outstanding.sends _ _
  | ended first => exact h.imp rfl fun outstanding => Outstanding.sends outstanding _ _
  | endedUnsent first => exact h.imp rfl id
  | acked head ack =>
    rw [recvAck_eq hs head]
    exact h.answers full head
  | finished head done =>
    rw [recvAck_eq hs head]
    exact h.answers full head
  | ignored head =>
    rw [recvAck_eq hs head]
    exact h.answers full head
  | lost head bad => exact (carries.never_lost head bad).elim
  | delivered head good =>
    refine h.imp rfl fun outstanding => outstanding.handles head good (lossless _ ?_)
    rw [head, List.head?_cons]
    rfl
  | stable round batch decision => exact (position.no_round round).elim
  | changed round batch decision => exact (position.no_round round).elim

/-- A taken block stays taken as long as nothing is lost. -/
theorem step_taken (h : Taken s k) (carries : Carries (fun _ => True) s)
    (position : SendsOnly (fun _ => True) s.pc) (full : cfg.tailSend = false)
    (lossless : Lossless s a) (hs : Migration.step cfg s a = some s') (alive : s'.pc ≠ .crashed) :
    Taken s' k := by
  rcases h with ⟨b, pusher, push, rfl⟩ | recorded
  · cases Migration.step_inv hs with
    | moved moves =>
      cases moves with
      | stay => exact .inl ⟨b, pusher, push, rfl⟩
      | leave round => exact (position.no_round round).elim
      | take idle => simp [push] at idle
      | giveUp push => exact lossless.elim
      | begin idle tail selected => simp [push] at idle
      | next round batch => exact (position.no_round round).elim
    | recorded push' room =>
      obtain ⟨rfl, rfl⟩ := Pc.pushing.inj (push.symm.trans push')
      obtain ⟨-, version, rfl⟩ := position.pushing push
      exact .inr (recorded_pushed room version)
    | crashed pop => exact absurd rfl alive
    | stable round batch decision => exact (position.no_round round).elim
    | changed round batch decision => exact (position.no_round round).elim
    | _ => exact .inl ⟨b, pusher, push, rfl⟩
  · exact .inr (step_recorded recorded carries position full lossless hs alive)

theorem sendBlock_taken (full : cfg.tailSend = false) {b : ReadBlock} {version : Int}
    (some_data : b.1.data ≠ []) (hs : Migration.step cfg s (.sendBlock b version) = some s') :
    Taken s' b.1.key := by
  simp only [Migration.step, Migration.sendBlock, some_data, full] at hs
  split at hs
  · simp only [if_false] at hs
    split at hs
    next skipped =>
      cases hs
      obtain ⟨row, found, ack⟩ := Option.map_eq_some_iff.mp skipped
      obtain ⟨member, key⟩ := (Keyed.get_eq_some_iff s.db).mp found
      exact .inr ⟨row, member, key, .inl ack⟩
    · simp only [Bool.false_eq_true, false_and, if_false] at hs
      cases hs
      exact .inl ⟨b, _, rfl, rfl⟩
  · cases hs

structure Held (visited : List Key) (s : Sys) : Prop where
  carries : Carries (fun _ => True) s
  position : SendsOnly (fun _ => True) s.pc
  taken : s.pc ≠ .crashed → ∀ k ∈ visited, Taken s k

theorem step_held {visited : List Key} (h : Held visited s) (full : cfg.tailSend = false)
    (lossless : Lossless s a) (hs : Migration.step cfg s a = some s') : Held visited s' := by
  have st := Migration.step_inv hs
  refine ⟨step_carries h.carries (fun _ _ _ => trivial) st,
    h.position.step (fun _ _ _ _ => full) (fun _ _ _ => trivial) st, fun alive k member => ?_⟩
  exact step_taken (h.taken (st.alive_before alive) k member) h.carries h.position full lossless hs
    alive

theorem hangUp_carries {P : Block → Prop} (h : Carries P s) (c : Conn) : Carries P (hangUp s c) :=
  ⟨h.slots, h.frames, fun c' f member => h.under_way c' f (mem_hangUp_up.mp member).2⟩

theorem hangUp_held {visited : List Key} (h : Held visited s) {c : Conn}
    (blocks : ∀ f ∈ s.up c, f.block = none) (acks : ∀ r ∈ s.down c, ¬ IsAck r) :
    Held visited (hangUp s c) := by
  have kept : ∀ k, Outstanding s k → Outstanding (hangUp s c) k := by
    rintro k (queued | ⟨c', f, member, b, block, key⟩ | ⟨c', r, member, ack, key⟩)
    · exact .inl queued
    · have other : c' ≠ c := by
        rintro rfl
        simp [blocks f member] at block
      exact .inr (.inl ⟨c', f, mem_hangUp_up.mpr ⟨other, member⟩, b, block, key⟩)
    · have other : c' ≠ c := by
        rintro rfl
        exact acks r member ack
      exact .inr (.inr ⟨c', r, mem_hangUp_down.mpr ⟨other, member⟩, ack, key⟩)
  exact ⟨hangUp_carries h.carries c, h.position, fun alive k member =>
    (h.taken alive k member).imp id fun recorded => recorded.imp rfl (kept k)⟩

def Accounts (plan visited : List Key) : Phase → Prop
  | .transfer todo => visited ++ todo = plan
  | .drain _ => visited = plan
  | .finish _ => visited = plan
  | .returned rc => rc = 0 → visited = plan

def Finishing (s : Sys) : Phase → Prop
  | .finish _ => s.pc = .idle ∧ s.queue.count = 0
  | .returned rc => rc = 0 → s.pc = .idle ∧ s.queue.count = 0 ∧ Answered s
  | _ => True

structure Inv (plan : List Key) (job : Job) : Prop where
  held : Held job.visited job.sys
  accounts : Accounts plan job.visited job.phase
  finishing : Finishing job.sys job.phase

theorem inv_start (db : BlockTable) (w : Writer) (plan : List Key) : Inv plan (start db w plan) where
  held := ⟨carries_resumed db w, trivial, by simp [start]⟩
  accounts := rfl
  finishing := trivial

theorem hangUp_answered (h : Answered s) (c : Conn) : Answered (hangUp s c) :=
  ⟨fun c' f member => h.1 c' f (mem_hangUp_up.mp member).2,
    fun c' r member => h.2 c' r (mem_hangUp_down.mp member).2⟩

theorem step_waiting {n : Nat} (position : SendsOnly (fun _ => True) s.pc)
    (allowed : (Phase.finish n).allows a = true) (hs : Migration.step cfg s a = some s') :
    s'.pc = s.pc ∧ s'.queue.count = s.queue.count := by
  have st := Migration.step_inv hs
  cases a with
  | recvAck c =>
    cases st with
    | moved moves =>
      cases moves with
      | stay => exact ⟨rfl, rfl⟩
      | leave round => exact (position.no_round round).elim
    | acked head ack => exact ⟨rfl, (queueAck_place _ _ _).1⟩
    | finished head done => exact ⟨rfl, rfl⟩
    | ignored head => exact ⟨rfl, rfl⟩
  | deliver c io =>
    cases st with
    | moved moves =>
      cases moves with
      | stay => exact ⟨rfl, rfl⟩
      | leave round => exact (position.no_round round).elim
    | lost head bad => exact ⟨rfl, rfl⟩
    | delivered head good => exact ⟨rfl, rfl⟩
  | _ => cases allowed

theorem step_endIncremental {outcome : FlushOutcome}
    (hs : Migration.step cfg s (.sendControl .endIncremental outcome) = some s') :
    s'.pc = .idle ∧ s'.queue = s.queue ∧ (outcome = .noConnection → s' = s) := by
  simp only [Migration.step] at hs
  split at hs
  next idle =>
    cases outcome with
    | noConnection =>
      cases hs
      exact ⟨idle, rfl, fun _ => rfl⟩
    | _ =>
      simp only [sendControl] at hs
      split at hs
      · cases hs
        exact ⟨idle, rfl, by simp⟩
      · cases hs
  · cases hs

theorem step_accounts {plan : List Key} {job job' : Job} {e : Event}
    (h : Accounts plan job.visited job.phase) (turn : Turn cfg job e job') :
    Accounts plan job'.visited job'.phase := by
  cases turn with
  | unread phase =>
    rw [phase] at h
    simpa [Accounts] using h
  | visited phase hs =>
    rw [phase] at h
    simpa [Accounts] using h
  | thrown => simp [Accounts]
  | transferred phase =>
    rw [phase] at h
    simpa [Accounts] using h
  | drained phase =>
    rw [phase] at h
    exact h
  | ended phase hs =>
    rw [phase] at h
    simp only
    split
    · exact fun _ => h
    · exact h
  | waited phase =>
    rw [phase] at h
    exact h
  | finished phase =>
    rw [phase] at h
    exact fun _ => h
  | _ => exact h

theorem step_held_job {job job' : Job} {e : Event} (h : Held job.visited job.sys)
    (full : cfg.tailSend = false) (smooth : Smooth job e) (turn : Turn cfg job e job') :
    Held job'.visited job'.sys := by
  cases turn with
  | unread phase => simp [Smooth] at smooth
  | @visited k todo data s phase hs =>
    have held := step_held (a := .sendBlock _ 0) h full trivial hs
    refine ⟨held.carries, held.position, fun alive k' member => ?_⟩
    rcases List.mem_append.mp member with old | new
    · exact held.taken alive k' old
    · rw [List.mem_singleton.mp new]
      obtain ⟨_, ⟨⟩, some_data⟩ := smooth
      exact sendBlock_taken full some_data hs
  | resent phase hs => exact step_held (a := .sendBlock _ 0) h full trivial hs
  | performed allowed hs => exact step_held h full smooth hs
  | hungUp => exact hangUp_held h smooth.1 smooth.2
  | ended phase hs => exact step_held (a := .sendControl _ _) h full trivial hs
  | _ => exact h

theorem step_finishing {job job' : Job} {e : Event} (h : Finishing job.sys job.phase)
    (position : SendsOnly (fun _ => True) job.sys.pc) (smooth : Smooth job e)
    (turn : Turn cfg job e job') : Finishing job'.sys job'.phase := by
  cases turn with
  | unread phase => trivial
  | visited phase hs => trivial
  | passed => exact h
  | resent phase hs =>
    simp only [phase]
    trivial
  | performed allowed hs =>
    cases phase : job.phase with
    | transfer todo => trivial
    | drain n => trivial
    | finish n =>
      rw [phase] at h allowed
      obtain ⟨pc, count⟩ := step_waiting position allowed hs
      exact ⟨pc.trans h.1, count.trans h.2⟩
    | returned rc =>
      rw [phase] at allowed
      cases allowed
  | hungUp =>
    cases phase : job.phase with
    | transfer todo => trivial
    | drain n => trivial
    | finish n =>
      rw [phase] at h
      exact h
    | returned rc =>
      rw [phase] at h
      intro zero
      obtain ⟨idle, count, answered⟩ := h zero
      exact ⟨idle, count, hangUp_answered answered _⟩
  | thrown => simp [Finishing]
  | transferred phase => trivial
  | drained phase => trivial
  | @ended n outcome s phase hs =>
    obtain ⟨idle, queue, same⟩ := step_endIncremental hs
    have count : s.queue.count = 0 := by
      rw [queue]
      exact smooth.1
    simp only
    split
    next unsent => exact fun _ => ⟨idle, count, same unsent ▸ smooth.2 unsent⟩
    · exact ⟨idle, count⟩
  | waited phase =>
    rw [phase] at h
    exact h
  | finished phase =>
    rw [phase] at h
    exact fun _ => ⟨h.1, h.2, smooth⟩

theorem inv_step {plan : List Key} {job job' : Job} {e : Event} (h : Inv plan job)
    (full : cfg.tailSend = false) (smooth : Smooth job e) (hs : step cfg job e = some job') :
    Inv plan job' where
  held := step_held_job h.held full smooth (step_inv hs)
  accounts := step_accounts h.accounts (step_inv hs)
  finishing := step_finishing h.finishing h.held.position smooth (step_inv hs)

/-- At a return with 0 every key of the plan has its row acknowledged. -/
theorem Inv.complete {plan : List Key} {job : Job} (h : Inv plan job)
    (returned : job.phase = .returned 0) {k : Key} (planned : k ∈ plan) :
    ∃ row ∈ job.sys.db.rows, row.key = k ∧ row.ack = true := by
  obtain ⟨held, accounts, finishing⟩ := h
  rw [returned] at accounts finishing
  obtain ⟨idle, empty, answered⟩ := finishing rfl
  rcases held.taken (by simp [idle]) k (accounts rfl ▸ planned) with ⟨b, pusher, push, -⟩ | recorded
  · simp [idle] at push
  · obtain ⟨row, member, key, acked | outstanding⟩ := recorded
    · exact ⟨row, member, key, acked⟩
    · exact absurd outstanding (not_outstanding (by simp [waiting, empty]) answered)

/-- A return with 0 means complete, whatever the tracker held before: if every
enumerated block is read, nothing is lost or left in a push loop, and by the return
every block sent has been answered and the answer read, every enumerated key has a
row with ack = 1. -/
theorem success_complete (l : Layout) (opens : Fin maxTargetDisks → Bool) (db : BlockTable)
    (w : Writer) (remoteId : String) (events : List Event) (job : Job)
    (hr : run (step ⟨false, remoteId⟩) (start db w (enumerated l opens)) events = some job)
    (smooth : Meets (step ⟨false, remoteId⟩) Smooth (start db w (enumerated l opens)) events)
    (success : job.phase = .returned 0) :
    ∀ k ∈ enumerated l opens, ∃ row ∈ job.sys.db.rows, row.key = k ∧ row.ack = true := by
  have inv : Inv (enumerated l opens) job :=
    run_invariant_of_meets (fun _ _ _ h cond hs => inv_step h rfl cond hs) hr smooth
      (inv_start db w (enumerated l opens))
  intro k planned
  exact inv.complete success planned

def oneBlockLayout : Layout where
  diskSize := fun _ => blockSize
  partitions := [⟨0, 0, blockSize, false⟩]
  sizes := by decide
  inside := by decide
  sectors := by decide

theorem blockRead_fits : [(1 : UInt8), 2, 3].length ≤ blockSize := by decide

def blockRead : ReadData := ⟨[1, 2, 3], blockRead_fits⟩

def smoothEvents : List Event :=
  -- the block is written and acknowledged before the GPT step visits it again
  ([.visit (some blockRead), .perform (.push true 0), .perform (.flushOne (.sentOn 0)),
    .perform (.deliver 0 ⟨true, [], []⟩), .perform (.recvAck 0), .visit (some blockRead),
    .transferred, .endTransfer (.sentOn 0), .perform (.deliver 0 ⟨true, [], []⟩),
    .perform (.recvAck 0)] : List Event) ++ List.replicate finishWaits .wait ++ [.finished]

theorem success_complete_one_block :
    ∃ job ∈ run (step ⟨false, "10.0.0.1:3400"⟩)
        (start Keyed.empty blankWriter (enumerated oneBlockLayout fun _ => true)) smoothEvents,
      job.phase = .returned 0 ∧ enumerated oneBlockLayout (fun _ => true) = [(0, 0), (0, 0)] ∧
      ∀ k ∈ enumerated oneBlockLayout fun _ => true,
        ∃ row ∈ job.sys.db.rows, row.key = k ∧ row.ack = true := by
  have runs : ∃ job ∈ run (step ⟨false, "10.0.0.1:3400"⟩)
        (start Keyed.empty blankWriter (enumerated oneBlockLayout fun _ => true)) smoothEvents,
      Meets (step ⟨false, "10.0.0.1:3400"⟩) Smooth
        (start Keyed.empty blankWriter (enumerated oneBlockLayout fun _ => true)) smoothEvents ∧
      job.phase = .returned 0 := by
    decide +kernel
  obtain ⟨job, hr, smooth, success⟩ := runs
  exact ⟨job, hr, success, by decide +kernel,
    success_complete oneBlockLayout (fun _ => true) Keyed.empty blankWriter "10.0.0.1:3400"
      smoothEvents job hr smooth success⟩

def droppedEvents : List Event :=
  -- flush_one finds no connection and drops the block, both times, and the end of the transfer
  -- finds none either
  [.visit (some blockRead), .perform (.push true 0), .perform (.flushOne .noConnection),
    .visit (some blockRead), .perform (.push true 0), .perform (.flushOne .noConnection),
    .transferred, .endTransfer .noConnection]

/-- do_migrate returns 0 although its only block was never sent. -/
theorem success_with_dropped_block :
    (0, 0) ∈ enumerated oneBlockLayout (fun _ => true) ∧
    ∃ job ∈ run (step ⟨false, "10.0.0.1:3400"⟩)
        (start Keyed.empty blankWriter (enumerated oneBlockLayout fun _ => true)) droppedEvents,
      job.phase = .returned 0 ∧ job.sys.sent = [] ∧
      ¬ ∃ row ∈ job.sys.db.rows, row.key = (0, 0) ∧ row.ack = true := by
  decide +kernel

end Go2Cloud.FullRun
