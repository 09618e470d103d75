import Go2Cloud.Client.Queue
import Go2Cloud.Client.Round
import Go2Cloud.Server.Decoder
import Go2Cloud.Server.Receiver

/-! Client, connections and receiver as one message-passing system. Frames and
responses are delivered whole and in order on each connection; everything else
may interleave. For responses this is an assumption: pool_recv_ack drops what it has
of a response whose rest is not there yet. The client's loops around queue_push are
cut at each attempt, because flush_one and process_ack run in between. -/
namespace Go2Cloud.Migration
open Protocol Queue Reader Tracker Round Decoder BlockWriter Receiver
open Msgpack (blockBytes)

abbrev Conn := Fin socketPoolTarget

instance : NeZero socketPoolTarget := ⟨by decide⟩

abbrev ReadBlock := {b : Block // b.data.length ≤ blockSize}

inductive Body where
  | data (payload : List UInt8)
  | control (c : Control)
  deriving DecidableEq, Repr

structure Frame where
  id : Nat
  body : Body
  deriving DecidableEq, Repr

structure Config where
  tailSend : Bool
  remoteId : String

inductive Pusher where
  | sendBlock (version : Int)
  | round (p : Progress)

inductive Pc where
  -- where the client is: between calls, in a push loop, between two rows of a round, or crashed
  | idle
  | pushing (b : ReadBlock) (pusher : Pusher)
  | round (p : Progress)
  | crashed

/-- `ctlEndSent` holds the number of frames sent before the end marker, `log` the
effects on the target disks, each with the frame that caused it. -/
structure Sys where
  db : BlockTable
  queue : SendQueue
  pc : Pc
  serverDone : Bool
  ctlEndSent : Option Nat
  up : Conn → List Frame
  down : Conn → List ServerResponse
  writer : Writer
  sent : List Frame
  log : List (Nat × DiskOp)

def init (w : Writer) : Sys where
  db := Keyed.empty
  queue := queueInit
  pc := .idle
  serverDone := false
  ctlEndSent := none
  up := fun _ => []
  down := fun _ => []
  writer := w
  sent := []
  log := []

def resumed (db : BlockTable) (w : Writer) : Sys := { init w with db := db }

inductive FlushOutcome where
  -- pool_acquire finds nothing, wire_send fails, or the frame goes out
  | noConnection
  | sendFailed
  | sentOn (c : Conn)
  deriving DecidableEq, Repr

inductive Action where
  | sendBlock (b : ReadBlock) (version : Int)
  | push (malloc : Bool) (now : Int)
  | giveUp
  | flushOne (outcome : FlushOutcome)
  | sendControl (ctl : Control) (outcome : FlushOutcome)
  | recvAck (c : Conn)
  | deliver (c : Conn) (io : DiskIo)
  | beginRound (batch : List Row) (now version : Int)
  | examine (live : Option ReadData)
  | endRound

def sendBlock (cfg : Config) (s : Sys) (b : ReadBlock) (version : Int) : Sys :=
  -- send_block up to its push loop, for a block just read
  if b.1.data = [] then s
  else if sqliteBlockAcked s.db b.1.key = some true then s
  else if cfg.tailSend = true ∧
      sqliteBlockLookup s.db b.1.key = some (blockHash b.1.offset b.1.data) then s
  else { s with pc := .pushing b (.sendBlock version) }

def queueBlock (q : SendQueue) (malloc : Bool) (b : Block) : PushRc × SendQueue :=
  queuePush q malloc b.devno b.offset (blockHash b.offset b.data) (blockBytes b)

def entryOf (b : Block) : QueueEntry :=
  ⟨b.devno, b.offset, blockHash b.offset b.data, some (blockBytes b), (blockBytes b).length, true⟩

def recordPushed (cfg : Config) (db : BlockTable) (b : Block) (now : Int) : Pusher → BlockTable
  | .sendBlock version =>
    sqliteBlockUpsertV db cfg.remoteId b.key (Int32.ofInt b.data.length)
      (blockHash b.offset b.data) false version
  | .round p => recordResent db cfg.remoteId b (blockHash b.offset b.data) p.version now

def Pusher.done : Pusher → Pc
  | .sendBlock _ => .idle
  | .round p => .round { p with requeued := p.requeued + 1 }

def Pusher.abandoned : Pusher → Pc
  | .sendBlock _ => .idle
  | .round p => .round p

/-- One attempt of a push loop. Only return value 0 ends the loop, so an entry
accepted under backpressure is pushed again. -/
def push (cfg : Config) (s : Sys) (malloc : Bool) (now : Int) : Option Sys :=
  match s.pc with
  | .pushing b pusher =>
    let r := queueBlock s.queue malloc b.1
    if r.1 = .ok then
      some { s with
        queue := r.2, db := recordPushed cfg s.db b.1 now pusher, pc := pusher.done }
    else some { s with queue := r.2 }
  | _ => none

def giveUp (s : Sys) : Option Sys :=
  -- leaving a push loop without success: shutdown, a failed encoding, or the retry limit of a round
  match s.pc with
  | .pushing _ pusher => some { s with pc := pusher.abandoned }
  | _ => none

def sendFrame (s : Sys) (c : Conn) (body : Body) : Sys :=
  let f : Frame := ⟨s.sent.length, body⟩
  { s with up := Function.update s.up c (s.up c ++ [f]), sent := s.sent ++ [f] }

theorem mem_sendFrame_up {s : Sys} {c c' : Conn} {body : Body} {f : Frame} :
    f ∈ (sendFrame s c body).up c' ↔ f ∈ s.up c' ∨ (c' = c ∧ f = ⟨s.sent.length, body⟩) := by
  simp only [sendFrame]
  by_cases here : c' = c
  · subst here
    simp
  · simp [here]

theorem mem_sendFrame_sent {s : Sys} {c : Conn} {body : Body} {f : Frame} :
    f ∈ (sendFrame s c body).sent ↔ f ∈ s.sent ∨ f = ⟨s.sent.length, body⟩ := by
  simp [sendFrame]

/-- A popped entry whose payload an acknowledgement already freed makes wire_send
compress from a null pointer. -/
def flushOne (s : Sys) (outcome : FlushOutcome) : Sys :=
  match queuePop s.queue with
  | none => s
  | some (entry, q) =>
    match outcome, entry.payload with
    | .noConnection, _ => { s with queue := q }
    | .sendFailed, some _ => { s with queue := q }
    | .sentOn c, some payload => sendFrame { s with queue := q } c (.data payload)
    | _, none => { s with queue := q, pc := .crashed }

/-- The end marker is sent once, and a failed wire_send_control goes unnoticed;
then the client waits for the answer. -/
def sendControl (s : Sys) (ctl : Control) (outcome : FlushOutcome) : Option Sys :=
  match ctl, outcome with
  | _, .noConnection => some s
  | .incremental, .sendFailed => some s
  | .incremental, .sentOn c => some (sendFrame s c (.control .incremental))
  | .endIncremental, outcome =>
    if s.ctlEndSent = none then
      let s' := { s with ctlEndSent := some s.sent.length, serverDone := false }
      match outcome with
      | .sentOn c => some (sendFrame s' c (.control .endIncremental))
      | _ => some s'
    else none

def IsAck (r : ServerResponse) : Prop := r.type = responseAck ∨ r.type = responseAckAlt

instance (r : ServerResponse) : Decidable (IsAck r) := inferInstanceAs (Decidable (_ ∨ _))

def processAck (cfg : Config) (s : Sys) (r : ServerResponse) : Sys :=
  if IsAck r then
    { s with
      queue := queueAck s.queue r.devno r.offset
      db := if cfg.tailSend then s.db else sqliteBlockMarkAcked s.db (r.devno, r.offset) }
  else if r.type = responseServerDone then { s with serverDone := true }
  else s

def recvAck (cfg : Config) (s : Sys) (c : Conn) : Option Sys :=
  match s.down c with
  | [] => none
  | r :: rest => some (processAck cfg { s with down := Function.update s.down c rest } r)

def Body.msg : Body → Except DecodeErr Msg
  | .data payload => (msgpackDecodeBlock payload).map .block
  | .control c => .ok (.control c)

def Frame.block (f : Frame) : Option Block :=
  match f.body.msg with
  | .ok (.block b) => some b
  | _ => none

theorem Frame.block_eq_some {f : Frame} {b : Block} :
    f.block = some b ↔ f.body.msg = .ok (.block b) := by
  unfold Frame.block
  split <;> simp_all

def handled (s : Sys) (c : Conn) (id : Nat) (rest : List Frame) (d : Dispatched) : Sys :=
  -- the receiver has handled frame `id`, the oldest on its connection
  { s with
    up := Function.update s.up c rest
    down := Function.update s.down c (s.down c ++ d.responses)
    writer := d.writer
    log := s.log ++ d.ops.map fun op => (id, op) }

theorem mem_handled_down {s : Sys} {c c' : Conn} {id : Nat} {rest : List Frame} {d : Dispatched}
    {r : ServerResponse} :
    r ∈ (handled s c id rest d).down c' ↔ r ∈ s.down c' ∨ (c' = c ∧ r ∈ d.responses) := by
  simp only [handled]
  by_cases here : c' = c
  · subst here
    simp
  · simp [here]

theorem mem_of_taken {α : Type} {lists : Conn → List α} {c c' : Conn} {x y : α} {rest : List α}
    (head : lists c = x :: rest) (member : y ∈ Function.update lists c rest c') : y ∈ lists c' := by
  by_cases here : c' = c
  · subst here
    rw [Function.update_self] at member
    exact head ▸ List.mem_cons_of_mem _ member
  · rw [Function.update_of_ne here] at member
    exact member

/-- A frame that does not decode ends the session, and what was under way on it
is lost. -/
def deliver (s : Sys) (c : Conn) (io : DiskIo) : Option Sys :=
  match s.up c with
  | [] => none
  | f :: rest =>
    match f.body.msg with
    | .error _ => some { s with up := Function.update s.up c [] }
    | .ok m => some (handled s c f.id rest (dispatch s.writer io m))

def beginRound (cfg : Config) (s : Sys) (batch : List Row) (now version : Int) : Option Sys :=
  match s.pc with
  | .idle =>
    if cfg.tailSend = true ∧ IsUnackedBatch s.db cfg.remoteId roundLimit batch then
      some { s with pc := .round ⟨batch, now, version, 0⟩ }
    else none
  | _ => none

def Row.readAs (row : Row) (data : ReadData) : ReadBlock :=
  ⟨⟨row.devno, row.offset, data.1⟩, data.2⟩

def examine (s : Sys) (p : Progress) (row : Row) (rest : List Row) (live : Option ReadData) : Sys :=
  -- the loop body of do_incremental_round for the next row of the batch
  let next := { p with batch := rest }
  match examineRow p.now s.queue.count row live with
  | .cooldown => { s with pc := .round next }
  | .backpressure => { s with pc := .idle }
  | .unread => { s with pc := .round next }
  | .unchanged => { s with db := markStable s.db row.key p.version p.now, pc := .round next }
  | .changed data =>
    { s with
      db := sqliteUpdateLastSent s.db row.key p.now
      pc := .pushing (Row.readAs row data) (.round next) }

/-- A crashed client takes no further step; the receiver does. -/
def step (cfg : Config) (s : Sys) : Action → Option Sys
  | .sendBlock b version =>
    match s.pc with
    | .idle => some (sendBlock cfg s b version)
    | _ => none
  | .push malloc now => push cfg s malloc now
  | .giveUp => giveUp s
  | .flushOne outcome =>
    match s.pc with
    | .crashed => none
    | _ => some (flushOne s outcome)
  | .sendControl ctl outcome =>
    match s.pc with
    | .idle => sendControl s ctl outcome
    | _ => none
  | .recvAck c =>
    match s.pc with
    | .crashed => none
    | _ => recvAck cfg s c
  | .deliver c io => deliver s c io
  | .beginRound batch now version => beginRound cfg s batch now version
  | .examine live =>
    match s.pc with
    | .round p =>
      match p.batch with
      | [] => none
      | row :: rest => some (examine s p row rest live)
    | _ => none
  | .endRound =>
    match s.pc with
    | .round _ => some { s with pc := .idle }
    | _ => none

inductive Moves (cfg : Config) (s : Sys) : Action → Pc → Prop
  | stay {a : Action} : Moves cfg s a s.pc
  | leave {a : Action} {p : Progress} (round : s.pc = .round p) : Moves cfg s a .idle
  | take {b : ReadBlock} {version : Int} (idle : s.pc = .idle) :
    Moves cfg s (.sendBlock b version) (.pushing b (.sendBlock version))
  | giveUp {b : ReadBlock} {pusher : Pusher} (push : s.pc = .pushing b pusher) :
    Moves cfg s .giveUp pusher.abandoned
  | begin {batch : List Row} {now version : Int} (idle : s.pc = .idle) (tail : cfg.tailSend = true)
    (selected : IsUnackedBatch s.db cfg.remoteId roundLimit batch) :
    Moves cfg s (.beginRound batch now version) (.round ⟨batch, now, version, 0⟩)
  | next {live : Option ReadData} {p : Progress} {row : Row} {rest : List Row}
    (round : s.pc = .round p) (batch : p.batch = row :: rest) :
    Moves cfg s (.examine live) (.round { p with batch := rest })

inductive Step (cfg : Config) (s : Sys) : Action → Sys → Prop
  | moved {a : Action} {pc : Pc} (moves : Moves cfg s a pc) : Step cfg s a { s with pc := pc }
  | deferred {malloc : Bool} {now : Int} {b : ReadBlock} {pusher : Pusher}
    (push : s.pc = .pushing b pusher) (room : s.queue.count < queueCapacity) :
    Step cfg s (.push malloc now) { s with queue := fillHead s.queue room (entryOf b.1) }
  | recorded {malloc : Bool} {now : Int} {b : ReadBlock} {pusher : Pusher}
    (push : s.pc = .pushing b pusher) (room : s.queue.count < queueCapacity) :
    Step cfg s (.push malloc now)
      { s with
        queue := fillHead s.queue room (entryOf b.1)
        db := recordPushed cfg s.db b.1 now pusher
        pc := pusher.done }
  | dropped {outcome : FlushOutcome} {e : QueueEntry} {q : SendQueue}
    (pop : queuePop s.queue = some (e, q)) (unsent : ∀ c, outcome ≠ .sentOn c) :
    Step cfg s (.flushOne outcome) { s with queue := q }
  | crashed {outcome : FlushOutcome} {e : QueueEntry} {q : SendQueue}
    (pop : queuePop s.queue = some (e, q)) :
    Step cfg s (.flushOne outcome) { s with queue := q, pc := .crashed }
  | flushed {c : Conn} {e : QueueEntry} {q : SendQueue} {payload : List UInt8}
    (pop : queuePop s.queue = some (e, q)) (bytes : e.payload = some payload) :
    Step cfg s (.flushOne (.sentOn c)) (sendFrame { s with queue := q } c (.data payload))
  | announced {c : Conn} :
    Step cfg s (.sendControl .incremental (.sentOn c)) (sendFrame s c (.control .incremental))
  | ended {c : Conn} (first : s.ctlEndSent = none) :
    Step cfg s (.sendControl .endIncremental (.sentOn c))
      (sendFrame { s with ctlEndSent := some s.sent.length, serverDone := false } c
        (.control .endIncremental))
  | endedUnsent {outcome : FlushOutcome} (first : s.ctlEndSent = none) :
    Step cfg s (.sendControl .endIncremental outcome)
      { s with ctlEndSent := some s.sent.length, serverDone := false }
  | acked {c : Conn} {r : ServerResponse} {rest : List ServerResponse}
    (head : s.down c = r :: rest) (ack : IsAck r) :
    Step cfg s (.recvAck c)
      { s with
        down := Function.update s.down c rest
        queue := queueAck s.queue r.devno r.offset
        db := if cfg.tailSend then s.db else sqliteBlockMarkAcked s.db (r.devno, r.offset) }
  | finished {c : Conn} {r : ServerResponse} {rest : List ServerResponse}
    (head : s.down c = r :: rest) (done : r.type = responseServerDone) :
    Step cfg s (.recvAck c) { s with down := Function.update s.down c rest, serverDone := true }
  | ignored {c : Conn} {r : ServerResponse} {rest : List ServerResponse}
    (head : s.down c = r :: rest) :
    Step cfg s (.recvAck c) { s with down := Function.update s.down c rest }
  | lost {c : Conn} {io : DiskIo} {f : Frame} {rest : List Frame} {err : DecodeErr}
    (head : s.up c = f :: rest) (bad : f.body.msg = .error err) :
    Step cfg s (.deliver c io) { s with up := Function.update s.up c [] }
  | delivered {c : Conn} {io : DiskIo} {f : Frame} {rest : List Frame} {m : Msg}
    (head : s.up c = f :: rest) (good : f.body.msg = .ok m) :
    Step cfg s (.deliver c io) (handled s c f.id rest (dispatch s.writer io m))
  | stable {live : Option ReadData} {p : Progress} {row : Row} {rest : List Row}
    (round : s.pc = .round p) (batch : p.batch = row :: rest)
    (decision : examineRow p.now s.queue.count row live = .unchanged) :
    Step cfg s (.examine live)
      { s with
        db := markStable s.db row.key p.version p.now
        pc := .round { p with batch := rest } }
  | changed {live : Option ReadData} {p : Progress} {row : Row} {rest : List Row} {data : ReadData}
    (round : s.pc = .round p) (batch : p.batch = row :: rest)
    (decision : examineRow p.now s.queue.count row live = .changed data) :
    Step cfg s (.examine live)
      { s with
        db := sqliteUpdateLastSent s.db row.key p.now
        pc := .pushing (Row.readAs row data) (.round { p with batch := rest }) }

section Inversion
variable {cfg : Config} {s s' : Sys}

theorem push_inv {malloc : Bool} {now : Int} (h : push cfg s malloc now = some s') :
    Step cfg s (.push malloc now) s' := by
  unfold push at h
  split at h
  next b pusher at_push =>
    rcases queuePush_effect s.queue malloc b.1.devno b.1.offset (blockHash b.1.offset b.1.data)
      (blockBytes b.1) with failed | ⟨room, -, filled⟩
    · have same : queueBlock s.queue malloc b.1 = (.failed, s.queue) := failed
      rw [same] at h
      cases h
      exact .moved .stay
    · have fill : (queueBlock s.queue malloc b.1).2 = fillHead s.queue room (entryOf b.1) := filled
      simp only [fill] at h
      split at h
      · cases h
        exact .recorded at_push room
      · cases h
        exact .deferred at_push room
  · cases h

theorem flushOne_inv (outcome : FlushOutcome) :
    Step cfg s (.flushOne outcome) (flushOne s outcome) := by
  unfold flushOne
  split
  · exact .moved .stay
  next e q pop =>
    split
    · exact .dropped pop (by simp)
    · exact .dropped pop (by simp)
    next payload bytes => exact .flushed pop bytes
    · exact .crashed pop

theorem sendControl_inv {ctl : Control} {outcome : FlushOutcome}
    (h : sendControl s ctl outcome = some s') : Step cfg s (.sendControl ctl outcome) s' := by
  unfold sendControl at h
  split at h
  · cases h
    exact .moved .stay
  · cases h
    exact .moved .stay
  · cases h
    exact .announced
  · split at h
    next first =>
      simp only at h
      split at h
      · cases h
        exact .ended first
      · cases h
        exact .endedUnsent first
    · cases h

theorem recvAck_inv {c : Conn} (h : recvAck cfg s c = some s') : Step cfg s (.recvAck c) s' := by
  unfold recvAck at h
  split at h
  · cases h
  next r rest head =>
    cases h
    unfold processAck
    split
    next ack => exact .acked head ack
    split
    next done => exact .finished head done
    · exact .ignored head

theorem deliver_inv {c : Conn} {io : DiskIo} (h : deliver s c io = some s') :
    Step cfg s (.deliver c io) s' := by
  unfold deliver at h
  split at h
  · cases h
  next f rest head =>
    split at h
    next bad =>
      cases h
      exact .lost head bad
    next good =>
      cases h
      exact .delivered head good

theorem examine_inv {live : Option ReadData} {p : Progress} {row : Row} {rest : List Row}
    (round : s.pc = .round p) (batch : p.batch = row :: rest) :
    Step cfg s (.examine live) (examine s p row rest live) := by
  unfold examine
  split
  · exact .moved (.next round batch)
  · exact .moved (.leave round)
  · exact .moved (.next round batch)
  next decision => exact .stable round batch decision
  next decision => exact .changed round batch decision

theorem sendBlock_inv {b : ReadBlock} {version : Int} (idle : s.pc = .idle) :
    Step cfg s (.sendBlock b version) (sendBlock cfg s b version) := by
  unfold sendBlock
  split
  · exact .moved .stay
  split
  · exact .moved .stay
  split
  · exact .moved .stay
  · exact .moved (.take idle)

theorem step_inv {a : Action} (h : step cfg s a = some s') : Step cfg s a s' := by
  cases a with
  | sendBlock b version =>
    simp only [step] at h
    split at h
    next idle =>
      cases h
      exact sendBlock_inv idle
    · cases h
  | push malloc now => exact push_inv h
  | giveUp =>
    simp only [step, giveUp] at h
    split at h
    next at_push =>
      cases h
      exact .moved (.giveUp at_push)
    · cases h
  | flushOne outcome =>
    simp only [step] at h
    split at h
    · cases h
    · cases h
      exact flushOne_inv outcome
  | sendControl ctl outcome =>
    simp only [step] at h
    split at h
    · exact sendControl_inv h
    · cases h
  | recvAck c =>
    simp only [step] at h
    split at h
    · cases h
    · exact recvAck_inv h
  | deliver c io => exact deliver_inv h
  | beginRound batch now version =>
    simp only [step, beginRound] at h
    split at h
    next idle =>
      split at h
      next enabled =>
        cases h
        exact .moved (.begin idle enabled.1 enabled.2)
      · cases h
    · cases h
  | examine live =>
    simp only [step] at h
    split at h
    next p round =>
      split at h
      · cases h
      next row rest batch =>
        cases h
        exact examine_inv round batch
    · cases h
  | endRound =>
    simp only [step] at h
    split at h
    next round =>
      cases h
      exact .moved (.leave round)
    · cases h

end Inversion

end Go2Cloud.Migration
