import Mathlib.Data.UInt
import Go2Cloud.Lib.Transition
import Go2Cloud.Server.BlockWriter

/-! The receiver as a state machine: sessions come and go, and their decoded
messages reach the shared block writer one at a time (handle_session in
server/main.c, ack.c, session.c). It refines a byte store that only knows which
bytes of which block landed. -/
namespace Go2Cloud.Receiver
open Protocol BlockWriter Transition

def maxSessions : Nat := 16

def ackSendBlock (b : Block) : ServerResponse :=
  ⟨responseAck, b.devno, Int32.ofInt b.data.length, b.offset⟩

def ackSendDone : ServerResponse := ⟨responseServerDone, 0, 0, 0⟩

def ackSendBinlog (b : Block) : ServerResponse :=
  ⟨responseBinlog, b.devno, Int32.ofInt b.data.length, b.offset⟩

structure Dispatched where
  writer : Writer
  ops : List DiskOp
  responses : List ServerResponse
  counted : Option Nat

def dispatchBlock (w : Writer) (io : DiskIo) (b : Block) : Dispatched :=
  let r := blockWriterWrite w io b
  if r.ok then
    let pending := blockWriterPendingBytes r.writer
    let alert := if pending.1 ≥ UInt64.ofNat binlogSizeLimit then [ackSendBinlog b] else []
    ⟨pending.2, r.ops, ackSendBlock b :: alert, some b.data.length⟩
  else ⟨r.writer, r.ops, [], none⟩

def dispatch (w : Writer) (io : DiskIo) : Msg → Dispatched
  -- the switch of handle_session. The result of block_writer_fsync_all is ignored
  | .block b => dispatchBlock w io b
  | .control .incremental => ⟨w, [], [], none⟩
  | .control .endIncremental => ⟨w, blockWriterFsyncAll w io.fsyncs, [ackSendDone], none⟩

structure Session where
  -- a session, also after it was removed, with the responses issued on it
  live : Bool
  incremental : Bool
  blocksReceived : UInt64
  bytesReceived : UInt64
  responses : List ServerResponse

def Session.fresh : Session := ⟨true, false, 0, 0, []⟩

def Session.afterMsg (s : Session) (m : Msg) (d : Dispatched) : Session :=
  { s with
    incremental := s.incremental || decide (m = .control .incremental)
    blocksReceived := s.blocksReceived + if d.counted.isSome then 1 else 0
    bytesReceived := s.bytesReceived + UInt64.ofNat (d.counted.getD 0)
    responses := s.responses ++ d.responses }

structure State where
  -- sessions are numbered in the order of their creation
  writer : Writer
  maxConnections : Nat
  sessions : List Session

def State.sessionCount (r : State) : Nat := r.sessions.countP Session.live

inductive Event where
  -- accepting a connection, removing a session (end of stream, receive or protocol error), and
  -- handling one decoded message
  | accept (calloc : Bool)
  | remove (session : Nat)
  | message (session : Nat) (io : DiskIo) (m : Msg) (fits : m.DataFits)

def accept (r : State) (calloc : Bool) : State :=
  if r.sessionCount ≥ r.maxConnections then r
  else if r.sessionCount ≥ maxSessions ∨ calloc = false then r
  else { r with sessions := r.sessions ++ [.fresh] }

def handleMsg (r : State) (session : Nat) (s : Session) (io : DiskIo) (m : Msg) : State :=
  let d := dispatch r.writer io m
  { r with writer := d.writer, sessions := r.sessions.set session (s.afterMsg m d) }

def step (r : State) : Event → Option State
  | .accept calloc => some (accept r calloc)
  | .remove session => do
    let s ← r.sessions[session]?
    guard s.live
    some { r with sessions := r.sessions.set session { s with live := false } }
  | .message session io m _ => do
    let s ← r.sessions[session]?
    guard s.live
    some (handleMsg r session s io m)

/-- The byte store's view of one handled message: for a block, whether it was
written in full and the bytes that landed. -/
inductive Effect where
  | block (session : Nat) (b : Block) (ok : Bool) (landed : List UInt8)
  | control (session : Nat) (c : Control)

namespace Effect

def session : Effect → Nat
  | .block session _ _ _ => session
  | .control session _ => session

def source : Effect → Nat × Msg
  | .block session b _ _ => (session, .block b)
  | .control session c => (session, .control c)

def apply (s : Store) : Effect → Store
  | .block _ b _ landed => s.put b.devno b.offset landed
  | .control _ _ => s

def responses : Effect → List ServerResponse
  | .block _ b ok _ => if ok then [ackSendBlock b] else []
  | .control _ .endIncremental => [ackSendDone]
  | .control _ .incremental => []

/-- A written block landed in full on an existing disk and its acknowledgement
echoes its length; of a failed one at most a prefix landed. -/
def Sound : Effect → Prop
  | .block _ b ok landed => landed <+: b.data ∧
      (ok = true → landed = b.data ∧ (diskOf b.devno).isSome ∧ 0 ≤ b.offset.toInt ∧
        (ackSendBlock b).size.toInt = b.data.length)
  | .control _ _ => True

end Effect

def Event.source : Event → Option (Nat × Msg)
  | .message session _ m _ => some (session, m)
  | _ => none

def effect (r : State) : Event → List Effect
  | .message session io (.block b) _ =>
    let written := blockWriterWrite r.writer io b
    [.block session b written.ok written.landed]
  | .message session _ (.control c) _ => [.control session c]
  | .accept _ => []
  | .remove _ => []

def plainResponses (responses : List ServerResponse) : List ServerResponse :=
  responses.filter fun r => r.type ≠ responseBinlog

structure Refines (start : Store) (effects : List Effect) (r : State) : Prop where
  store : r.writer.store = effects.foldl Effect.apply start
  known : ∀ e ∈ effects, e.session < r.sessions.length
  answers : ∀ session s, r.sessions[session]? = some s → plainResponses s.responses =
    (effects.filter fun e => e.session = session).flatMap Effect.responses
  blocks : (r.sessions.map Session.blocksReceived).sum = r.writer.totalBlocks
  bytes : (r.sessions.map Session.bytesReceived).sum = r.writer.totalBytes

theorem ackSendBlock_size {b : Block} (h : (Msg.block b).DataFits) :
    (ackSendBlock b).size.toInt = b.data.length := by
  have cap : decodedDataCap = 0x101000 := rfl
  have fits : b.data.length ≤ decodedDataCap := h
  rw [ackSendBlock, Int32.toInt_ofInt_of_le (by omega) (by omega)]

theorem dispatchBlock_ready {w : Writer} {io : DiskIo} {b : Block} (h : Ready w io b) :
    ∃ i, diskOf b.devno = some i ∧ (w.disks i).opened = true ∧
      .wrote i b.offset.toInt.toNat b.data ∈ (dispatchBlock w io b).ops := by
  obtain ⟨landed, spec⟩ := blockWriterWrite_spec w io b
  have ok := blockWriterWrite_ready h
  obtain ⟨⟨i, device, -, opened⟩, -⟩ := h
  obtain ⟨j, synced, disk, -, ops⟩ := spec.disk ok
  obtain rfl : i = j := Option.some.inj (device.symm.trans disk)
  refine ⟨i, device, opened, ?_⟩
  simp only [dispatchBlock, ok, if_true, ops, List.mem_cons_self]

theorem dispatchBlock_store (w : Writer) (io : DiskIo) (b : Block) :
    (dispatchBlock w io b).writer.store = (blockWriterWrite w io b).writer.store := by
  simp only [dispatchBlock]
  split <;> rfl

theorem dispatchBlock_store_ready {w : Writer} {io : DiskIo} {b : Block} (h : Ready w io b) :
    (dispatchBlock w io b).writer.store = w.store.put b.devno b.offset b.data := by
  obtain ⟨landed, spec⟩ := blockWriterWrite_spec w io b
  rw [dispatchBlock_store, spec.store, spec.complete (blockWriterWrite_ready h)]

theorem dispatch_opened (w : Writer) (io : DiskIo) (m : Msg) (j : Fin maxTargetDisks) :
    ((dispatch w io m).writer.disks j).opened = (w.disks j).opened := by
  cases m with
  | block b =>
    simp only [dispatch, dispatchBlock]
    split
    · exact (blockWriterWrite_available w io b j).2
    · exact (blockWriterWrite_available w io b j).2
  | control c => cases c <;> rfl

structure DispatchSpec (w : Writer) (e : Effect) (d : Dispatched) : Prop where
  sound : e.Sound
  store : d.writer.store = e.apply w.store
  answers : plainResponses d.responses = e.responses
  blocks : d.writer.totalBlocks = w.totalBlocks + if d.counted.isSome then 1 else 0
  bytes : d.writer.totalBytes = w.totalBytes + UInt64.ofNat (d.counted.getD 0)

theorem dispatchBlock_spec (w : Writer) (io : DiskIo) (session : Nat) {b : Block}
    (fits : (Msg.block b).DataFits) :
    DispatchSpec w
      (.block session b (blockWriterWrite w io b).ok (blockWriterWrite w io b).landed)
      (dispatchBlock w io b) := by
  have spec := blockWriterWrite_landed w io b
  cases ok : (blockWriterWrite w io b).ok with
  | false =>
    simp only [dispatchBlock, ok]
    exact ⟨⟨spec.landed_le, by simp⟩, spec.store, rfl, by simpa [ok] using spec.blocks,
      by simpa [ok] using spec.bytes⟩
  | true =>
    obtain ⟨i, synced, disk, offset, -⟩ := spec.disk ok
    simp only [dispatchBlock, ok, if_true]
    refine ⟨⟨spec.landed_le, fun _ => ⟨spec.complete ok, by rw [disk]; rfl, offset,
      ackSendBlock_size fits⟩⟩, spec.store, ?_,
      by simpa [ok, blockWriterPendingBytes] using spec.blocks,
      by simpa [ok, blockWriterPendingBytes] using spec.bytes⟩
    split <;> rfl

theorem dispatch_spec (r : State) (io : DiskIo) (session : Nat) {m : Msg} (fits : m.DataFits) :
    ∃ e : Effect, effect r (.message session io m fits) = [e] ∧ e.source = (session, m) ∧
      DispatchSpec r.writer e (dispatch r.writer io m) := by
  cases m with
  | block b => exact ⟨_, rfl, rfl, dispatchBlock_spec r.writer io session fits⟩
  | control c =>
    refine ⟨.control session c, rfl, rfl, ?_⟩
    cases c <;> exact ⟨trivial, rfl, rfl, by simp [dispatch], by simp [dispatch]⟩

theorem sum_map_set {f : Session → UInt64} {sessions : List Session} {i : Nat} {s s' : Session}
    {d : UInt64} (at_i : sessions[i]? = some s) (added : f s' = f s + d) :
    ((sessions.set i s').map f).sum = (sessions.map f).sum + d := by
  induction sessions generalizing i with
  | nil => simp at at_i
  | cons x rest ih =>
    cases i with
    | zero =>
      obtain rfl : x = s := by simpa using at_i
      simp only [List.set_cons_zero, List.map_cons, List.sum_cons, added]
      ac_rfl
    | succ i =>
      simp only [List.set_cons_succ, List.map_cons, List.sum_cons,
        ih (by simpa using at_i)]
      ac_rfl

theorem Effect.session_eq_source (e : Effect) : e.session = e.source.1 := by
  cases e <;> rfl

theorem Refines.accept {start : Store} {effects : List Effect} {r : State}
    (h : Refines start effects r) (calloc : Bool) :
    Refines start effects (accept r calloc) := by
  unfold Receiver.accept
  split
  · exact h
  split
  · exact h
  refine ⟨h.store, fun e he => ?_, fun session s hs => ?_, ?_, ?_⟩
  · have := h.known e he
    simp only [List.length_append, List.length_cons, List.length_nil]
    omega
  · by_cases old : session < r.sessions.length
    · rw [List.getElem?_append_left old] at hs
      exact h.answers session s hs
    · -- a new session has handled nothing
      have none_yet : (effects.filter fun e => e.session = session) = [] := by
        rw [List.filter_eq_nil_iff]
        intro e he
        have := h.known e he
        simp only [decide_eq_true_eq]
        omega
      rw [List.getElem?_append_right (by omega)] at hs
      have fresh : s = .fresh := by
        rw [List.getElem?_singleton] at hs
        split at hs
        · exact (Option.some.inj hs).symm
        · cases hs
      rw [none_yet, fresh]
      rfl
  · simpa [Session.fresh] using h.blocks
  · simpa [Session.fresh] using h.bytes

theorem Refines.remove {start : Store} {effects : List Effect} {r : State}
    (h : Refines start effects r) {session : Nat} {s : Session}
    (at_session : r.sessions[session]? = some s) :
    Refines start effects
      { r with sessions := r.sessions.set session { s with live := false } } := by
  refine ⟨h.store, by simpa using h.known, fun other t ht => ?_, ?_, ?_⟩
  · rw [List.getElem?_set] at ht
    split at ht
    next same =>
      subst same
      split at ht
      · rw [← Option.some.inj ht]
        exact h.answers session s at_session
      · cases ht
    · exact h.answers other t ht
  · rw [sum_map_set (d := 0) at_session (by simp)]
    simpa using h.blocks
  · rw [sum_map_set (d := 0) at_session (by simp)]
    simpa using h.bytes

theorem Refines.message {start : Store} {effects : List Effect} {r : State}
    (h : Refines start effects r) {session : Nat} {s : Session} (io : DiskIo) {m : Msg}
    (at_session : r.sessions[session]? = some s) {e : Effect} (source : e.source = (session, m))
    (spec : DispatchSpec r.writer e (dispatch r.writer io m)) :
    Refines start (effects ++ [e]) (handleMsg r session s io m) := by
  have here : e.session = session := by rw [e.session_eq_source, source]
  have inside : session < r.sessions.length := (List.getElem?_eq_some_iff.mp at_session).1
  refine ⟨?_, fun e' he' => ?_, fun other t ht => ?_, ?_, ?_⟩
  · rw [List.foldl_append, ← h.store]
    exact spec.store
  · simp only [handleMsg, List.length_set]
    rcases List.mem_append.mp he' with old | new
    · exact h.known e' old
    · rw [List.mem_singleton.mp new, here]
      exact inside
  · simp only [handleMsg, List.getElem?_set, if_pos inside] at ht
    rw [List.filter_append, List.flatMap_append]
    split at ht
    next same =>
      subst same
      rw [← Option.some.inj ht]
      simp only [Session.afterMsg, plainResponses, List.filter_append]
      have old := h.answers session s at_session
      have new := spec.answers
      simp only [plainResponses] at old new
      rw [old, new]
      simp [here]
    next different =>
      rw [h.answers other t ht]
      simp [here, different]
  · rw [handleMsg]
    simp only
    rw [sum_map_set at_session rfl, h.blocks, spec.blocks]
  · rw [handleMsg]
    simp only
    rw [sum_map_set at_session rfl, h.bytes, spec.bytes]

/-- One event of the receiver is at most one effect on the byte store. -/
theorem step_refines {start : Store} {effects : List Effect} {r r' : State} {event : Event}
    (h : Refines start effects r) (hs : step r event = some r') :
    (∀ e ∈ effect r event, e.Sound) ∧ Refines start (effects ++ effect r event) r' := by
  cases event with
  | accept calloc =>
    refine ⟨by simp [effect], ?_⟩
    rw [effect, List.append_nil, ← Option.some.inj hs]
    exact h.accept calloc
  | remove session =>
    obtain ⟨s, at_session, hs⟩ := Option.bind_eq_some_iff.mp hs
    obtain ⟨-, -, hs⟩ := Option.bind_eq_some_iff.mp hs
    refine ⟨by simp [effect], ?_⟩
    rw [effect, List.append_nil, ← Option.some.inj hs]
    exact h.remove at_session
  | message session io m fits =>
    obtain ⟨s, at_session, hs⟩ := Option.bind_eq_some_iff.mp hs
    obtain ⟨-, -, hs⟩ := Option.bind_eq_some_iff.mp hs
    obtain ⟨e, here, source, spec⟩ := dispatch_spec r io session fits
    rw [here, ← Option.some.inj hs]
    exact ⟨by simpa using spec.sound, h.message io at_session source spec⟩

theorem trace_source {r r' : State} {events : List Event} (hr : run step r events = some r') :
    (trace step effect r events).map Effect.source = events.filterMap Event.source := by
  induction events generalizing r with
  | nil => rfl
  | cons event events ih =>
    obtain ⟨r₁, first, rest⟩ := run_cons hr
    have here : (effect r event).map Effect.source = event.source.toList := by
      cases event with
      | accept | remove => rfl
      | message session io m fits => cases m <;> rfl
    rw [trace, first, Option.elim_some, List.map_append, here, ih rest]
    cases hsrc : event.source <;> simp [hsrc]

theorem run_refines {start : Store} {r r' : State} {events : List Event}
    (h : Refines start [] r) (hr : run step r events = some r') :
    (∀ e ∈ trace step effect r events, e.Sound) ∧
      Refines start (trace step effect r events) r' := by
  have always : Meets step (fun _ _ => True) r events := meets_of_forall r fun _ _ _ => trivial
  have none_unsound : ∀ e ∈ ([] : List Effect), e.Sound := by simp
  have kept : (∀ e ∈ [] ++ trace step effect r events, e.Sound) ∧
      Refines start ([] ++ trace step effect r events) r' := by
    refine run_invariant_trace
      (P := fun effects r => (∀ e ∈ effects, e.Sound) ∧ Refines start effects r)
      (fun effects r event r' ⟨sound, refines⟩ _ hs => ?_) hr always ⟨none_unsound, h⟩
    obtain ⟨sound', refines'⟩ := step_refines refines hs
    refine ⟨fun e member => ?_, refines'⟩
    rcases List.mem_append.mp member with old | new
    · exact sound e old
    · exact sound' e new
  rw [List.nil_append] at kept
  exact kept

structure Initial (r : State) : Prop where
  sessions : r.sessions = []
  blocks : r.writer.totalBlocks = 0
  bytes : r.writer.totalBytes = 0

theorem Initial.refines {r : State} (h : Initial r) : Refines r.writer.store [] r where
  store := rfl
  known := by simp
  answers := by simp [h.sessions]
  blocks := by simp [h.sessions, h.blocks]
  bytes := by simp [h.sessions, h.bytes]

def brokenWriteEvents : List Event :=
  -- two sessions; the second's write breaks off after a byte, and it is removed before the first
  -- sends its end marker
  [.accept true, .accept true,
    .message 0 ⟨true, [.wrote 1], []⟩ (.block ⟨0, 512, [1, 2, 3]⟩) (by decide),
    .message 1 ⟨true, [.wrote 1, .error], []⟩ (.block ⟨1, 0, [4, 5]⟩) (by decide),
    .remove 1,
    .message 0 ⟨true, [], [false]⟩ (.control .endIncremental) trivial]

end Go2Cloud.Receiver
