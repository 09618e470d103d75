import Go2Cloud.Migration.LastVersion
import Go2Cloud.Migration.TailSend

/-! What an acknowledgement confirms in full mode when a block is sent in several
versions. An ACK names device and offset only; process_ack marks the row whatever
hash it has by then. Every ACK is received whole: one that pool_recv_ack has only a
part of would shift the fields of those behind it. -/
namespace Go2Cloud.AckVersion
open Protocol Queue Reader Tracker Round Decoder BlockWriter Receiver Migration Transition
open TailSend (Quiet)
open LastVersion (oldVersion newVersion oldVersion_fits newVersion_fits)

def acknowledged (s : Sys) : Action → List Block
  | .deliver c io => ((s.up c).head?.bind Frame.block).toList.filter fun b =>
      (blockWriterWrite s.writer io b).ok &&
        decide (ackSendBlock b ∈ (dispatchBlock s.writer io b).responses)
  | _ => []

def Confirmed (seen : List Block) (k : Key) (hash : UInt64) : Prop :=
  ∃ b ∈ seen, b.key = k ∧ blockHash b.offset b.data = hash

def Idle (s : Sys) (k : Key) : Prop :=
  Quiet s k ∧ ∀ c, ∀ r ∈ s.down c, IsAck r → (r.devno, r.offset) ≠ k

instance (s : Sys) (k : Key) : Decidable (Idle s k) := inferInstanceAs (Decidable (_ ∧ _))

def Pressed (q : SendQueue) : Prop :=
  q.backpressure = true ∨ backpressureQueueDepth ≤ q.count + 1

instance (q : SendQueue) : Decidable (Pressed q) := inferInstanceAs (Decidable (_ ∨ _))

def pushedBlock : Pc → Option Block
  | .pushing b _ => some b.1
  | _ => none

/-- A block comes with the hash its row has, or when nothing for its key is
outstanding; and with another hash in its row it is not pushed under backpressure. -/
def Settled (s : Sys) : Action → Prop
  | .sendBlock b _ =>
    sqliteBlockLookup s.db b.1.key = some (blockHash b.1.offset b.1.data) ∨ Idle s b.1.key
  | .push _ _ => ∀ b ∈ pushedBlock s.pc, ∀ hash ∈ sqliteBlockLookup s.db b.key,
      hash = blockHash b.offset b.data ∨ ¬ Pressed s.queue
  | _ => True

instance (s : Sys) : (a : Action) → Decidable (Settled s a)
  | .sendBlock b _ => inferInstanceAs (Decidable
      (sqliteBlockLookup s.db b.1.key = some (blockHash b.1.offset b.1.data) ∨ Idle s b.1.key))
  -- by name, since a search may also find the one that runs over every hash
  | .push _ _ => @Option.decidableForallMem Block
      (fun b => ∀ hash ∈ sqliteBlockLookup s.db b.key,
        hash = blockHash b.offset b.data ∨ ¬ Pressed s.queue)
      (fun b => Option.decidableForallMem (sqliteBlockLookup s.db b.key)) (pushedBlock s.pc)
  | .flushOne _ | .giveUp | .sendControl _ _ | .recvAck _ | .deliver _ _
  | .beginRound _ _ _ | .examine _ | .endRound => .isTrue trivial

/-- Every copy for the key that is queued or under way has this hash, and every
unread ACK for the key confirms it. -/
structure Only (seen : List Block) (s : Sys) (k : Key) (hash : UInt64) : Prop where
  queued : ∀ e ∈ waiting s.queue, e.key = k → e.hash = hash
  under_way : ∀ c, ∀ f ∈ s.up c, ∀ b ∈ f.block, b.key = k → blockHash b.offset b.data = hash
  answers : ∀ c, ∀ r ∈ s.down c, IsAck r → (r.devno, r.offset) = k → Confirmed seen k hash

structure Inv (seen : List Block) (s : Sys) : Prop where
  carries : Carries (fun _ => True) s
  position : SendsOnly (fun b => Only seen s b.key (blockHash b.offset b.data)) s.pc
  current : ∀ row ∈ s.db.rows, Only seen s row.key row.hash
  acked : ∀ row ∈ s.db.rows, row.ack = true → Confirmed seen row.key row.hash

theorem inv_resumed {db : BlockTable} {earlier : List Block} (w : Writer)
    (h : ∀ row ∈ db.rows, row.ack = true → Confirmed earlier row.key row.hash) :
    Inv earlier (resumed db w) where
  carries := carries_resumed db w
  position := trivial
  current _ _ := ⟨by simp [resumed, init, waiting, queueInit], by simp [resumed, init],
    by simp [resumed, init]⟩
  acked := h

variable {seen : List Block} {s s' : Sys} {cfg : Config} {a : Action} {k : Key} {hash : UInt64}

theorem Confirmed.mono (h : Confirmed seen k hash) (later : List Block) :
    Confirmed (seen ++ later) k hash := by
  obtain ⟨b, member, same⟩ := h
  exact ⟨b, List.mem_append_left _ member, same⟩

theorem Only.mono (h : Only seen s k hash) (later : List Block) : Only (seen ++ later) s k hash :=
  ⟨h.queued, h.under_way, fun c r member ack key => (h.answers c r member ack key).mono later⟩

theorem only_of_idle (h : Idle s k) (hash : UInt64) : Only seen s k hash where
  queued e member key := absurd key (h.1.1 e member)
  under_way c f member b block key := absurd key (h.1.2 c f member b block)
  answers c r member ack key := absurd key (h.2 c r member ack)

theorem Only.pushes (h : Only seen s k hash) {b : Block} (room : s.queue.count < queueCapacity)
    (same : b.key = k → blockHash b.offset b.data = hash) {db : BlockTable} {pc : Pc} :
    Only seen { s with queue := fillHead s.queue room (entryOf b), db := db, pc := pc } k hash where
  queued e member key := by
    rw [waiting_fillHead] at member
    rcases List.mem_append.mp member with old | new
    · exact h.queued e old key
    · rw [List.mem_singleton.mp new] at key ⊢
      exact same key
  under_way := h.under_way
  answers := h.answers

theorem Only.pops (h : Only seen s k hash) {e : QueueEntry} {q : SendQueue}
    (pop : queuePop s.queue = some (e, q)) : Only seen { s with queue := q } k hash where
  queued e' member := h.queued e' (by rw [waiting_queuePop pop]; exact List.mem_cons_of_mem _ member)
  under_way := h.under_way
  answers := h.answers

theorem Only.sends (h : Only seen s k hash) (c : Conn) {body : Body}
    (same : ∀ b ∈ Frame.block ⟨s.sent.length, body⟩, b.key = k → blockHash b.offset b.data = hash) :
    Only seen (sendFrame s c body) k hash where
  queued := h.queued
  under_way c' f member b block key := by
    rcases mem_sendFrame_up.mp member with old | ⟨-, rfl⟩
    · exact h.under_way c' f old b block key
    · exact same b block key
  answers := h.answers

theorem Only.flushes (h : Only seen s k hash) (carries : Carries (fun _ => True) s)
    {e : QueueEntry} {q : SendQueue} {payload : List UInt8} (c : Conn)
    (pop : queuePop s.queue = some (e, q)) (bytes : e.payload = some payload) :
    Only seen (sendFrame { s with queue := q } c (.data payload)) k hash := by
  refine (h.pops pop).sends c fun b block key => ?_
  obtain ⟨b', block', same_key, same_hash⟩ := carries.tail_block pop bytes s.sent.length
  obtain rfl : b' = b := Option.some.inj (block'.symm.trans block)
  rw [same_hash]
  refine h.queued e ?_ (same_key.symm.trans key)
  rw [waiting_queuePop pop]
  exact List.mem_cons_self

theorem Only.reads (h : Only seen s k hash) {c : Conn} {r : ServerResponse}
    {rest : List ServerResponse} (head : s.down c = r :: rest) (done : Bool) :
    Only seen { s with down := Function.update s.down c rest, serverDone := done } k hash where
  queued := h.queued
  under_way := h.under_way
  answers c' r' member := h.answers c' r' (mem_of_taken head member)

theorem Only.acks (h : Only seen s k hash) {c : Conn} {r : ServerResponse}
    {rest : List ServerResponse} (head : s.down c = r :: rest) {db : BlockTable} :
    Only seen { s with
      down := Function.update s.down c rest
      queue := queueAck s.queue r.devno r.offset
      db := db } k hash where
  queued e member key := by
    obtain ⟨e', old, same_key, same_hash⟩ := mem_of_waiting_queueAck member
    rw [same_hash]
    exact h.queued e' old (same_key ▸ key)
  under_way := h.under_way
  answers c' r' member := h.answers c' r' (mem_of_taken head member)

theorem dispatch_ack {w : Writer} {io : DiskIo} {m : Msg} {r : ServerResponse}
    (member : r ∈ (dispatch w io m).responses) (ack : IsAck r) :
    ∃ b, m = .block b ∧ (r.devno, r.offset) = b.key ∧ (blockWriterWrite w io b).ok = true ∧
      ackSendBlock b ∈ (dispatchBlock w io b).responses := by
  cases m with
  | control c =>
    cases c with
    | incremental => cases member
    | endIncremental =>
      rw [List.mem_singleton.mp member] at ack
      exact absurd ack (by decide)
  | block b =>
    refine ⟨b, rfl, ?_⟩
    simp only [dispatch, dispatchBlock] at member ⊢
    split at member
    next ok =>
      refine ⟨?_, ok, by rw [if_pos ok]; exact List.mem_cons_self⟩
      rcases List.mem_cons.mp member with rfl | alert
      · rfl
      · split at alert
        · rw [List.mem_singleton.mp alert] at ack
          exact absurd ack (by simp [IsAck, ackSendBinlog, responseBinlog, responseAck, responseAckAlt])
        · cases alert
    · cases member

theorem Only.handles (h : Only seen s k hash) {c : Conn} {f : Frame} {rest : List Frame}
    {io : DiskIo} {m : Msg} (head : s.up c = f :: rest) (good : f.body.msg = .ok m) :
    Only (seen ++ acknowledged s (.deliver c io))
      (handled s c f.id rest (dispatch s.writer io m)) k hash where
  queued := h.queued
  under_way c' g member := h.under_way c' g (mem_of_taken head member)
  answers c' r member ack key := by
    rcases mem_handled_down.mp member with old | ⟨-, new⟩
    · exact (h.answers c' r old ack key).mono _
    · obtain ⟨b, rfl, same, ok, sent⟩ := dispatch_ack new ack
      have block : f.block = some b := Frame.block_eq_some.mpr good
      have key_b : b.key = k := same.symm.trans key
      refine ⟨b, List.mem_append_right _ ?_, key_b,
        h.under_way c f (head ▸ List.mem_cons_self) b block key_b⟩
      simp [acknowledged, head, block, ok, sent]

theorem push_of_not_pressed {malloc : Bool} {now : Int} (free : ¬ Pressed s.queue)
    (hs : push cfg s malloc now = some s') :
    s' = s ∨ ∃ b pusher, s.pc = .pushing b pusher ∧ s'.pc = pusher.done := by
  unfold push at hs
  split at hs
  next b pusher at_push =>
    simp only [Pressed, not_or, Bool.not_eq_true, not_le] at free
    rcases queuePush_below free.1 free.2 malloc b.1.devno b.1.offset
      (blockHash b.1.offset b.1.data) (Msgpack.blockBytes b.1) with failed | ok
    · have same : queueBlock s.queue malloc b.1 = (.failed, s.queue) := failed
      rw [same] at hs
      cases hs
      exact .inl rfl
    · have returned : (queueBlock s.queue malloc b.1).1 = .ok := ok
      simp only [if_pos returned] at hs
      cases hs
      exact .inr ⟨b, pusher, at_push, rfl⟩
  · cases hs

theorem Pusher.done_ne_pushing (p pusher : Pusher) (b : ReadBlock) : p.done ≠ .pushing b pusher := by
  cases p <;> simp [Pusher.done]

theorem deferred_pressed {malloc : Bool} {now : Int} {b : ReadBlock} {pusher : Pusher}
    (at_push : s.pc = .pushing b pusher) {room : s.queue.count < queueCapacity} {e : QueueEntry}
    (hs : push cfg s malloc now = some { s with queue := fillHead s.queue room e }) :
    Pressed s.queue := by
  by_contra free
  rcases push_of_not_pressed free hs with same | ⟨b', pusher', -, moved⟩
  · have count := congrArg (fun s : Sys => s.queue.count) same
    simp [fillHead] at count
  · exact Pusher.done_ne_pushing pusher' pusher b (moved.symm.trans at_push)

theorem lookup_of_mem {db : BlockTable} {row : Row} (member : row ∈ db.rows) :
    sqliteBlockLookup db row.key = some row.hash := by
  rw [sqliteBlockLookup, (Keyed.get_eq_some_iff db).mpr ⟨member, rfl⟩]
  rfl

theorem Inv.keeps (h : Inv seen s) {later : List Block} (carries : Carries (fun _ => True) s')
    (only : ∀ k hash, Only seen s k hash → Only (seen ++ later) s' k hash)
    (pc : s'.pc = s.pc) (db : s'.db = s.db) : Inv (seen ++ later) s' where
  carries := carries
  position := by
    rw [pc]
    exact h.position.imp fun b current => only _ _ current
  current row member := only _ _ (h.current row (db ▸ member))
  acked row member ack := (h.acked row (db ▸ member) ack).mono later

theorem Inv.enters (h : Inv seen s) {b : ReadBlock} {version : Int}
    (settled : Settled s (.sendBlock b version)) :
    Only seen s b.1.key (blockHash b.1.offset b.1.data) := by
  rcases settled with same | idle
  · obtain ⟨row, found, content⟩ := Option.map_eq_some_iff.mp same
    obtain ⟨member, key⟩ := (Keyed.get_eq_some_iff s.db).mp found
    rw [← content, ← key]
    exact h.current row member
  · exact only_of_idle idle _

theorem Inv.mono (h : Inv seen s) (later : List Block) : Inv (seen ++ later) s :=
  h.keeps h.carries (fun _ _ only => only.mono later) rfl rfl

theorem Inv.records (h : Inv seen s) {b : ReadBlock} (remoteId : String) (version : Int)
    (room : s.queue.count < queueCapacity)
    (only : Only seen s b.1.key (blockHash b.1.offset b.1.data)) {s' : Sys}
    (s'_eq : s' = { s with
      queue := fillHead s.queue room (entryOf b.1)
      db := sqliteBlockUpsertV s.db remoteId b.1.key (Int32.ofInt b.1.data.length)
        (blockHash b.1.offset b.1.data) false version
      pc := .idle })
    (carries : Carries (fun _ => True) s') : Inv seen s' := by
  subst s'_eq
  refine ⟨carries, trivial, fun row member => ?_, fun row member ack => ?_⟩
  · rcases mem_upsert member with rfl | ⟨old, other⟩
    · exact only.pushes room fun _ => rfl
    · exact (h.current row old).pushes room fun same => absurd same.symm other
  · rcases mem_upsert member with rfl | ⟨old, -⟩
    · cases ack
    · exact h.acked row old ack

theorem Inv.acks (h : Inv seen s) {c : Conn} {r : ServerResponse} {rest : List ServerResponse}
    (head : s.down c = r :: rest) (ack : IsAck r) {s' : Sys}
    (s'_eq : s' = { s with
      down := Function.update s.down c rest
      queue := queueAck s.queue r.devno r.offset
      db := sqliteBlockMarkAcked s.db (r.devno, r.offset) })
    (carries : Carries (fun _ => True) s') : Inv seen s' := by
  subst s'_eq
  refine ⟨carries, h.position.imp fun b only => only.acks head, fun row member => ?_,
    fun row member marked => ?_⟩
  · obtain ⟨old, member, same⟩ := mem_markAcked member 0
    rw [same.key, same.hash]
    exact (h.current old member).acks head
  · obtain ⟨old, member, same⟩ := mem_markAcked member 0
    rw [same.key, same.hash]
    rcases same.mark with ⟨ack_eq, -⟩ | ⟨key, -⟩
    · exact h.acked old member (ack_eq ▸ marked)
    · exact (h.current old member).answers c r (head ▸ List.mem_cons_self) ack key.symm

theorem step_inv (h : Inv seen s) (full : cfg.tailSend = false) (settled : Settled s a)
    (hs : Migration.step cfg s a = some s') : Inv (seen ++ acknowledged s a) s' := by
  have st := Migration.step_inv hs
  have carries := step_carries h.carries (fun _ _ _ => trivial) st
  cases st with
  | moved moves =>
    rename_i pc
    have same : ∀ k hash, Only seen s k hash → Only seen { s with pc := pc } k hash :=
      fun k hash only => ⟨only.queued, only.under_way, only.answers⟩
    have position := h.position.moves (fun _ _ _ _ => full) (fun b version taken => h.enters (taken ▸ settled)) moves
    exact Inv.mono ⟨carries, position.imp fun b only => same _ _ only,
      fun row member => same _ _ (h.current row member), h.acked⟩ _
  | deferred push room =>
    rename_i malloc now b pusher
    have pressed := deferred_pressed push hs
    obtain ⟨only, version, rfl⟩ := h.position.pushing push
    have deferred : Inv seen { s with queue := fillHead s.queue room (entryOf b.1) } := by
      refine ⟨carries, ?_, fun row member => ?_, h.acked⟩
      · simp only [push]
        exact only.pushes room fun _ => rfl
      · -- a row for the pushed block has its hash, or the push would not be deferred
        refine (h.current row member).pushes room fun same => ?_
        have known := settled b.1 (by rw [push]; rfl) row.hash (by
          rw [same]
          exact lookup_of_mem member)
        rcases known with content | free
        · exact content.symm
        · exact absurd pressed free
    exact deferred.mono _
  | recorded push room =>
    obtain ⟨only, version, rfl⟩ := h.position.pushing push
    exact (h.records cfg.remoteId version room only rfl carries).mono _
  | dropped pop unsent =>
    exact h.keeps carries (fun _ _ only => (only.pops pop).mono _) rfl rfl
  | crashed pop =>
    refine Inv.mono ⟨carries, trivial, fun row member => ?_, h.acked⟩ _
    have popped := (h.current row member).pops pop
    exact ⟨popped.queued, popped.under_way, popped.answers⟩
  | flushed pop bytes =>
    exact h.keeps carries (fun _ _ only => (only.flushes h.carries _ pop bytes).mono _) rfl rfl
  | announced =>
    exact h.keeps carries
      (fun _ _ only => (only.sends _ (by simp [Frame.block, Body.msg])).mono _) rfl rfl
  | ended first =>
    refine h.keeps carries (fun k hash only => ?_) rfl rfl
    have marked : Only seen { s with ctlEndSent := some s.sent.length, serverDone := false } k hash :=
      ⟨only.queued, only.under_way, only.answers⟩
    exact (marked.sends _ (by simp [Frame.block, Body.msg])).mono _
  | endedUnsent first =>
    refine h.keeps carries (fun k hash only => ?_) rfl rfl
    have marked : Only seen { s with ctlEndSent := some s.sent.length, serverDone := false } k hash :=
      ⟨only.queued, only.under_way, only.answers⟩
    exact marked.mono _
  | acked head ack =>
    simp only [full] at carries ⊢
    exact (h.acks head ack rfl carries).mono _
  | finished head done =>
    exact h.keeps carries (fun _ _ only => (only.reads head true).mono _) rfl rfl
  | ignored head =>
    exact h.keeps carries (fun _ _ only => (only.reads head s.serverDone).mono _) rfl rfl
  | lost head bad => exact (h.carries.never_lost head bad).elim
  | delivered head good =>
    exact h.keeps carries (fun _ _ only => only.handles head good) rfl rfl
  | stable round batch decision => exact (h.position.no_round round).elim
  | changed round batch decision => exact (h.position.no_round round).elim

/-- A row has ack = 1 only if the receiver wrote and acknowledged a block with the
row's current hash, in this run or in the earlier ones that left the tracker, if no
new version of a block is queued while an older one is outstanding. -/
theorem ack_confirms_version (db : BlockTable) (earlier : List Block) (w : Writer)
    (remoteId : String) (actions : List Action) (s : Sys)
    (before : ∀ row ∈ db.rows, row.ack = true → Confirmed earlier row.key row.hash)
    (hr : run (Migration.step ⟨false, remoteId⟩) (resumed db w) actions = some s)
    (settled : Meets (Migration.step ⟨false, remoteId⟩) Settled (resumed db w) actions) :
    ∀ row ∈ s.db.rows, row.ack = true → Confirmed
      (earlier ++ trace (Migration.step ⟨false, remoteId⟩) acknowledged (resumed db w) actions)
      row.key row.hash := by
  have inv := run_invariant_trace
    (fun _ _ _ _ h cond hs => step_inv h rfl cond hs) hr settled
    (inv_resumed w before)
  exact inv.acked

def replacedActions : List Action :=
  -- the old version is dropped before the new one is sent
  [.sendBlock ⟨oldVersion, oldVersion_fits⟩ 0, .push true 0, .flushOne .noConnection,
    .sendBlock ⟨newVersion, newVersion_fits⟩ 0, .push true 0, .flushOne (.sentOn 0),
    .deliver 0 ⟨true, [], []⟩, .recvAck 0]

theorem ack_confirms_version_replaced :
    ∃ s ∈ run (Migration.step ⟨false, "10.0.0.1:3400"⟩) (resumed Keyed.empty blankWriter)
        replacedActions, (∃ row ∈ s.db.rows, row.ack = true) ∧
      ∀ row ∈ s.db.rows, row.ack = true → Confirmed ([] ++ trace
        (Migration.step ⟨false, "10.0.0.1:3400"⟩) acknowledged (resumed Keyed.empty blankWriter)
        replacedActions) row.key row.hash := by
  have runs : ∃ s ∈ run (Migration.step ⟨false, "10.0.0.1:3400"⟩) (resumed Keyed.empty blankWriter)
      replacedActions, (∃ row ∈ s.db.rows, row.ack = true) ∧
      Meets (Migration.step ⟨false, "10.0.0.1:3400"⟩) Settled (resumed Keyed.empty blankWriter)
        replacedActions := by
    decide +kernel
  obtain ⟨s, hr, marked, settled⟩ := runs
  exact ⟨s, hr, marked, ack_confirms_version Keyed.empty [] blankWriter "10.0.0.1:3400"
    replacedActions s (by simp [Keyed.empty]) hr settled⟩

/-- The ACK of the old version is read when the row already has the hash of the new
one, which was dropped. -/
def lateAckActions : List Action :=
  [.sendBlock ⟨oldVersion, oldVersion_fits⟩ 0, .push true 0, .flushOne (.sentOn 0),
    .deliver 0 ⟨true, [], []⟩, .sendBlock ⟨newVersion, newVersion_fits⟩ 0, .push true 0,
    .flushOne .noConnection, .recvAck 0]

theorem ack_confirms_other_version :
    ∃ s ∈ run (Migration.step ⟨false, "10.0.0.1:3400"⟩) (resumed Keyed.empty blankWriter)
        lateAckActions,
      trace (Migration.step ⟨false, "10.0.0.1:3400"⟩) acknowledged (resumed Keyed.empty blankWriter)
        lateAckActions = [oldVersion] ∧
      ∃ row ∈ s.db.rows, row.ack = true ∧ row.key = newVersion.key ∧
        row.hash = blockHash newVersion.offset newVersion.data ∧
        row.hash ≠ blockHash oldVersion.offset oldVersion.data := by
  decide +kernel

end Go2Cloud.AckVersion
