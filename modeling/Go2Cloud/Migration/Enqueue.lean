import Go2Cloud.Client.QueueRun
import Go2Cloud.Migration.Model

/-! The loops around queue_push in send_block, do_incremental_round and cmd_incsync
(client/main.c). All three repeat the push until it returns 0, and a push that returns 2
has put its entry into the queue already. -/
namespace Go2Cloud.Enqueue
open Protocol Queue QueueRun Migration
open Msgpack (blockBytes)
open Round (blockHash)

inductive Flush where
  -- what becomes of an entry that flush_one popped
  | dryRun
  | noConnection
  | sendFailed
  | sent
  deriving DecidableEq, Repr

def flushOne (h : History) (flush : Flush) : Int × History :=
  match queuePop h.queue with
  | none => (0, h)
  | some (e, _) =>
    match flush with
    | .dryRun => (1, perform (perform h .pop) (.ack e.devno e.offset))
    -- the entry is not put back
    | .noConnection | .sendFailed => (-1, perform h .pop)
    | .sent => (1, perform h .pop)

/-- flush_one until its result is not positive. Past the end of the list there is no
connection. -/
def flushAll : List Flush → History → History
  | [], h => (flushOne h .noConnection).2
  | flush :: rest, h =>
    let r := flushOne h flush
    if 0 < r.1 then flushAll rest r.2 else r.2

structure Network where
  flushes : List Flush
  acks : List (Int32 × Int64)
  deriving DecidableEq, Repr

def processAck (h : History) (acks : List (Int32 × Int64)) : History :=
  acks.foldl (fun h key => perform h (.ack key.1 key.2)) h

def drain (network : Network) (h : History) : History :=
  processAck (flushAll network.flushes h) network.acks

/-- The forced drain of send_block, with g_running and the network at each turn. Past the
end of the list the client runs on without a connection, one entry a turn. -/
def forceDrain : List (Bool × Network) → History → History
  | [], h => (List.replicate h.queue.count Op.pop).foldl perform h
  | (running, network) :: rest, h =>
    if 0 < h.queue.count ∧ running = true then forceDrain rest (drain network h) else h

/-- What one turn of a loop meets: malloc in queue_push, then g_running, the network, and
the turns of a forced drain. -/
structure Turn where
  malloc : Bool
  running : Bool
  network : Network
  forced : List (Bool × Network)
  deriving DecidableEq, Repr

inductive Exit where
  -- how a loop was left, if it was
  | deferred
  | pushed
  | stopped
  | gaveUp
  | inside
  deriving DecidableEq, Repr

inductive Next where
  | leave (exit : Exit) (h : History)
  | again (retry : Nat) (h : History)

inductive Caller where
  | sendBlock
  | doIncrementalRound
  | cmdIncsync
  deriving DecidableEq, Repr

def Caller.next : Caller → (retry : Nat) → Turn → History → Next
  | .sendBlock, retry, t, h =>
    if t.running then
      let h := drain t.network h
      if retry + 1 > 600 then .again 0 (forceDrain t.forced h) else .again (retry + 1) h
    else .leave .stopped h
  | .doIncrementalRound, retry, t, h =>
    if t.running then
      let h := drain t.network h
      if retry + 1 > 300 then .leave .gaveUp h else .again (retry + 1) h
    else .leave .stopped h
  | .cmdIncsync, retry, t, h => .again retry (drain t.network h)

structure Outcome where
  exit : Exit
  history : History

def pushOp (b : Block) (malloc : Bool) : Op :=
  .push malloc b.devno b.offset (blockHash b.offset b.data) (blockBytes b)

def pushLoop (caller : Caller) (b : ReadBlock) : (retry : Nat) → History → List Turn → Outcome
  | _, h, [] => ⟨.inside, h⟩
  | retry, h, t :: ts =>
    let h' := perform h (pushOp b.1 t.malloc)
    if (queueBlock h.queue t.malloc b.1).1 = .ok then ⟨.pushed, h'⟩
    else
      match caller.next retry t h' with
      | .leave exit h'' => ⟨exit, h''⟩
      | .again retry' h'' => pushLoop caller b retry' h'' ts

def deferDepth : Nat := 9

def enqueue (caller : Caller) (b : ReadBlock) (h : History) (turns : List Turn) : Outcome :=
  -- a caller with one block to be queued, from the queue as it is
  if caller = .doIncrementalRound ∧ h.queue.count > deferDepth then ⟨.deferred, h⟩
  else pushLoop caller b 0 h turns

structure Keeps (h h' : History) : Prop where
  accepted : h'.accepted = h.accepted
  fifo : Fifo h → Fifo h'

theorem Keeps.refl (h : History) : Keeps h h := ⟨rfl, id⟩

theorem Keeps.trans {h h' h'' : History} (first : Keeps h h') (second : Keeps h' h'') :
    Keeps h h'' :=
  ⟨second.accepted.trans first.accepted, second.fifo ∘ first.fifo⟩

theorem keeps_pop (h : History) : Keeps h (perform h .pop) := by
  refine ⟨?_, fun fifo => fifo_step fifo (perform_effect h .pop)⟩
  simp only [perform]
  split <;> rfl

theorem keeps_ack (h : History) (devno : Int32) (offset : Int64) :
    Keeps h (perform h (.ack devno offset)) :=
  ⟨rfl, fun fifo => fifo_step fifo (perform_effect h _)⟩

theorem count_pop (h : History) : (perform h .pop).queue.count = h.queue.count - 1 := by
  simp only [perform, queuePop]
  split
  · next none =>
    have empty : ¬ 0 < h.queue.count := by
      intro nonempty
      rw [dif_pos nonempty] at none
      cases none
    omega
  · next pop =>
    split at pop
    · cases pop
      rfl
    · cases pop

theorem count_ack (h : History) (devno : Int32) (offset : Int64) :
    (perform h (.ack devno offset)).queue.count = h.queue.count :=
  (queueAck_place h.queue devno offset).1

def Flush.goesOn : Flush → Bool
  | .dryRun | .sent => true
  | .noConnection | .sendFailed => false

theorem flushOne_empty {h : History} (empty : h.queue.count = 0) (flush : Flush) :
    flushOne h flush = (0, h) := by
  have none : queuePop h.queue = none := by
    rw [queuePop, dif_neg (by omega)]
  rw [flushOne, none]

theorem flushOne_nonempty {h : History} (nonempty : 0 < h.queue.count) (flush : Flush) :
    (0 < (flushOne h flush).1 ↔ flush.goesOn = true) ∧
      (flushOne h flush).2.queue.count = h.queue.count - 1 := by
  obtain ⟨q, pop, -⟩ := queuePop_nonempty nonempty
  simp only [flushOne, pop]
  cases flush with
  | dryRun => exact ⟨by simp [Flush.goesOn], (count_ack _ _ _).trans (count_pop h)⟩
  | noConnection => exact ⟨by simp [Flush.goesOn], count_pop h⟩
  | sendFailed => exact ⟨by simp [Flush.goesOn], count_pop h⟩
  | sent => exact ⟨by simp [Flush.goesOn], count_pop h⟩

theorem keeps_flushOne (h : History) (flush : Flush) : Keeps h (flushOne h flush).2 := by
  unfold flushOne
  split
  · exact .refl h
  · cases flush with
    | dryRun => exact (keeps_pop h).trans (keeps_ack _ _ _)
    | noConnection => exact keeps_pop h
    | sendFailed => exact keeps_pop h
    | sent => exact keeps_pop h

theorem keeps_flushAll (flushes : List Flush) (h : History) : Keeps h (flushAll flushes h) := by
  induction flushes generalizing h with
  | nil => exact keeps_flushOne h _
  | cons flush rest ih =>
    simp only [flushAll]
    split
    · exact (keeps_flushOne h flush).trans (ih _)
    · exact keeps_flushOne h flush

theorem keeps_drain (network : Network) (h : History) : Keeps h (drain network h) :=
  List.foldlRecOn network.acks _ (keeps_flushAll network.flushes h)
    fun h' keeps key _ => keeps.trans (keeps_ack h' key.1 key.2)

theorem keeps_forceDrain (turns : List (Bool × Network)) (h : History) :
    Keeps h (forceDrain turns h) := by
  induction turns generalizing h with
  | nil =>
    refine List.foldlRecOn _ perform (Keeps.refl h) fun h' keeps op member => ?_
    rw [List.eq_of_mem_replicate member]
    exact keeps.trans (keeps_pop h')
  | cons turn rest ih =>
    simp only [forceDrain]
    split
    · exact (keeps_drain turn.2 h).trans (ih _)
    · exact .refl h

def Network.sent (network : Network) : Nat := (network.flushes.takeWhile Flush.goesOn).length

theorem count_flushAll (flushes : List Flush) (h : History) :
    (flushAll flushes h).queue.count =
      h.queue.count - ((flushes.takeWhile Flush.goesOn).length + 1) := by
  induction flushes generalizing h with
  | nil =>
    rcases Nat.eq_zero_or_pos h.queue.count with empty | nonempty
    · simp only [flushAll, flushOne_empty empty, empty, Nat.zero_sub]
    · exact (flushOne_nonempty nonempty .noConnection).2
  | cons flush rest ih =>
    simp only [flushAll]
    rcases Nat.eq_zero_or_pos h.queue.count with empty | nonempty
    · simp only [flushOne_empty empty, empty, Nat.zero_sub, lt_irrefl, if_false]
    · obtain ⟨positive, count⟩ := flushOne_nonempty nonempty flush
      by_cases goes : flush.goesOn = true
      · rw [if_pos (positive.mpr goes), ih, count, List.takeWhile_cons_of_pos goes, List.length_cons]
        omega
      · rw [if_neg fun result => goes (positive.mp result), count,
          List.takeWhile_cons_of_neg goes, List.length_nil]

theorem count_drain (network : Network) (h : History) :
    (drain network h).queue.count = h.queue.count - (network.sent + 1) := by
  rw [drain, processAck]
  refine List.foldlRecOn (motive := fun h' : History =>
    h'.queue.count = h.queue.count - (network.sent + 1)) network.acks _
      (count_flushAll network.flushes h) fun h' count key _ => ?_
  exact (count_ack h' key.1 key.2).trans count

inductive Attempt (h : History) (b : Block) : (malloc : Bool) → PushRc → History → Prop
  | refused {malloc : Bool} (why : malloc = false ∨ h.queue.count = queueCapacity) :
    Attempt h b malloc .failed h
  | slowed (room : h.queue.count < queueCapacity)
    (deep : backpressureQueueDepth ≤ h.queue.count + 1) :
    Attempt h b true .backpressure (h.push room (entryOf b))
  | taken (room : h.queue.count < queueCapacity)
    (shallow : h.queue.count + 1 < backpressureQueueDepth) :
    Attempt h b true .ok (h.push room (entryOf b))

theorem blockBytes_fits (b : ReadBlock) : (blockBytes b.1).length ≤ queueEntryMaxPayload := by
  have total := Msgpack.blockBytes_length_le b.1
  have read := b.2
  simp only [queueEntryMaxPayload, blockSize] at *
  omega

theorem perform_refused {h : History} {b : Block} {malloc : Bool}
    (failed : queueBlock h.queue malloc b = (.failed, h.queue)) :
    perform h (pushOp b malloc) = h := by
  rw [queueBlock] at failed
  simp only [perform, pushOp, failed, if_true]

theorem push_attempt {h : History} (flagged : Flagged h.queue) (b : ReadBlock) (malloc : Bool) :
    Attempt h b.1 malloc (queueBlock h.queue malloc b.1).1 (perform h (pushOp b.1 malloc)) := by
  have bound := h.queue.count_le
  have fits := blockBytes_fits b
  by_cases why : malloc = false ∨ h.queue.count = queueCapacity
  · have failed : queueBlock h.queue malloc b.1 = (.failed, h.queue) := by
      rcases why with rfl | full
      · simp [queueBlock, queuePush]
      · simp [queueBlock, queuePush, full]
    rw [perform_refused failed, failed]
    exact .refused why
  · obtain ⟨rfl, room⟩ : malloc = true ∧ h.queue.count < queueCapacity := by
      rw [not_or, Bool.not_eq_false] at why
      exact ⟨why.1, by omega⟩
    have rc : (queueBlock h.queue true b.1).1 =
        if (fillHead h.queue room (entryOf b.1)).backpressure then .backpressure else .ok := by
      rw [queueBlock, queuePush, if_neg (Nat.not_lt.mpr fits), dif_pos room]
      rfl
    have filled : perform h (pushOp b.1 true) = h.push room (entryOf b.1) :=
      perform_push room fits b.1.devno b.1.offset (blockHash b.1.offset b.1.data)
    have flag := flagged_fillHead flagged room (entryOf b.1)
    rw [rc, filled]
    by_cases deep : backpressureQueueDepth ≤ h.queue.count + 1
    · rw [if_pos (flag.mpr deep)]
      exact .slowed room deep
    · rw [if_neg fun up => deep (flag.mp up)]
      exact .taken room (by omega)

inductive Proceeds (h : History) : Next → Prop
  | left {exit : Exit} {h' : History} (unpushed : exit ≠ .pushed) (keeps : Keeps h h') :
    Proceeds h (.leave exit h')
  | again {retry : Nat} {h' : History} (keeps : Keeps h h') : Proceeds h (.again retry h')

theorem next_proceeds (caller : Caller) (retry : Nat) (t : Turn) (h : History) :
    Proceeds h (caller.next retry t h) := by
  have drained := keeps_drain t.network h
  cases caller with
  | sendBlock =>
    simp only [Caller.next]
    split
    · split
      · exact .again (drained.trans (keeps_forceDrain t.forced _))
      · exact .again drained
    · exact .left (by decide) (.refl h)
  | doIncrementalRound =>
    simp only [Caller.next]
    split
    · split
      · exact .left (by decide) drained
      · exact .again drained
    · exact .left (by decide) (.refl h)
  | cmdIncsync => exact .again drained

theorem Attempt.again_accepted {h h' : History} {b : Block} {malloc : Bool} {rc : PushRc}
    (attempt : Attempt h b malloc rc h') (again : rc ≠ .ok) :
    ∃ n, h'.accepted = h.accepted ++ List.replicate n (entryOf b) := by
  cases attempt with
  | refused why => exact ⟨0, by simp⟩
  | slowed room deep => exact ⟨1, rfl⟩
  | taken room shallow => exact absurd rfl again

theorem pushLoop_adds (caller : Caller) (b : ReadBlock) (turns : List Turn) {retry : Nat}
    {h : History} (fifo : Fifo h) (pushed : (pushLoop caller b retry h turns).exit = .pushed) :
    ∃ n, (pushLoop caller b retry h turns).history.accepted =
      h.accepted ++ List.replicate (n + 1) (entryOf b.1) := by
  induction turns generalizing retry h with
  | nil => cases pushed
  | cons t ts ih =>
    have attempt := push_attempt fifo.flagged b t.malloc
    have fifo' := fifo_step fifo (perform_effect h (pushOp b.1 t.malloc))
    simp only [pushLoop] at pushed ⊢
    generalize (queueBlock h.queue t.malloc b.1).1 = rc,
      perform h (pushOp b.1 t.malloc) = h' at attempt fifo' pushed ⊢
    by_cases done : rc = .ok
    · subst done
      generalize t.malloc = malloc at attempt
      cases attempt with
      | taken room shallow => exact ⟨0, rfl⟩
    · have proceeds := next_proceeds caller retry t h'
      rw [if_neg done] at pushed ⊢
      generalize caller.next retry t h' = next at proceeds pushed ⊢
      cases proceeds with
      | left unpushed keeps => exact absurd pushed unpushed
      | again keeps =>
        obtain ⟨n, added⟩ := ih (keeps.fifo fifo') pushed
        obtain ⟨m, before⟩ := attempt.again_accepted done
        refine ⟨m + n, ?_⟩
        rw [added, keeps.accepted, before, List.append_assoc, List.replicate_append_replicate,
          Nat.add_assoc]

def refusedTurns (count : Nat) (turns : List Turn) : List Turn :=
  if count = queueCapacity then turns.take 1 ++ (turns.drop 1).takeWhile fun t => !t.malloc
  else turns.takeWhile fun t => !t.malloc

/-- How many entries leave the queue in the turns if there are so many: those that go out,
and the one that is dropped each time. -/
def goneIn (turns : List Turn) : Nat := (turns.map fun t => t.network.sent + 1).sum

theorem goneIn_cons (t : Turn) (ts : List Turn) :
    goneIn (t :: ts) = t.network.sent + 1 + goneIn ts := rfl

theorem refusedTurns_room {count : Nat} (room : count < queueCapacity) (turns : List Turn) :
    refusedTurns count turns = turns.takeWhile fun t => !t.malloc :=
  if_neg (Nat.ne_of_lt room)

theorem refusedTurns_cons {count : Nat} {t : Turn} (ts : List Turn)
    (why : t.malloc = false ∨ count = queueCapacity) :
    refusedTurns count (t :: ts) = t :: ts.takeWhile fun t => !t.malloc := by
  unfold refusedTurns
  split
  · rfl
  next room =>
    rw [List.takeWhile_cons_of_pos]
    simpa using why.resolve_right room

theorem forceDrain_empty {h : History} (empty : h.queue.count = 0)
    (turns : List (Bool × Network)) : forceDrain turns h = h := by
  cases turns with
  | nil => simp [forceDrain, empty]
  | cons turn rest => simp [forceDrain, empty]

def Waited (retry : Nat) (h : History) : Prop :=
  h.queue.count = 0 ∨ h.queue.count + retry ≤ queueCapacity

theorem next_again {caller : Caller} {retry retry' : Nat} {t : Turn} {h h' : History}
    (waited : Waited retry h) (again : caller.next retry t h = .again retry' h') :
    h'.queue.count = h.queue.count - (t.network.sent + 1) ∧ Waited retry' h' := by
  have drained := count_drain t.network h
  have later : Waited (retry + 1) (drain t.network h) := by
    unfold Waited at waited ⊢
    omega
  cases caller with
  | sendBlock =>
    simp only [Caller.next] at again
    split at again
    · split at again
      next forced =>
        cases again
        have empty : (drain t.network h).queue.count = 0 := by
          unfold Waited at later
          simp only [queueCapacity] at later
          omega
        rw [forceDrain_empty empty]
        exact ⟨drained, .inl empty⟩
      · cases again
        exact ⟨drained, later⟩
    · cases again
  | doIncrementalRound =>
    simp only [Caller.next] at again
    split at again
    · split at again
      · cases again
      · cases again
        exact ⟨drained, later⟩
    · cases again
  | cmdIncsync =>
    cases again
    refine ⟨drained, ?_⟩
    unfold Waited at later ⊢
    omega

theorem pushLoop_once_iff (caller : Caller) (b : ReadBlock) (turns : List Turn) {retry : Nat}
    {h : History} (fifo : Fifo h) (waited : Waited retry h)
    (pushed : (pushLoop caller b retry h turns).exit = .pushed) :
    (pushLoop caller b retry h turns).history.accepted = h.accepted ++ [entryOf b.1] ↔
      h.queue.count + 1 < backpressureQueueDepth + goneIn (refusedTurns h.queue.count turns) := by
  -- the first push that has room and memory decides; the induction goes over the turns before it
  induction turns generalizing retry h with
  | nil => cases pushed
  | cons t ts ih =>
    have attempt := push_attempt fifo.flagged b t.malloc
    have fifo' := fifo_step fifo (perform_effect h (pushOp b.1 t.malloc))
    simp only [pushLoop] at pushed ⊢
    generalize (queueBlock h.queue t.malloc b.1).1 = rc,
      perform h (pushOp b.1 t.malloc) = h' at attempt fifo' pushed ⊢
    generalize allocated : t.malloc = malloc at attempt
    cases attempt with
    | taken room shallow => exact iff_of_true rfl (by omega)
    | slowed room deep =>
      have unrefused : refusedTurns h.queue.count (t :: ts) = [] := by
        rw [refusedTurns_room room, List.takeWhile_cons_of_neg (by simp [allocated])]
      have proceeds := next_proceeds caller retry t (h.push room (entryOf b.1))
      rw [if_neg (by decide)] at pushed ⊢
      generalize caller.next retry t (h.push room (entryOf b.1)) = next at proceeds pushed ⊢
      cases proceeds with
      | left unpushed keeps => exact absurd pushed unpushed
      | again keeps =>
        -- the loop adds the block once more before it is left
        obtain ⟨n, added⟩ := pushLoop_adds caller b ts (keeps.fifo fifo') pushed
        refine iff_of_false (fun once => ?_) ?_
        · have length := congrArg List.length (added.symm.trans once)
          rw [keeps.accepted] at length
          simp only [History.push, List.length_append, List.length_replicate,
            List.length_singleton] at length
          omega
        · rw [unrefused]
          simpa [goneIn] using deep
    | refused why =>
      have proceeds := next_proceeds caller retry t h
      have after_turn {retry'} {h''} := @next_again caller retry retry' t h h'' waited
      rw [if_neg (by decide)] at pushed ⊢
      generalize caller.next retry t h = next at proceeds after_turn pushed ⊢
      cases proceeds with
      | left unpushed keeps => exact absurd pushed unpushed
      | @again retry' h'' keeps =>
        obtain ⟨count, waited'⟩ := after_turn rfl
        have bound := h.queue.count_le
        have room : h''.queue.count < queueCapacity := by
          simp only [queueCapacity] at bound ⊢
          omega
        have rest := ih (keeps.fifo fifo') waited' pushed
        rw [keeps.accepted, refusedTurns_room room] at rest
        rw [rest, refusedTurns_cons ts (allocated ▸ why), goneIn_cons, count]
        simp only [backpressureQueueDepth]
        omega

/-- A block goes into the queue once exactly if the queue is shorter than 39 at the first
push that has room and memory, which is at once unless the queue is full or malloc fails.
do_incremental_round comes to the push with at most 9 entries. -/
theorem queued_once_iff (caller : Caller) (b : ReadBlock) (ops : List Op) (turns : List Turn)
    (pushed : (enqueue caller b (after ops) turns).exit = .pushed) :
    (enqueue caller b (after ops) turns).history.accepted =
        (after ops).accepted ++ [entryOf b.1] ↔
      caller = .doIncrementalRound ∨ (after ops).queue.count + 1 <
        backpressureQueueDepth + goneIn (refusedTurns (after ops).queue.count turns) := by
  have waited : Waited 0 (after ops) := .inr (after ops).queue.count_le
  unfold enqueue at pushed ⊢
  split at pushed
  · cases pushed
  next entered =>
    rw [if_neg entered, pushLoop_once_iff caller b turns (fifo_after ops) waited pushed]
    refine ⟨.inr, fun cases => cases.elim (fun round => ?_) id⟩
    have shallow : ¬ (after ops).queue.count > deferDepth := fun deep => entered ⟨round, deep⟩
    simp only [deferDepth, backpressureQueueDepth] at shallow ⊢
    omega

theorem changedBlock_fits : [(7 : UInt8)].length ≤ blockSize := by decide

def changedBlock : ReadBlock := ⟨⟨0, 0, [7]⟩, changedBlock_fits⟩

-- everything works
def smooth : Turn := ⟨true, true, ⟨List.replicate 256 .sent, []⟩, []⟩

-- a queue of other blocks, pushed and not yet sent
def backlog (n : Nat) : List Op := List.replicate n (.push true 1 0 7 [9])

/-- The queue is full; the first flush loop sends 217 entries, so that the second push finds
38. -/
theorem queued_once_full :
    (after (backlog 256)).queue.count = 256 ∧
      (enqueue .sendBlock changedBlock (after (backlog 256))
        [⟨true, true, ⟨List.replicate 217 .sent, []⟩, []⟩, smooth]).history.accepted =
          (after (backlog 256)).accepted ++ [entryOf changedBlock.1] := by
  refine ⟨by decide +kernel, ?_⟩
  exact (queued_once_iff .sendBlock changedBlock (backlog 256) _ (by decide +kernel)).mpr
    (by decide +kernel)

theorem backlog_queued_twice :
    (after (backlog 39)).queue.count = 39 ∧ ∀ caller ∈ [Caller.sendBlock, Caller.cmdIncsync],
      (enqueue caller changedBlock (after (backlog 39)) [smooth, smooth]).exit = .pushed ∧
        (enqueue caller changedBlock (after (backlog 39)) [smooth, smooth]).history.accepted =
          (after (backlog 39)).accepted ++ [entryOf changedBlock.1, entryOf changedBlock.1] := by
  decide +kernel

theorem Attempt.ok_iff {h h' : History} {b : Block} {rc : PushRc} (attempt : Attempt h b true rc h') :
    rc = .ok ↔ h.queue.count + 1 < backpressureQueueDepth := by
  cases attempt with
  | refused why =>
    rcases why with failed | full
    · cases failed
    · simp [full, queueCapacity, backpressureQueueDepth]
  | slowed room deep => exact iff_of_false (by decide) (Nat.not_lt.mpr deep)
  | taken room shallow => exact iff_of_true rfl shallow

theorem count_again {h h' : History} {b : Block} {rc : PushRc} (attempt : Attempt h b true rc h')
    (again : rc ≠ .ok) (network : Network) :
    (drain network h').queue.count = min h.queue.count (queueCapacity - 1) - network.sent := by
  -- a turn that does not end the loop leaves the queue shorter by what went out, and one entry
  -- below full at most: the entry pushed and the entry dropped cancel
  rw [count_drain]
  cases attempt with
  | refused why =>
    rcases why with failed | full
    · cases failed
    · rw [full]
      simp only [queueCapacity]
      omega
  | slowed room deep =>
    simp only [History.push, fillHead, queueCapacity] at room ⊢
    omega
  | taken room shallow => exact absurd rfl again

def sentIn (turns : List Turn) : Nat := (turns.map fun t => t.network.sent).sum

theorem cmdIncsync_inside_iff (b : ReadBlock) (turns : List Turn)
    (allocates : ∀ t ∈ turns, t.malloc = true) (retry : Nat) {h : History} (fifo : Fifo h) :
    (pushLoop .cmdIncsync b retry h turns).exit = .inside ↔
      ∀ n < turns.length, backpressureQueueDepth + sentIn (turns.take n) ≤
        min h.queue.count (queueCapacity - 1) + 1 := by
  induction turns generalizing retry h with
  | nil => simp [pushLoop]
  | cons t ts ih =>
    obtain ⟨malloc, running, network, forced⟩ := t
    obtain ⟨rfl, later⟩ := List.forall_mem_cons.mp allocates
    have attempt := push_attempt fifo.flagged b true
    have fifo' := fifo_step fifo (perform_effect h (pushOp b.1 true))
    simp only [pushLoop, Caller.next]
    generalize (queueBlock h.queue true b.1).1 = rc,
      perform h (pushOp b.1 true) = h' at attempt fifo' ⊢
    have first : rc = .ok ↔
        ¬ backpressureQueueDepth ≤ min h.queue.count (queueCapacity - 1) + 1 := by
      rw [attempt.ok_iff]
      simp only [backpressureQueueDepth, queueCapacity]
      omega
    rw [List.length_cons, Nat.forall_lt_succ_left]
    by_cases done : rc = .ok
    · rw [if_pos done]
      exact iff_of_false (by simp) fun held => first.mp done held.1
    · have left := count_again attempt done network
      have deep := not_not.mp fun shallow => done (first.mpr shallow)
      rw [if_neg done, and_iff_right (by exact deep)]
      refine (ih later retry ((keeps_drain network h').fifo fifo')).trans (forall₂_congr fun n _ => ?_)
      simp only [left, List.take_succ_cons, sentIn, List.map_cons, List.sum_cons]
      simp only [backpressureQueueDepth, queueCapacity] at deep ⊢
      omega

theorem cmdIncsync_exit (b : ReadBlock) (turns : List Turn) {retry : Nat} {h : History} :
    (pushLoop .cmdIncsync b retry h turns).exit ≠ .pushed ↔
      (pushLoop .cmdIncsync b retry h turns).exit = .inside := by
  induction turns generalizing retry h with
  | nil => simp [pushLoop]
  | cons t ts ih =>
    simp only [pushLoop, Caller.next]
    split
    · simp
    · exact ih

/-- The loop of cmd_incsync ends exactly if, over all its turns, enough entries go out to
bring the queue below 39. A server that is gone for good takes none. -/
theorem cmdIncsync_ends_iff (b : ReadBlock) (ops : List Op) (turns : Nat → Turn)
    (allocates : ∀ n, (turns n).malloc = true) :
    (∃ n, (enqueue .cmdIncsync b (after ops) ((List.range n).map turns)).exit = .pushed) ↔
      ∃ n, min (after ops).queue.count (queueCapacity - 1) + 1 <
        backpressureQueueDepth + sentIn ((List.range n).map turns) := by
  have inside_iff (n : Nat) := cmdIncsync_inside_iff b ((List.range n).map turns)
    (List.forall_mem_map.mpr fun i _ => allocates i) 0 (fifo_after ops)
  rw [← not_iff_not]
  simp only [not_exists, not_lt, enqueue]
  constructor
  · intro never n
    have inside := (inside_iff (n + 1)).mp ((cmdIncsync_exit b _).mp (never (n + 1))) n (by simp)
    rwa [← List.map_take, List.take_range, Nat.min_eq_left (Nat.le_succ n)] at inside
  · intro little n
    refine (cmdIncsync_exit b _).mpr ((inside_iff n).mpr fun m inside => ?_)
    rw [List.length_map, List.length_range] at inside
    rw [← List.map_take, List.take_range, Nat.min_eq_left (Nat.le_of_lt inside)]
    exact little m

theorem cmdIncsync_ends_backlog :
    ∃ n, (enqueue .cmdIncsync changedBlock (after (backlog 39))
      ((List.range n).map fun _ => smooth)).exit = .pushed :=
  (cmdIncsync_ends_iff changedBlock (backlog 39) (fun _ => smooth) fun _ => rfl).mpr
    ⟨1, by decide +kernel⟩

-- there is no connection and none comes back
def serverGone : Turn := ⟨true, true, ⟨[.noConnection], []⟩, []⟩

theorem sentIn_serverGone (n : Nat) : sentIn (List.replicate n serverGone) = 0 := by
  have none : serverGone.network.sent = 0 := rfl
  simp [sentIn, none]

theorem cmdIncsync_never_ends :
    (after (backlog 39)).queue.count = 39 ∧
      ∀ n, (enqueue .cmdIncsync changedBlock (after (backlog 39))
        (List.replicate n serverGone)).exit = .inside := by
  have count : (after (backlog 39)).queue.count = 39 := by decide +kernel
  refine ⟨count, fun n => ?_⟩
  have allocates : ∀ t ∈ List.replicate n serverGone, t.malloc = true :=
    fun t member => by rw [List.eq_of_mem_replicate member]; rfl
  refine (cmdIncsync_inside_iff changedBlock _ allocates 0 (fifo_after (backlog 39))).mpr
    fun m _ => ?_
  rw [List.take_replicate, sentIn_serverGone, count]
  decide

end Go2Cloud.Enqueue
