import Go2Cloud.Lib.Slots
import Go2Cloud.Protocol
import Mathlib.Logic.Function.Basic

/-! The client's send queue (client/queue.c): a ring of 256 slots whose payloads
stay owned by the queue until they are acknowledged or overwritten. -/
namespace Go2Cloud.Queue
open Protocol

def queueCapacity : Nat := 256
def queueEntryMaxPayload : Nat := 0x100000 + 256

/-- A slot; the payload is `none` where the source has a null pointer. -/
structure QueueEntry where
  devno : Int32
  offset : Int64
  hash : UInt64
  payload : Option (List UInt8)
  payloadLen : Nat
  pending : Bool
  deriving DecidableEq, Repr

def QueueEntry.zeroed : QueueEntry := ⟨0, 0, 0, none, 0, false⟩

def QueueEntry.key (e : QueueEntry) : Int32 × Int64 := (e.devno, e.offset)

structure SendQueue where
  entries : Fin queueCapacity → QueueEntry
  head : Fin queueCapacity
  tail : Fin queueCapacity
  count : Nat
  backpressure : Bool
  count_le : count ≤ queueCapacity
  ring : head.val = (tail.val + count) % queueCapacity

def slotAfter (i : Fin queueCapacity) (n : Nat) : Fin queueCapacity :=
  ⟨(i.val + n) % queueCapacity, Nat.mod_lt _ (by decide)⟩

def queueInit : SendQueue where
  entries := fun _ => .zeroed
  head := ⟨0, by decide⟩
  tail := ⟨0, by decide⟩
  count := 0
  backpressure := false
  count_le := Nat.zero_le _
  ring := rfl

inductive PushRc where
  -- return values 0, 2 and -1 of queue_push
  | ok
  | backpressure
  | failed
  deriving DecidableEq, Repr

def fillHead (q : SendQueue) (room : q.count < queueCapacity) (entry : QueueEntry) : SendQueue where
  entries := Function.update q.entries q.head entry
  head := slotAfter q.head 1
  tail := q.tail
  count := q.count + 1
  backpressure := q.backpressure || decide (q.count + 1 ≥ backpressureQueueDepth)
  count_le := room
  ring := by
    have ring := q.ring
    simp only [slotAfter, queueCapacity] at *
    omega

/-- With backpressure on, the entry is in the queue although the result is 2. -/
def queuePush (q : SendQueue) (malloc : Bool) (devno : Int32) (offset : Int64) (hash : UInt64)
    (payload : List UInt8) : PushRc × SendQueue :=
  if payload.length > queueEntryMaxPayload then (.failed, q)
  else if room : q.count < queueCapacity then
    if malloc then
      let q' := fillHead q room ⟨devno, offset, hash, some payload, payload.length, true⟩
      (if q'.backpressure then .backpressure else .ok, q')
    else (.failed, q)
  else (.failed, q)

def queuePop (q : SendQueue) : Option (QueueEntry × SendQueue) :=
  -- the entry at the tail, still owned by the queue
  if nonempty : 0 < q.count then
    let count := q.count - 1
    let q' : SendQueue :=
      { entries := q.entries
        head := q.head
        tail := slotAfter q.tail 1
        count := count
        backpressure := if count < backpressureQueueDepth then false else q.backpressure
        count_le := le_trans (Nat.sub_le _ _) q.count_le
        ring := by
          have ring := q.ring
          simp only [count, slotAfter, queueCapacity] at *
          omega }
    some (q.entries q.tail, q')
  else none

def pendingSlot (q : SendQueue) (devno : Int32) (offset : Int64) : Option (Fin queueCapacity) :=
  (List.finRange queueCapacity).find? fun i =>
    (q.entries i).pending && (q.entries i).devno == devno && (q.entries i).offset == offset

def queueAck (q : SendQueue) (devno : Int32) (offset : Int64) : SendQueue :=
  match pendingSlot q devno offset with
  | none => q
  | some i =>
    { q with
      entries := Function.update q.entries i
        { q.entries i with pending := false, payload := none } }

def QueueEntry.pendingKey (e : QueueEntry) : Option (Int32 × Int64) :=
  if e.pending then some e.key else none

def queueGetPending (q : SendQueue) (maxEntries : Int) : List (Int32 × Int64) :=
  (Slots.held QueueEntry.pendingKey q.entries).take maxEntries.toNat

theorem queuePush_effect (q : SendQueue) (malloc : Bool) (devno : Int32) (offset : Int64)
    (hash : UInt64) (payload : List UInt8) :
    queuePush q malloc devno offset hash payload = (.failed, q) ∨
      ∃ room : q.count < queueCapacity, (queuePush q malloc devno offset hash payload).1 ≠ .failed ∧
        (queuePush q malloc devno offset hash payload).2 =
          fillHead q room ⟨devno, offset, hash, some payload, payload.length, true⟩ := by
  unfold queuePush
  split
  · exact .inl rfl
  split
  next room =>
    split
    · refine .inr ⟨room, ?_, rfl⟩
      simp only
      split <;> simp
    · exact .inl rfl
  · exact .inl rfl

theorem queuePush_below {q : SendQueue} (quiet : q.backpressure = false)
    (below : q.count + 1 < backpressureQueueDepth) (malloc : Bool) (devno : Int32) (offset : Int64)
    (hash : UInt64) (payload : List UInt8) :
    queuePush q malloc devno offset hash payload = (.failed, q) ∨
      (queuePush q malloc devno offset hash payload).1 = .ok := by
  unfold queuePush
  split
  · exact .inl rfl
  split
  · split
    · right
      simp [fillHead, quiet, below]
    · exact .inl rfl
  · exact .inl rfl

/-- The entries that queue_pop has yet to return, oldest first. -/
def waiting (q : SendQueue) : List QueueEntry :=
  (List.range q.count).map fun n => q.entries (slotAfter q.tail n)

theorem mem_waiting {q : SendQueue} {e : QueueEntry} :
    e ∈ waiting q ↔ ∃ n < q.count, q.entries (slotAfter q.tail n) = e := by
  simp [waiting]

theorem head_eq_slotAfter (q : SendQueue) : q.head = slotAfter q.tail q.count := by
  apply Fin.ext
  exact q.ring

theorem slotAfter_ne_head {q : SendQueue} (room : q.count < queueCapacity) {n : Nat}
    (h : n < q.count) : slotAfter q.tail n ≠ q.head := by
  rw [head_eq_slotAfter]
  intro same
  have value := congrArg Fin.val same
  simp only [slotAfter, queueCapacity] at value room
  omega

theorem slotAfter_add (i : Fin queueCapacity) (m n : Nat) :
    slotAfter (slotAfter i m) n = slotAfter i (m + n) := by
  apply Fin.ext
  simp only [slotAfter, queueCapacity]
  omega

theorem slotAfter_succ (i : Fin queueCapacity) (n : Nat) :
    slotAfter i (n + 1) = slotAfter (slotAfter i 1) n := by
  rw [slotAfter_add, Nat.add_comm]

theorem slotAfter_zero (i : Fin queueCapacity) : slotAfter i 0 = i := by
  apply Fin.ext
  exact Nat.mod_eq_of_lt i.isLt

theorem waiting_fillHead {q : SendQueue} (room : q.count < queueCapacity) (e : QueueEntry) :
    waiting (fillHead q room e) = waiting q ++ [e] := by
  simp only [waiting, fillHead, List.range_succ, List.map_append, List.map_cons, List.map_nil]
  congr 1
  · refine List.map_congr_left fun n hn => ?_
    rw [Function.update_of_ne (slotAfter_ne_head room (List.mem_range.mp hn))]
  · rw [← head_eq_slotAfter, Function.update_self]

theorem waiting_queuePop {q q' : SendQueue} {e : QueueEntry} (h : queuePop q = some (e, q')) :
    waiting q = e :: waiting q' := by
  unfold queuePop at h
  split at h
  next nonempty =>
    cases h
    obtain ⟨n, hn⟩ : ∃ n, q.count = n + 1 := ⟨q.count - 1, by omega⟩
    simp only [waiting, hn, List.range_succ_eq_map, List.map_cons, List.map_map, slotAfter_zero,
      Nat.add_sub_cancel]
    congr 1
    refine List.map_congr_left fun m _ => ?_
    rw [Function.comp_apply, slotAfter_succ]
  · cases h

theorem queuePop_nonempty {q : SendQueue} (nonempty : 0 < q.count) :
    ∃ q', queuePop q = some (q.entries q.tail, q') ∧ q'.entries = q.entries ∧
      q'.tail = slotAfter q.tail 1 ∧ q'.count = q.count - 1 := by
  rw [queuePop, dif_pos nonempty]
  exact ⟨_, rfl, rfl, rfl, rfl⟩

theorem queueAck_found {q : SendQueue} {devno : Int32} {offset : Int64} {slot : Fin queueCapacity}
    (found : pendingSlot q devno offset = some slot) :
    (queueAck q devno offset).entries slot =
      { q.entries slot with pending := false, payload := none } := by
  simp only [queueAck, found, Function.update_self]

theorem queueAck_entry (q : SendQueue) (devno : Int32) (offset : Int64) (i : Fin queueCapacity) :
    ((queueAck q devno offset).entries i).key = (q.entries i).key ∧
      ((queueAck q devno offset).entries i).hash = (q.entries i).hash := by
  unfold queueAck
  split
  · exact ⟨rfl, rfl⟩
  next slot _ =>
    by_cases here : i = slot
    · subst here
      simp [QueueEntry.key]
    · simp [Function.update_of_ne here]

theorem queueAck_place (q : SendQueue) (devno : Int32) (offset : Int64) :
    (queueAck q devno offset).count = q.count ∧ (queueAck q devno offset).tail = q.tail := by
  unfold queueAck
  split <;> exact ⟨rfl, rfl⟩

theorem mem_waiting_queueAck {q : SendQueue} {e : QueueEntry} (h : e ∈ waiting q) (devno : Int32)
    (offset : Int64) : ∃ e' ∈ waiting (queueAck q devno offset), e'.key = e.key ∧ e'.hash = e.hash := by
  obtain ⟨n, hn, rfl⟩ := mem_waiting.mp h
  obtain ⟨count, tail⟩ := queueAck_place q devno offset
  refine ⟨_, mem_waiting.mpr ⟨n, by rw [count]; exact hn, rfl⟩, ?_⟩
  rw [tail]
  exact queueAck_entry q devno offset _

theorem mem_of_waiting_queueAck {q : SendQueue} {e : QueueEntry} {devno : Int32} {offset : Int64}
    (h : e ∈ waiting (queueAck q devno offset)) :
    ∃ e' ∈ waiting q, e.key = e'.key ∧ e.hash = e'.hash := by
  obtain ⟨n, hn, rfl⟩ := mem_waiting.mp h
  obtain ⟨count, tail⟩ := queueAck_place q devno offset
  rw [count] at hn
  refine ⟨_, mem_waiting.mpr ⟨n, hn, rfl⟩, ?_⟩
  rw [tail]
  exact queueAck_entry q devno offset _

end Go2Cloud.Queue
