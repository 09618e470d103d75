import Go2Cloud.Client.QueueRun
import Go2Cloud.Lib.Slots

/-! The payload buffers of the send queue (client/queue.c). Each accepted push allocates one; it is
freed by the acknowledgement that finds its slot, by the push that takes the slot again, or by
queue_destroy. Buffers are numbered in the order they were allocated. -/
namespace Go2Cloud.QueueHeap
open scoped List
open Queue QueueRun Transition Slots

/-- The queue with the pointers in its slots. -/
structure Heap where
  queue : SendQueue
  buffer : Fin queueCapacity → Option Nat
  allocated : Nat
  freed : List Nat

def start : Heap := ⟨queueInit, fun _ => none, 0, []⟩

def perform (h : Heap) : Op → Heap
  | .push malloc devno offset hash payload =>
    let r := queuePush h.queue malloc devno offset hash payload
    if r.1 = .failed then { h with queue := r.2 }
    else
      { queue := r.2
        buffer := Function.update h.buffer h.queue.head (some h.allocated)
        allocated := h.allocated + 1
        freed := h.freed ++ (h.buffer h.queue.head).toList }
  | .pop =>
    match queuePop h.queue with
    | none => h
    | some (_, q) => { h with queue := q }
  | .ack devno offset =>
    match pendingSlot h.queue devno offset with
    | none => h
    | some i =>
      { h with
        queue := queueAck h.queue devno offset
        buffer := Function.update h.buffer i none
        freed := h.freed ++ (h.buffer i).toList }
  | .getPending _ => h

def step (h : Heap) (op : Op) : Option Heap := some (perform h op)

def queueDestroy (h : Heap) : List Nat := h.freed ++ held id h.buffer

structure Owned (h : Heap) : Prop where
  once : h.freed ++ held id h.buffer ~ List.range h.allocated
  pointers : ∀ i, (h.queue.entries i).payload.isSome = (h.buffer i).isSome

theorem owned_start : Owned start where
  once := by simp [start, held]
  pointers i := rfl

theorem freed_update {freed live : List Nat} {buffer : Fin queueCapacity → Option Nat}
    (h : freed ++ held id buffer ~ live) (i : Fin queueCapacity) (b : Option Nat) :
    freed ++ (buffer i).toList ++ held id (Function.update buffer i b) ~ live ++ b.toList := by
  have exchange := held_update id buffer i b
  calc freed ++ (buffer i).toList ++ held id (Function.update buffer i b)
    _ = freed ++ ((buffer i).toList ++ held id (Function.update buffer i b)) := List.append_assoc ..
    _ ~ freed ++ (held id (Function.update buffer i b) ++ (buffer i).toList) :=
      List.perm_append_comm.append_left _
    _ ~ freed ++ (held id buffer ++ b.toList) := exchange.append_left _
    _ = freed ++ held id buffer ++ b.toList := (List.append_assoc ..).symm
    _ ~ live ++ b.toList := h.append_right _

theorem pointers_update {entries : Fin queueCapacity → QueueEntry}
    {buffer : Fin queueCapacity → Option Nat}
    (h : ∀ i, (entries i).payload.isSome = (buffer i).isSome) {slot : Fin queueCapacity}
    {e : QueueEntry} {b : Option Nat} (same : e.payload.isSome = b.isSome) (i : Fin queueCapacity) :
    (Function.update entries slot e i).payload.isSome = (Function.update buffer slot b i).isSome := by
  by_cases here : i = slot
  · rw [here, Function.update_self, Function.update_self]
    exact same
  · rw [Function.update_of_ne here, Function.update_of_ne here]
    exact h i

theorem Owned.push {h : Heap} (owned : Owned h) (malloc : Bool) (devno : Int32) (offset : Int64)
    (hash : UInt64) (payload : List UInt8) :
    Owned (perform h (.push malloc devno offset hash payload)) := by
  simp only [perform]
  rcases queuePush_effect h.queue malloc devno offset hash payload with
    failed | ⟨room, taken, filled⟩
  · rw [failed, if_pos rfl]
    exact owned
  · rw [if_neg taken, filled]
    refine ⟨?_, pointers_update owned.pointers rfl⟩
    rw [List.range_succ]
    exact freed_update owned.once h.queue.head (some h.allocated)

theorem Owned.ack {h : Heap} (owned : Owned h) (devno : Int32) (offset : Int64) :
    Owned (perform h (.ack devno offset)) := by
  simp only [perform]
  split
  · exact owned
  next i found =>
    refine ⟨?_, ?_⟩
    · have freed := freed_update owned.once i none
      rwa [Option.toList_none, List.append_nil] at freed
    · simp only [queueAck, found]
      exact pointers_update owned.pointers rfl

theorem owned_step (h : Heap) (op : Op) (h' : Heap) (owned : Owned h) (next : step h op = some h') :
    Owned h' := by
  cases next
  cases op with
  | push malloc devno offset hash payload => exact owned.push malloc devno offset hash payload
  | pop =>
    simp only [perform]
    split
    · exact owned
    next e q pop =>
      refine ⟨owned.once, ?_⟩
      have same : q.entries = h.queue.entries := by
        unfold queuePop at pop
        split at pop
        · cases pop
          rfl
        · cases pop
      rw [same]
      exact owned.pointers
  | ack devno offset => exact owned.ack devno offset
  | getPending maxEntries => exact owned

/-- Whatever is pushed, popped and acknowledged: once the queue is destroyed every payload buffer
has been freed exactly once, before that no slot points to a freed one, and at most 256 are
allocated at a time. -/
theorem payloads_freed_once (ops : List Op) (h : Heap) (runs : run step start ops = some h) :
    queueDestroy h ~ List.range h.allocated ∧
      (∀ i b, h.buffer i = some b → b ∉ h.freed) ∧
      h.allocated ≤ h.freed.length + queueCapacity ∧
      ∀ i, (h.queue.entries i).payload.isSome = (h.buffer i).isSome := by
  have owned : Owned h := run_invariant owned_step runs owned_start
  refine ⟨owned.once, fun i b here freed => ?_, ?_, owned.pointers⟩
  · have distinct := owned.once.nodup_iff.mpr List.nodup_range
    exact (List.nodup_append.mp distinct).2.2 b freed b (mem_held.mpr ⟨i, here⟩) rfl
  · have total := owned.once.length_eq
    have live := held_length_le id h.buffer
    rw [List.length_append, List.length_range] at total
    omega

def pushedTwice : List Op := [.push true 0 512 7 [1, 2, 3], .pop, .push true 0 512 7 [4], .ack 0 512]

theorem payloads_freed_once_pushedTwice :
    ∃ h, run step start pushedTwice = some h ∧ h.allocated = 2 ∧ queueDestroy h ~ List.range 2 := by
  refine ⟨_, rfl, by decide +kernel, ?_⟩
  exact (payloads_freed_once pushedTwice _ rfl).1

end Go2Cloud.QueueHeap
