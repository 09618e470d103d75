import Go2Cloud.Client.Queue
import Go2Cloud.Lib.Transition

/-! Runs of the send queue's operations (client/queue.c). A popped entry stays in its
slot, and its payload with the queue, until an acknowledgement of its key finds the
slot or a later push takes it; count and tail know about unsent entries only. -/
namespace Go2Cloud.QueueRun
open Protocol Queue Transition

inductive Op where
  | push (malloc : Bool) (devno : Int32) (offset : Int64) (hash : UInt64) (payload : List UInt8)
  | pop
  | ack (devno : Int32) (offset : Int64)
  | getPending (maxEntries : Int)
  deriving DecidableEq, Repr

/-- The queue with what its callers gave to it and got from it: the entries of the
accepted pushes, the copies queue_pop made, the acknowledged keys, and the keys that
were accepted and not yet removed by an acknowledgement. -/
structure History where
  queue : SendQueue
  accepted : List QueueEntry
  popped : List QueueEntry
  acked : List (Int32 × Int64)
  outstanding : List (Int32 × Int64)

def start : History := ⟨queueInit, [], [], [], []⟩

def History.push (h : History) (room : h.queue.count < queueCapacity) (e : QueueEntry) : History :=
  { h with
    queue := fillHead h.queue room e
    accepted := h.accepted ++ [e]
    outstanding := h.outstanding ++ [e.key] }

def perform (h : History) : Op → History
  | .push malloc devno offset hash payload =>
    let r := queuePush h.queue malloc devno offset hash payload
    if r.1 = .failed then { h with queue := r.2 }
    else
      { h with
        queue := r.2
        accepted := h.accepted ++ [⟨devno, offset, hash, some payload, payload.length, true⟩]
        outstanding := h.outstanding ++ [(devno, offset)] }
  | .pop =>
    match queuePop h.queue with
    | none => h
    | some (e, q) => { h with queue := q, popped := h.popped ++ [e] }
  | .ack devno offset =>
    { h with
      queue := queueAck h.queue devno offset
      acked := h.acked ++ [(devno, offset)]
      outstanding := h.outstanding.erase (devno, offset) }
  | .getPending _ => h

def step (h : History) (op : Op) : Option History := some (perform h op)

def after (ops : List Op) : History := ops.foldl perform start

theorem run_step (h : History) (ops : List Op) : run step h ops = some (ops.foldl perform h) :=
  run_total perform h ops

inductive Effect (h : History) : Op → History → Prop
  | refused {malloc : Bool} {devno : Int32} {offset : Int64} {hash : UInt64} {payload : List UInt8}
    (rc : (queuePush h.queue malloc devno offset hash payload).1 = .failed) :
    Effect h (.push malloc devno offset hash payload) h
  | accepted {malloc : Bool} {devno : Int32} {offset : Int64} {hash : UInt64} {payload : List UInt8}
    (rc : (queuePush h.queue malloc devno offset hash payload).1 ≠ .failed)
    (room : h.queue.count < queueCapacity) :
    Effect h (.push malloc devno offset hash payload)
      (h.push room ⟨devno, offset, hash, some payload, payload.length, true⟩)
  | empty : Effect h .pop h
  | popped {e : QueueEntry} {q : SendQueue} (pop : queuePop h.queue = some (e, q)) :
    Effect h .pop { h with queue := q, popped := h.popped ++ [e] }
  | acked {devno : Int32} {offset : Int64} :
    Effect h (.ack devno offset)
      { h with
        queue := queueAck h.queue devno offset
        acked := h.acked ++ [(devno, offset)]
        outstanding := h.outstanding.erase (devno, offset) }
  | listed {maxEntries : Int} : Effect h (.getPending maxEntries) h

theorem perform_effect (h : History) (op : Op) : Effect h op (perform h op) := by
  cases op with
  | push malloc devno offset hash payload =>
    simp only [perform]
    rcases queuePush_effect h.queue malloc devno offset hash payload with failed | ⟨room, rc, filled⟩
    · rw [if_pos (by rw [failed]), failed]
      exact .refused (by rw [failed])
    · rw [if_neg rc, filled]
      exact .accepted rc room
  | pop =>
    simp only [perform]
    split
    · exact .empty
    next pop => exact .popped pop
  | ack devno offset => exact .acked
  | getPending maxEntries => exact .listed

def label (e : QueueEntry) : Int32 × Int64 × UInt64 × Nat := (e.devno, e.offset, e.hash, e.payloadLen)

def contents (e : QueueEntry) : (Int32 × Int64 × UInt64 × Nat) × Option (List UInt8) :=
  (label e, e.payload)

def Flagged (q : SendQueue) : Prop := q.backpressure = true ↔ backpressureQueueDepth ≤ q.count

theorem flagged_fillHead {q : SendQueue} (h : Flagged q) (room : q.count < queueCapacity)
    (e : QueueEntry) : Flagged (fillHead q room e) := by
  simp only [Flagged, fillHead, Bool.or_eq_true, decide_eq_true_eq, ge_iff_le] at h ⊢
  rw [h]
  omega

theorem flagged_queuePop {q q' : SendQueue} {e : QueueEntry} (h : Flagged q)
    (pop : queuePop q = some (e, q')) : Flagged q' := by
  unfold queuePop at pop
  split at pop
  · cases pop
    simp only [Flagged] at h ⊢
    split
    · simp only [Bool.false_eq_true, false_iff]
      omega
    · rw [h]
      omega
  · cases pop

theorem flagged_queueAck {q : SendQueue} (h : Flagged q) (devno : Int32) (offset : Int64) :
    Flagged (queueAck q devno offset) := by
  unfold queueAck
  split <;> exact h

theorem label_queueAck (q : SendQueue) (devno : Int32) (offset : Int64) :
    (waiting (queueAck q devno offset)).map label = (waiting q).map label := by
  obtain ⟨count, tail⟩ := queueAck_place q devno offset
  simp only [waiting, List.map_map, count, tail]
  refine List.map_congr_left fun n _ => ?_
  simp only [Function.comp_apply]
  unfold queueAck
  split
  · rfl
  next slot _ =>
    by_cases here : slotAfter q.tail n = slot
    · simp [here, label]
    · simp [Function.update_of_ne here]

/-- The entries taken are those given out and those waiting, in this order; all came
with a payload. -/
structure Fifo (h : History) : Prop where
  pushed : ∀ e ∈ h.accepted, e.payload ≠ none
  order : h.accepted.map label = h.popped.map label ++ (waiting h.queue).map label
  flagged : Flagged h.queue

theorem fifo_start : Fifo start :=
  ⟨by simp [start], rfl, by simp [Flagged, start, queueInit, backpressureQueueDepth]⟩

theorem fifo_step {h h' : History} {op : Op} (fifo : Fifo h) (effect : Effect h op h') : Fifo h' := by
  cases effect with
  | refused rc => exact fifo
  | accepted rc room =>
    refine ⟨fun e member => ?_, ?_, flagged_fillHead fifo.flagged room _⟩
    · rcases List.mem_append.mp member with old | new
      · exact fifo.pushed e old
      · rw [List.mem_singleton.mp new]
        simp
    · simp only [History.push, waiting_fillHead, List.map_append, fifo.order, List.append_assoc]
  | empty => exact fifo
  | @popped e q pop =>
    refine ⟨fifo.pushed, ?_, flagged_queuePop fifo.flagged pop⟩
    simp only [fifo.order, waiting_queuePop pop, List.map_append, List.map_cons, List.map_nil,
      List.append_assoc, List.cons_append, List.nil_append]
  | acked =>
    refine ⟨fifo.pushed, ?_, flagged_queueAck fifo.flagged _ _⟩
    rw [label_queueAck]
    exact fifo.order
  | listed => exact fifo

theorem fifo_after (ops : List Op) : Fifo (after ops) :=
  List.foldlRecOn ops perform fifo_start fun h fifo op _ => fifo_step fifo (perform_effect h op)

theorem queuePush_failed_iff (q : SendQueue) (devno : Int32) (offset : Int64) (hash : UInt64)
    (payload : List UInt8) :
    (queuePush q true devno offset hash payload).1 = .failed ↔
      q.count = queueCapacity ∨ payload.length > queueEntryMaxPayload := by
  have bound := q.count_le
  unfold queuePush
  by_cases long : payload.length > queueEntryMaxPayload
  · simp [long]
  · rw [if_neg long]
    by_cases room : q.count < queueCapacity
    · have rc : ∀ flag : Bool, (if flag then PushRc.backpressure else .ok) ≠ .failed := by decide
      rw [dif_pos room, if_pos rfl]
      exact iff_of_false (rc _) (not_or.mpr ⟨Nat.ne_of_lt room, long⟩)
    · rw [dif_neg room]
      exact iff_of_true rfl (.inl (by omega))

/-- An acknowledgement does not hit an entry that is still waiting. -/
def Spares (h : History) : Op → Prop
  | .ack devno offset => ∀ slot ∈ pendingSlot h.queue devno offset,
      ∀ n < h.queue.count, slotAfter h.queue.tail n ≠ slot
  | _ => True

instance (h : History) : (op : Op) → Decidable (Spares h op)
  | .ack devno offset => Option.decidableForallMem (pendingSlot h.queue devno offset)
  | .push _ _ _ _ _ | .pop | .getPending _ => .isTrue trivial

theorem waiting_queueAck {q : SendQueue} {devno : Int32} {offset : Int64}
    (spared : ∀ slot ∈ pendingSlot q devno offset, ∀ n < q.count, slotAfter q.tail n ≠ slot) :
    waiting (queueAck q devno offset) = waiting q := by
  unfold queueAck
  split
  · rfl
  next slot found =>
    simp only [waiting]
    refine List.map_congr_left fun n member => ?_
    rw [Function.update_of_ne (spared slot found n (List.mem_range.mp member))]

theorem freed_queueAck {q : SendQueue} {devno : Int32} {offset : Int64} {slot : Fin queueCapacity}
    (found : pendingSlot q devno offset = some slot) {n : Nat} (inside : n < q.count)
    (hit : slotAfter q.tail n = slot) : ∃ e ∈ waiting (queueAck q devno offset), e.payload = none := by
  refine ⟨(queueAck q devno offset).entries slot, mem_waiting.mpr ⟨n, ?_, ?_⟩, ?_⟩
  · rw [(queueAck_place q devno offset).1]
    exact inside
  · rw [(queueAck_place q devno offset).2, hit]
  · rw [queueAck_found found]

structure Intact (h : History) : Prop where
  pushed : ∀ e ∈ h.accepted, e.payload ≠ none
  kept : h.accepted.map contents = h.popped.map contents ++ (waiting h.queue).map contents

theorem intact_start : Intact start := ⟨by simp [start], rfl⟩

theorem intact_ack_iff {h : History} {devno : Int32} {offset : Int64} :
    Intact (perform h (.ack devno offset)) ↔ Intact h ∧ Spares h (.ack devno offset) := by
  by_cases spared : Spares h (.ack devno offset)
  · have same : Intact (perform h (.ack devno offset)) ↔ Intact h := by
      refine ⟨fun intact => ⟨intact.pushed, ?_⟩, fun intact => ⟨intact.pushed, ?_⟩⟩
      · have kept := intact.kept
        simp only [perform, waiting_queueAck spared] at kept
        exact kept
      · simp only [perform, waiting_queueAck spared]
        exact intact.kept
    rw [same, and_iff_left spared]
  · refine iff_of_false (fun intact => ?_) fun intact => spared intact.2
    simp only [Spares, not_forall, not_not] at spared
    obtain ⟨slot, found, n, inside, hit⟩ := spared
    obtain ⟨e, member, gone⟩ := freed_queueAck found inside hit
    -- the freed entry is among the contents of the accepted ones, which all have a payload
    have listed : contents e ∈ (perform h (.ack devno offset)).accepted.map contents := by
      rw [intact.kept]
      exact List.mem_append_right _ (List.mem_map_of_mem member)
    obtain ⟨e', accepted, same⟩ := List.mem_map.mp listed
    exact intact.pushed e' accepted ((congrArg Prod.snd same).trans gone)

theorem intact_push_iff {h : History} (room : h.queue.count < queueCapacity) {e : QueueEntry}
    (payload : e.payload ≠ none) : Intact (h.push room e) ↔ Intact h := by
  constructor
  · intro intact
    refine ⟨fun e' member => intact.pushed e' (List.mem_append_left _ member), ?_⟩
    have kept := intact.kept
    simp only [History.push, waiting_fillHead, List.map_append, ← List.append_assoc] at kept
    exact List.append_cancel_right kept
  · intro intact
    refine ⟨fun e' member => ?_, ?_⟩
    · rcases List.mem_append.mp member with old | new
      · exact intact.pushed e' old
      · rw [List.mem_singleton.mp new]
        exact payload
    · simp only [History.push, waiting_fillHead, List.map_append, intact.kept, List.append_assoc]

theorem intact_pop_iff {h : History} {e : QueueEntry} {q : SendQueue}
    (pop : queuePop h.queue = some (e, q)) :
    Intact { h with queue := q, popped := h.popped ++ [e] } ↔ Intact h := by
  have same : (h.popped ++ [e]).map contents ++ (waiting q).map contents =
      h.popped.map contents ++ (waiting h.queue).map contents := by
    simp [waiting_queuePop pop]
  exact ⟨fun intact => ⟨intact.pushed, intact.kept.trans same⟩,
    fun intact => ⟨intact.pushed, intact.kept.trans same.symm⟩⟩

theorem intact_step {h : History} (op : Op) :
    Intact (perform h op) ↔ Intact h ∧ Spares h op := by
  have effect := perform_effect h op
  generalize next : perform h op = h' at effect ⊢
  cases effect with
  | refused rc => simp [Spares]
  | accepted rc room => simp [intact_push_iff room, Spares]
  | empty => simp [Spares]
  | popped pop => simp [intact_pop_iff pop, Spares]
  | acked => rw [← next, intact_ack_iff]
  | listed => simp [Spares]

def PopsIntact (h : History) : Prop := h.popped.map contents <+: h.accepted.map contents

instance (h : History) : Decidable (PopsIntact h) :=
  inferInstanceAs (Decidable (h.popped.map contents <+: h.accepted.map contents))

theorem Intact.pops {h : History} (intact : Intact h) (n : Nat) :
    PopsIntact ((List.replicate n Op.pop).foldl perform h) := by
  have still : Intact ((List.replicate n Op.pop).foldl perform h) := by
    refine List.foldlRecOn _ perform intact fun h intact op member => ?_
    rw [List.eq_of_mem_replicate member]
    exact (intact_step .pop).mpr ⟨intact, trivial⟩
  exact ⟨_, still.kept.symm⟩

theorem popped_all (h : History) :
    ((List.replicate h.queue.count Op.pop).foldl perform h).popped = h.popped ++ waiting h.queue ∧
      ((List.replicate h.queue.count Op.pop).foldl perform h).accepted = h.accepted := by
  generalize left : h.queue.count = n
  induction n generalizing h with
  | zero => simp [waiting, left]
  | succ n ih =>
    obtain ⟨q, pop, -, -, count⟩ := queuePop_nonempty (q := h.queue) (by omega)
    have first : perform h .pop =
        { h with queue := q, popped := h.popped ++ [h.queue.entries h.queue.tail] } := by
      simp only [perform, pop]
    rw [List.replicate_succ, List.foldl_cons, first]
    obtain ⟨all, same⟩ := ih { h with
      queue := q, popped := h.popped ++ [h.queue.entries h.queue.tail] } (by simp [count, left])
    refine ⟨?_, same⟩
    rw [all, waiting_queuePop pop, List.append_assoc, List.singleton_append]

theorem intact_of_pops {h : History} (fifo : Fifo h)
    (pops : PopsIntact ((List.replicate h.queue.count Op.pop).foldl perform h)) : Intact h := by
  obtain ⟨all, same⟩ := popped_all h
  have length := congrArg List.length fifo.order
  simp only [List.length_append, List.length_map] at length
  rw [PopsIntact, all, same, List.map_append] at pops
  exact ⟨fifo.pushed, (pops.eq_of_length (by simp [length])).symm⟩

/-- The payloads of a run, and of popping what it leaves, are those of the pushes
exactly if no acknowledgement hits an entry that still waits. -/
theorem popped_payloads_iff (ops : List Op) :
    (∀ n, PopsIntact (after (ops ++ List.replicate n .pop))) ↔ Meets step Spares start ops := by
  have exact_run := run_iff_meets (P := Intact) (fun h op h' hs => by
    obtain rfl := Option.some.inj hs
    exact intact_step op) (run_step start ops)
  rw [and_iff_right intact_start] at exact_run
  rw [← exact_run]
  simp only [after, List.foldl_append]
  constructor
  · intro pops
    exact intact_of_pops (fifo_after ops) (pops _)
  · intro intact n
    exact intact.pops n

/-- An acknowledgement answers a copy that was popped and not acknowledged before. -/
def Matched (h : History) : Op → Prop
  | .ack devno offset =>
    h.acked.count (devno, offset) < (h.popped.map QueueEntry.key).count (devno, offset)
  | _ => True

instance (h : History) : (op : Op) → Decidable (Matched h op)
  | .ack _ _ => inferInstanceAs (Decidable (_ < _))
  | .push _ _ _ _ _ | .pop | .getPending _ => .isTrue trivial

theorem perform_push {h : History} (room : h.queue.count < queueCapacity) {payload : List UInt8}
    (fits : payload.length ≤ queueEntryMaxPayload) (devno : Int32) (offset : Int64) (hash : UInt64) :
    perform h (.push true devno offset hash payload) =
      h.push room ⟨devno, offset, hash, some payload, payload.length, true⟩ := by
  have taken : (queuePush h.queue true devno offset hash payload).1 ≠ .failed := by
    rw [Ne, queuePush_failed_iff]
    omega
  rcases queuePush_effect h.queue true devno offset hash payload with failed | ⟨_, _, filled⟩
  · exact absurd (by rw [failed]) taken
  · simp only [perform, if_neg taken, filled, History.push, QueueEntry.key]

theorem perform_pop_only {h : History} (empty : h.queue.count = 0)
    (room : h.queue.count < queueCapacity) (e : QueueEntry) :
    ∃ q : SendQueue, q.count = 0 ∧ q.tail = slotAfter h.queue.tail 1 ∧
      perform (h.push room e) .pop =
        { h with
          queue := q
          accepted := h.accepted ++ [e]
          popped := h.popped ++ [e]
          outstanding := h.outstanding ++ [e.key] } := by
  have head : h.queue.head = h.queue.tail := by rw [head_eq_slotAfter, empty, slotAfter_zero]
  have read : (h.push room e).queue.entries (h.push room e).queue.tail = e := by
    simp [History.push, fillHead, head]
  obtain ⟨q, pop, -, tail, count⟩ := queuePop_nonempty (q := (h.push room e).queue) (Nat.succ_pos _)
  rw [read] at pop
  refine ⟨q, ?_, tail, ?_⟩
  · rw [count]
    simp [History.push, fillHead, empty]
  · simp only [perform, pop]
    rfl

def otherBlock : QueueEntry := ⟨1, 0, 7, some [9], 1, true⟩

def sentBlocks (n : Nat) : List Op :=
  (List.replicate n [Op.push true 1 0 7 [9], .pop]).flatten

structure SentThrough (n : Nat) (h h' : History) : Prop where
  empty : h'.queue.count = 0
  tail : h'.queue.tail = slotAfter h.queue.tail n
  accepted : h'.accepted = h.accepted ++ List.replicate n otherBlock
  popped : h'.popped = h.popped ++ List.replicate n otherBlock
  acked : h'.acked = h.acked
  outstanding : h'.outstanding = h.outstanding ++ List.replicate n (1, 0)

theorem sentThrough {h : History} (empty : h.queue.count = 0) (n : Nat) :
    SentThrough n h ((sentBlocks n).foldl perform h) := by
  induction n with
  | zero => exact ⟨empty, (slotAfter_zero _).symm, by simp [sentBlocks], by simp [sentBlocks], rfl,
      by simp [sentBlocks]⟩
  | succ n ih =>
    have split : sentBlocks (n + 1) = sentBlocks n ++ [.push true 1 0 7 [9], .pop] := by
      simp [sentBlocks, List.replicate_succ']
    have room : ((sentBlocks n).foldl perform h).queue.count < queueCapacity := by
      rw [ih.empty]
      decide
    obtain ⟨q, count, tail, popped⟩ := perform_pop_only ih.empty room otherBlock
    rw [split, List.foldl_append, List.foldl_cons, List.foldl_cons, List.foldl_nil,
      perform_push room (by decide)]
    change SentThrough (n + 1) h (perform (History.push _ room otherBlock) .pop)
    rw [popped]
    refine ⟨count, ?_, ?_, ?_, ih.acked, ?_⟩
    · rw [tail, ih.tail, slotAfter_add]
    · rw [ih.accepted, List.replicate_succ', List.append_assoc]
    · rw [ih.popped, List.replicate_succ', List.append_assoc]
    · rw [ih.outstanding, List.replicate_succ', List.append_assoc]
      rfl

theorem pendingSlot_first {q : SendQueue} {slot : Fin queueCapacity} (first : slot.val = 0)
    (pending : (q.entries slot).pending = true) :
    pendingSlot q (q.entries slot).devno (q.entries slot).offset = some slot := by
  have slots : List.finRange queueCapacity = slot :: (List.finRange 255).map Fin.succ := by
    have zero : slot = (0 : Fin 256) := Fin.ext first
    rw [zero]
    exact List.finRange_succ
  rw [pendingSlot, slots, List.find?_cons_of_pos (by simp [pending])]

def resentBlock : QueueEntry := ⟨0, 512, 5, some [1, 2, 3], 3, true⟩

def resentOps : List Op :=
  -- a block is sent and pushed again, its first copy is acknowledged, the second popped
  [.push true 0 512 5 [1, 2, 3], .pop, .push true 0 512 5 [1, 2, 3], .ack 0 512, .pop]

/-- From the last slot on, the second copy is in the first slot, and the acknowledgement
of the first copy finds it there. -/
theorem second_copy_freed {h : History} (empty : h.queue.count = 0) (last : h.queue.tail.val = 255)
    (unanswered : (0, 512) ∉ h.acked) :
    Meets step Matched h resentOps ∧
      (resentOps.foldl perform h).popped =
        h.popped ++ [resentBlock] ++ [{ resentBlock with payload := none, pending := false }] ∧
      (resentOps.foldl perform h).accepted = h.accepted ++ [resentBlock] ++ [resentBlock] := by
  have room : h.queue.count < queueCapacity := by
    rw [empty]
    decide
  obtain ⟨q, count, tail, popped⟩ := perform_pop_only empty room resentBlock
  have room' : q.count < queueCapacity := by
    rw [count]
    decide
  have head : q.head = q.tail := by rw [head_eq_slotAfter, count, slotAfter_zero]
  have first : q.head.val = 0 := by
    rw [head, tail]
    simp [slotAfter, last, queueCapacity]
  have stored : (fillHead q room' resentBlock).entries q.head = resentBlock := by simp [fillHead]
  have found : pendingSlot (fillHead q room' resentBlock) 0 512 = some q.head := by
    have hit := pendingSlot_first (q := fillHead q room' resentBlock) first (by rw [stored]; rfl)
    rwa [stored] at hit
  have nonempty : 0 < (queueAck (fillHead q room' resentBlock) 0 512).count := by
    rw [(queueAck_place _ 0 512).1]
    exact Nat.succ_pos _
  have read : (queueAck (fillHead q room' resentBlock) 0 512).entries
      (queueAck (fillHead q room' resentBlock) 0 512).tail =
        { resentBlock with payload := none, pending := false } := by
    have tail_head : (fillHead q room' resentBlock).tail = q.head := head.symm
    rw [(queueAck_place _ 0 512).2, tail_head, queueAck_found found, stored]
  obtain ⟨q', pops, -⟩ := queuePop_nonempty nonempty
  rw [read] at pops
  have pushed : perform h (.push true 0 512 5 [1, 2, 3]) = h.push room resentBlock :=
    perform_push room (by decide) 0 512 5
  have pushed' (h' : History) (same : h'.queue = q) :
      perform h' (.push true 0 512 5 [1, 2, 3]) = h'.push (by rw [same]; exact room') resentBlock :=
    perform_push _ (by decide) 0 512 5
  simp only [resentOps, Meets, step, Option.some.injEq, forall_eq', List.foldl_cons, List.foldl_nil]
  rw [pushed, popped, pushed' _ rfl]
  refine ⟨⟨trivial, trivial, trivial, ?_, trivial, trivial⟩, ?_⟩
  · have sent : resentBlock.key ∈ (h.popped ++ [resentBlock]).map QueueEntry.key :=
      List.mem_map_of_mem (List.mem_append_right _ (List.mem_singleton_self _))
    simp only [Matched, History.push, List.count_eq_zero_of_not_mem unanswered]
    exact List.count_pos_iff.mpr sent
  · simp only [perform, History.push, pops, and_self]

-- one block is acknowledged and 254 more are sent, so that the last slot is next
def lastSlotOps : List Op := sentBlocks 1 ++ [.ack 1 0] ++ sentBlocks 254

theorem lastSlot_next :
    (after lastSlotOps).queue.count = 0 ∧ (after lastSlotOps).queue.tail.val = 255 ∧
      (after lastSlotOps).popped = (after lastSlotOps).accepted ∧
      (after lastSlotOps).acked = [(1, 0)] := by
  have one : SentThrough 1 start (after (sentBlocks 1)) := sentThrough rfl 1
  obtain ⟨count, tail⟩ := queueAck_place (after (sentBlocks 1)).queue 1 0
  have rest := sentThrough (h := perform (after (sentBlocks 1)) (.ack 1 0)) (count.trans one.empty) 254
  simp only [lastSlotOps, after, List.foldl_append, List.foldl_cons, List.foldl_nil] at one rest tail ⊢
  refine ⟨rest.empty, ?_, ?_, ?_⟩
  · rw [rest.tail]
    simp only [perform, tail, one.tail]
    decide
  · rw [rest.popped, rest.accepted]
    simp only [perform, one.popped, one.accepted]
    rfl
  · rw [rest.acked]
    simp only [perform, one.acked]
    rfl

theorem meets_matched_sentBlocks (h : History) (n : Nat) : Meets step Matched h (sentBlocks n) := by
  refine meets_of_forall h fun op member h => ?_
  simp only [sentBlocks, List.mem_flatten, List.mem_replicate] at member
  obtain ⟨pair, ⟨-, rfl⟩, member⟩ := member
  rcases List.mem_pair.mp member with rfl | rfl
  · trivial
  · trivial

/-- Both acknowledgements answer a copy that was sent, yet the copy that is still in the
queue comes out without its payload. -/
theorem popped_payload_freed :
    Meets step Matched start (lastSlotOps ++ resentOps) ∧
      ¬ PopsIntact (after (lastSlotOps ++ resentOps)) := by
  obtain ⟨empty, last, popped, acked⟩ := lastSlot_next
  obtain ⟨matched, given, taken⟩ := second_copy_freed empty last (by rw [acked]; decide)
  constructor
  · have first : Matched (after (sentBlocks 1)) (.ack 1 0) := by
      decide
    simp only [lastSlotOps, meets_append, run_step, Option.some.injEq, forall_eq', List.append_assoc]
    refine ⟨meets_matched_sentBlocks _ _, ⟨first, fun _ _ => trivial⟩, meets_matched_sentBlocks _ _, ?_⟩
    simpa only [lastSlotOps, after, List.foldl_append] using matched
  · intro intact
    rw [PopsIntact, after, List.foldl_append, ← after, given, taken, popped] at intact
    -- both lists are equally long, so their last entries would be the same
    have same := intact.eq_of_length (by simp)
    simp only [List.map_append] at same
    exact absurd (List.append_cancel_left same) (by decide)

def Fresh (h : History) : Op → Prop
  | .push malloc devno offset hash payload =>
    (queuePush h.queue malloc devno offset hash payload).1 ≠ .failed →
      (h.queue.entries h.queue.head).pending = false
  | _ => True

def Accounted (h : History) : Prop :=
  (Slots.held QueueEntry.pendingKey h.queue.entries).Perm h.outstanding

theorem accounted_push_iff {h : History} (accounted : Accounted h)
    (room : h.queue.count < queueCapacity) {e : QueueEntry} (pending : e.pending = true) :
    Accounted (h.push room e) ↔ (h.queue.entries h.queue.head).pending = false := by
  have exchange := Slots.held_update QueueEntry.pendingKey h.queue.entries h.queue.head e
  have new : e.pendingKey = some e.key := by simp [QueueEntry.pendingKey, pending]
  rw [new, Option.toList_some] at exchange
  cases old : (h.queue.entries h.queue.head).pending with
  | false =>
    have none_held : (h.queue.entries h.queue.head).pendingKey = none := by
      simp [QueueEntry.pendingKey, old]
    rw [none_held, Option.toList_none, List.append_nil] at exchange
    exact iff_of_true (exchange.trans (List.Perm.append_right [e.key] accounted)) rfl
  | true =>
    refine iff_of_false (fun perm => ?_) (by simp)
    -- the slot's old key is gone, so one key is missing
    have length := exchange.length_eq
    have before := accounted.length_eq
    have now : (Slots.held QueueEntry.pendingKey (h.push room e).queue.entries).length =
        (h.push room e).outstanding.length := perm.length_eq
    simp only [History.push, fillHead, QueueEntry.pendingKey, old, if_true, Option.toList_some,
      List.length_append, List.length_singleton] at length now before
    omega

theorem pendingSlot_some {q : SendQueue} {devno : Int32} {offset : Int64} {slot : Fin queueCapacity}
    (found : pendingSlot q devno offset = some slot) :
    (q.entries slot).pendingKey = some (devno, offset) := by
  have match_slot := List.find?_some found
  simp only [Bool.and_eq_true, beq_iff_eq] at match_slot
  obtain ⟨⟨pending, rfl⟩, rfl⟩ := match_slot
  simp [QueueEntry.pendingKey, QueueEntry.key, pending]

theorem pendingSlot_none {q : SendQueue} {devno : Int32} {offset : Int64}
    (missing : pendingSlot q devno offset = none) :
    (devno, offset) ∉ Slots.held QueueEntry.pendingKey q.entries := by
  intro member
  obtain ⟨i, key⟩ := Slots.mem_held.mp member
  have no_match := List.find?_eq_none.mp missing i (List.mem_finRange i)
  simp only [QueueEntry.pendingKey, QueueEntry.key] at key
  split at key
  next pending =>
    obtain ⟨rfl, rfl⟩ := Prod.mk.inj (Option.some.inj key)
    simp [pending] at no_match
  · cases key

theorem accounted_ack {h : History} (accounted : Accounted h) (devno : Int32) (offset : Int64) :
    Accounted (perform h (.ack devno offset)) := by
  simp only [Accounted, perform, queueAck]
  split
  next missing =>
    have absent : (devno, offset) ∉ h.outstanding := fun member =>
      pendingSlot_none missing (accounted.mem_iff.mpr member)
    rw [List.erase_of_not_mem absent]
    exact accounted
  next slot found =>
    have exchange := Slots.held_update QueueEntry.pendingKey h.queue.entries slot
      { h.queue.entries slot with pending := false, payload := none }
    have idle : QueueEntry.pendingKey
        { h.queue.entries slot with pending := false, payload := none } = none := by
      simp [QueueEntry.pendingKey]
    rw [pendingSlot_some found, idle, Option.toList_some, Option.toList_none, List.append_nil]
      at exchange
    have erased := (List.perm_append_comm.trans (exchange.trans accounted)).erase (devno, offset)
    rwa [List.singleton_append, List.erase_cons_head] at erased

theorem accounted_step {h : History} (accounted : Accounted h) (op : Op) :
    Accounted (perform h op) ↔ Fresh h op := by
  have effect := perform_effect h op
  generalize next : perform h op = h' at effect ⊢
  cases effect with
  | refused rc => simp [Fresh, accounted, rc]
  | accepted rc room => simp [accounted_push_iff accounted room, Fresh, rc]
  | empty => simp [Fresh, accounted]
  | @popped e q pop =>
    have entries : q.entries = h.queue.entries := by
      simp only [queuePop] at pop
      split at pop <;> cases pop
      rfl
    refine iff_of_true ?_ trivial
    rw [Accounted, entries]
    exact accounted
  | acked =>
    rw [← next]
    exact iff_of_true (accounted_ack accounted _ _) trivial
  | listed => simp [Fresh, accounted]

theorem queueGetPending_all (q : SendQueue) {n : Int} (enough : (queueCapacity : Int) ≤ n) :
    queueGetPending q n = Slots.held QueueEntry.pendingKey q.entries := by
  have few := Slots.held_length_le QueueEntry.pendingKey q.entries
  rw [queueGetPending, List.take_of_length_le (by omega)]

/-- queue_get_pending reports the keys accepted and not yet acknowledged, all the way
along a run, exactly if no push of the run goes into a slot that is still pending. -/
theorem pending_reports_outstanding_iff (ops : List Op) :
    (∀ pre, pre <+: ops → ∀ n : Int, (queueCapacity : Int) ≤ n →
      (queueGetPending (after pre).queue n).Perm (after pre).outstanding) ↔
      Meets step Fresh start ops := by
  have begin_empty : Accounted start := by
    have nothing : Slots.held QueueEntry.pendingKey start.queue.entries = [] := by
      simp [Slots.held, start, queueInit, QueueEntry.zeroed, QueueEntry.pendingKey]
    rw [Accounted, nothing]
    exact List.Perm.refl _
  rw [← always_iff_meets (P := Accounted) (fun h op h' accounted hs => by
    obtain rfl := Option.some.inj hs
    exact accounted_step accounted op) (run_step start ops) begin_empty]
  simp only [run_step, Option.some.injEq, forall_eq']
  constructor
  · intro reports pre within
    have report := reports pre within queueCapacity le_rfl
    rwa [queueGetPending_all _ le_rfl] at report
  · intro accounted pre within n enough
    rw [queueGetPending_all _ enough]
    exact accounted pre within

/-- After one turn of the ring without acknowledgements a push takes the slot of a block
that was sent and not acknowledged: 257 keys are outstanding, 256 are reported. -/
theorem pending_block_overwritten :
    ¬ (queueGetPending (after (sentBlocks 257)).queue queueCapacity).Perm
      (after (sentBlocks 257)).outstanding := by
  intro perm
  have length := perm.length_eq
  have reported := Slots.held_length_le QueueEntry.pendingKey (after (sentBlocks 257)).queue.entries
  rw [queueGetPending_all _ le_rfl] at length
  have sent : SentThrough 257 start (after (sentBlocks 257)) := sentThrough rfl 257
  rw [sent.outstanding, List.length_append, List.length_replicate] at length
  rw [length] at reported
  exact absurd reported (by decide)

end Go2Cloud.QueueRun
