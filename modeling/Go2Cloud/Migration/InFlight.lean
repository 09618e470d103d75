import Go2Cloud.Migration.Model

/-! What the ring slots and the frames under way carry: encoded blocks, all of
which satisfy whatever the blocks entering a push loop satisfy. -/
namespace Go2Cloud.Migration
open Protocol Queue Reader Tracker Round Decoder BlockWriter Receiver
open Msgpack (blockBytes)

structure Carries (P : Block → Prop) (s : Sys) : Prop where
  slots : ∀ i payload, (s.queue.entries i).payload = some payload →
    ∃ b : ReadBlock, P b.1 ∧ s.queue.entries i = entryOf b.1
  frames : ∀ f ∈ s.sent, ∀ payload, f.body = .data payload →
    ∃ b : ReadBlock, P b.1 ∧ payload = blockBytes b.1
  under_way : ∀ c, ∀ f ∈ s.up c, f ∈ s.sent

variable {P : Block → Prop} {cfg : Config} {s s' : Sys}

theorem carries_init (w : Writer) : Carries P (init w) where
  slots := by simp [init, queueInit, QueueEntry.zeroed]
  frames := by simp [init]
  under_way := by simp [init]

theorem carries_resumed (db : BlockTable) (w : Writer) : Carries P (resumed db w) :=
  have fresh : Carries P (init w) := carries_init w
  ⟨fresh.slots, fresh.frames, fresh.under_way⟩

theorem ReadBlock.msg (b : ReadBlock) : (Body.data (blockBytes b.1)).msg = .ok (.block b.1) := by
  have small : b.1.data.length < 2 ^ 32 := by
    have size : blockSize = 0x100000 := rfl
    have fits := b.2
    omega
  rw [Body.msg, msgpackDecodeBlock_blockBytes b.1 small]
  rfl

theorem Carries.decodes (h : Carries P s) {c : Conn} {f : Frame} (member : f ∈ s.up c) :
    (∃ ctl, f.body = .control ctl ∧ f.body.msg = .ok (.control ctl)) ∨
      ∃ b : ReadBlock, P b.1 ∧ f.body = .data (blockBytes b.1) ∧ f.body.msg = .ok (.block b.1) := by
  cases body : f.body with
  | control ctl => exact .inl ⟨ctl, rfl, rfl⟩
  | data payload =>
    obtain ⟨b, property, rfl⟩ := h.frames f (h.under_way c f member) payload body
    exact .inr ⟨b, property, rfl, b.msg⟩

theorem Carries.block (h : Carries P s) {c : Conn} {f : Frame} (member : f ∈ s.up c) {b : Block}
    (msg : f.body.msg = .ok (.block b)) : P b := by
  rcases h.decodes member with ⟨ctl, -, ok⟩ | ⟨b', property, -, ok⟩
  · rw [ok] at msg
    cases msg
  · rw [ok] at msg
    cases msg
    exact property

theorem Carries.never_lost (h : Carries P s) {c : Conn} {f : Frame} {rest : List Frame}
    {err : DecodeErr} (head : s.up c = f :: rest) (bad : f.body.msg = .error err) : False := by
  have member : f ∈ s.up c := head ▸ List.mem_cons_self
  rcases h.decodes member with ⟨ctl, -, ok⟩ | ⟨b, -, -, ok⟩ <;> simp [ok] at bad

theorem Carries.filled (h : Carries P s) {b : ReadBlock} (property : P b.1)
    (room : s.queue.count < queueCapacity) (i : Fin queueCapacity) (payload : List UInt8)
    (some_payload : ((fillHead s.queue room (entryOf b.1)).entries i).payload = some payload) :
    ∃ b' : ReadBlock, P b'.1 ∧ (fillHead s.queue room (entryOf b.1)).entries i = entryOf b'.1 := by
  simp only [fillHead] at some_payload ⊢
  by_cases here : i = s.queue.head
  · subst here
    exact ⟨b, property, Function.update_self ..⟩
  · rw [Function.update_of_ne here] at some_payload ⊢
    exact h.slots i payload some_payload

theorem Carries.freed (h : Carries P s) (devno : Int32) (offset : Int64) (i : Fin queueCapacity)
    (payload : List UInt8)
    (some_payload : ((queueAck s.queue devno offset).entries i).payload = some payload) :
    ∃ b : ReadBlock, P b.1 ∧ (queueAck s.queue devno offset).entries i = entryOf b.1 := by
  unfold queueAck at some_payload ⊢
  split
  next none_pending =>
    simp only [none_pending] at some_payload
    exact h.slots i payload some_payload
  next slot found =>
    simp only [found] at some_payload ⊢
    by_cases here : i = slot
    · subst here
      simp at some_payload
    · rw [Function.update_of_ne here] at some_payload ⊢
      exact h.slots i payload some_payload

theorem queuePop_entries {q q' : SendQueue} {e : QueueEntry} (h : queuePop q = some (e, q')) :
    q'.entries = q.entries ∧ e = q.entries q.tail := by
  unfold queuePop at h
  split at h
  · cases h
    exact ⟨rfl, rfl⟩
  · cases h

theorem Carries.tail_block (h : Carries P s) {e : QueueEntry} {q : SendQueue}
    {payload : List UInt8} (pop : queuePop s.queue = some (e, q)) (bytes : e.payload = some payload)
    (id : Nat) :
    ∃ b : Block, (Frame.mk id (.data payload)).block = some b ∧ b.key = e.key ∧
      blockHash b.offset b.data = e.hash := by
  have slot := (queuePop_entries pop).2
  obtain ⟨b, -, filled⟩ := h.slots s.queue.tail payload (slot ▸ bytes)
  rw [slot, filled] at bytes
  obtain rfl : blockBytes b.1 = payload := Option.some.inj bytes
  refine ⟨b.1, Frame.block_eq_some.mpr b.msg, ?_⟩
  rw [slot, filled]
  exact ⟨rfl, rfl⟩

theorem Carries.popped (h : Carries P s) {e : QueueEntry} {q : SendQueue}
    (pop : queuePop s.queue = some (e, q)) :
    Carries P { s with queue := q } where
  slots := by
    rw [(queuePop_entries pop).1]
    exact h.slots
  frames := h.frames
  under_way := h.under_way

theorem Carries.sends (h : Carries P s) (c : Conn) {body : Body}
    (carried : ∀ payload, body = .data payload → ∃ b : ReadBlock, P b.1 ∧ payload = blockBytes b.1) :
    Carries P (sendFrame s c body) where
  slots := h.slots
  frames f member payload is_data := by
    rcases mem_sendFrame_sent.mp member with old | rfl
    · exact h.frames f old payload is_data
    · exact carried payload is_data
  under_way c' f member := by
    rcases mem_sendFrame_up.mp member with old | ⟨-, rfl⟩
    · exact mem_sendFrame_sent.mpr (.inl (h.under_way c' f old))
    · exact mem_sendFrame_sent.mpr (.inr rfl)

theorem step_carries {a : Action} (h : Carries P s)
    (pushing : ∀ b pusher, s.pc = .pushing b pusher → P b.1) (st : Step cfg s a s') :
    Carries P s' := by
  cases st with
  | moved moves => exact ⟨h.slots, h.frames, h.under_way⟩
  | deferred push room => exact ⟨h.filled (pushing _ _ push) room, h.frames, h.under_way⟩
  | recorded push room => exact ⟨h.filled (pushing _ _ push) room, h.frames, h.under_way⟩
  | dropped pop unsent => exact h.popped pop
  | crashed pop => exact ⟨(h.popped pop).slots, h.frames, h.under_way⟩
  | flushed pop bytes =>
    refine (h.popped pop).sends _ fun payload is_data => ?_
    obtain ⟨b, property, slot⟩ :=
      h.slots s.queue.tail _ (by rw [← (queuePop_entries pop).2]; exact bytes)
    cases is_data
    rw [(queuePop_entries pop).2, slot] at bytes
    exact ⟨b, property, (Option.some.inj bytes).symm⟩
  | announced => exact h.sends _ (by simp)
  | ended first =>
    have marked : Carries P { s with ctlEndSent := some s.sent.length, serverDone := false } :=
      ⟨h.slots, h.frames, h.under_way⟩
    exact marked.sends _ (by simp)
  | endedUnsent first => exact ⟨h.slots, h.frames, h.under_way⟩
  | acked head ack => exact ⟨h.freed _ _, h.frames, h.under_way⟩
  | finished head done => exact ⟨h.slots, h.frames, h.under_way⟩
  | ignored head => exact ⟨h.slots, h.frames, h.under_way⟩
  | lost head bad => exact (h.never_lost head bad).elim
  | delivered head good =>
    exact ⟨h.slots, h.frames, fun c f member => h.under_way c f (mem_of_taken head member)⟩
  | stable round batch decision => exact ⟨h.slots, h.frames, h.under_way⟩
  | changed round batch decision => exact ⟨h.slots, h.frames, h.under_way⟩

/-- As long as no round begins the client only pushes for send_block; here blocks with
`P`. In full mode no round ever begins. -/
def SendsOnly (P : Block → Prop) : Pc → Prop
  | .idle => True
  | .pushing b (.sendBlock _) => P b.1
  | .pushing _ (.round _) => False
  | .round _ => False
  | .crashed => True

theorem SendsOnly.imp {Q : Block → Prop} {pc : Pc} (h : SendsOnly P pc)
    (all : ∀ b : ReadBlock, P b.1 → Q b.1) : SendsOnly Q pc := by
  cases pc with
  | idle => trivial
  | pushing b pusher =>
    cases pusher with
    | sendBlock version => exact all b h
    | round p => exact h
  | round p => exact h
  | crashed => trivial

theorem SendsOnly.pushing (h : SendsOnly P s.pc) {b : ReadBlock} {pusher : Pusher}
    (push : s.pc = .pushing b pusher) : P b.1 ∧ ∃ version, pusher = .sendBlock version := by
  rw [push] at h
  cases pusher with
  | sendBlock version => exact ⟨h, version, rfl⟩
  | round p => exact h.elim

theorem SendsOnly.no_round (h : SendsOnly P s.pc) {p : Progress} (round : s.pc = .round p) :
    False := by
  rwa [round] at h

theorem SendsOnly.moves (h : SendsOnly P s.pc) {a : Action}
    (full : ∀ batch now version, a = .beginRound batch now version → cfg.tailSend = false)
    (enters : ∀ b version, a = .sendBlock b version → P b.1) {pc : Pc} (moves : Moves cfg s a pc) :
    SendsOnly P pc := by
  cases moves with
  | stay => exact h
  | leave round => trivial
  | take idle => exact enters _ _ rfl
  | giveUp push =>
    obtain ⟨-, version, rfl⟩ := h.pushing push
    trivial
  | begin idle tail selected => simp [full _ _ _ rfl] at tail
  | next round batch => exact (h.no_round round).elim

theorem SendsOnly.step (h : SendsOnly P s.pc) {a : Action}
    (full : ∀ batch now version, a = .beginRound batch now version → cfg.tailSend = false)
    (enters : ∀ b version, a = .sendBlock b version → P b.1) (st : Step cfg s a s') :
    SendsOnly P s'.pc := by
  cases st with
  | moved moves => exact h.moves full enters moves
  | recorded push room =>
    obtain ⟨-, version, rfl⟩ := h.pushing push
    trivial
  | crashed pop => trivial
  | stable round batch decision => exact (h.no_round round).elim
  | changed round batch decision => exact (h.no_round round).elim
  | _ => exact h

/-- In full mode a row gets ack = 1 only when an ACK for its key is read. -/
theorem SendsOnly.acked_before (h : SendsOnly P s.pc) (full : cfg.tailSend = false) {a : Action}
    (st : Step cfg s a s') {row : Row} (member : row ∈ s'.db.rows) (ack : row.ack = true) :
    (∃ old ∈ s.db.rows, old.key = row.key ∧ old.ack = true) ∨
      ∃ c, a = .recvAck c ∧ ∃ r ∈ (s.down c).head?, IsAck r ∧ row.key = (r.devno, r.offset) := by
  cases st with
  | recorded push room =>
    obtain ⟨-, version, rfl⟩ := h.pushing push
    rcases mem_upsert member with rfl | ⟨old, -⟩
    · cases ack
    · exact .inl ⟨row, old, rfl, ack⟩
  | acked head is_ack =>
    simp only [full] at member
    obtain ⟨old, old_member, same⟩ := mem_markAcked member 0
    rcases same.mark with ⟨ack_eq, -⟩ | ⟨key, -⟩
    · exact .inl ⟨old, old_member, same.key.symm, ack_eq ▸ ack⟩
    · exact .inr ⟨_, rfl, _, by rw [head]; rfl, is_ack, same.key.trans key⟩
  | stable round batch decision => exact (h.no_round round).elim
  | changed round batch decision => exact (h.no_round round).elim
  | _ => exact .inl ⟨row, member, rfl, ack⟩

def Landed (log : List (Nat × DiskOp)) (id : Nat) (b : Block) : Prop :=
  ∃ i, diskOf b.devno = some i ∧ (id, .wrote i b.offset.toInt.toNat b.data) ∈ log

def Transit (s : Sys) : Prop :=
  ∀ f ∈ s.sent, ∀ b, f.block = some b → (∃ c, f ∈ s.up c) ∨ Landed s.log f.id b

def WritesSucceed (s : Sys) : Action → Prop
  | .deliver c io => ∀ f ∈ (s.up c).head?, ∀ b ∈ f.block, Ready s.writer io b
  | _ => True

instance (s : Sys) : (a : Action) → Decidable (WritesSucceed s a)
  | .deliver c io =>
    inferInstanceAs (Decidable (∀ f ∈ (s.up c).head?, ∀ b ∈ f.block, Ready s.writer io b))
  | .sendBlock _ _ | .push _ _ | .giveUp | .flushOne _ | .sendControl _ _ | .recvAck _
  | .beginRound _ _ _ | .examine _ | .endRound => .isTrue trivial

theorem Landed.mono {log log' : List (Nat × DiskOp)} {id : Nat} {b : Block} (h : Landed log id b)
    (grows : log ⊆ log') : Landed log' id b := by
  obtain ⟨i, disk, member⟩ := h
  exact ⟨i, disk, grows member⟩

theorem Step.sent_subset {a : Action} (st : Step cfg s a s') : s.sent ⊆ s'.sent := by
  cases st with
  | flushed pop bytes => exact List.subset_append_left ..
  | announced => exact List.subset_append_left ..
  | ended first => exact List.subset_append_left ..
  | _ => exact List.Subset.refl _

theorem Step.log_subset {a : Action} (st : Step cfg s a s') : s.log ⊆ s'.log := by
  cases st with
  | delivered head good => exact List.subset_append_left ..
  | _ => exact List.Subset.refl _

theorem Step.alive_before {a : Action} (st : Step cfg s a s') (alive : s'.pc ≠ .crashed) : s.pc ≠ .crashed := by
  intro crashed
  cases st with
  | moved moves => cases moves <;> simp_all
  | recorded push room => simp [push] at crashed
  | crashed pop => exact alive rfl
  | stable round batch decision => simp [round] at crashed
  | changed round batch decision => simp [round] at crashed
  | _ => exact alive crashed

theorem mem_up_of_handled {c c' : Conn} {f g : Frame} {rest : List Frame}
    (head : s.up c = f :: rest) (member : g ∈ s.up c') :
    g = f ∨ g ∈ Function.update s.up c rest c' := by
  by_cases here : c' = c
  · subst here
    rw [Function.update_self]
    exact List.mem_cons.mp (head ▸ member)
  · rw [Function.update_of_ne here]
    exact .inr member

theorem Transit.sends (h : Transit s) (c : Conn) (body : Body) : Transit (sendFrame s c body) := by
  intro f member b block
  rcases mem_sendFrame_sent.mp member with old | rfl
  · rcases h f old b block with ⟨c', up⟩ | landed
    · exact .inl ⟨c', mem_sendFrame_up.mpr (.inl up)⟩
    · exact .inr landed
  · exact .inl ⟨c, mem_sendFrame_up.mpr (.inr ⟨rfl, rfl⟩)⟩

theorem Transit.delivers (h : Transit s) {c : Conn} {f : Frame} {rest : List Frame} {io : DiskIo}
    {m : Msg} (head : s.up c = f :: rest) (good : f.body.msg = .ok m)
    (ready : ∀ b ∈ f.block, Ready s.writer io b) :
    Transit (handled s c f.id rest (dispatch s.writer io m)) := by
  have grows : s.log ⊆ (handled s c f.id rest (dispatch s.writer io m)).log :=
    List.subset_append_left ..
  intro g member b block
  rcases h g member b block with ⟨c', up⟩ | landed
  · rcases mem_up_of_handled head up with rfl | still
    · right
      obtain ⟨i, disk, -, wrote⟩ := dispatchBlock_ready (ready b block)
      obtain rfl : m = .block b := by
        rw [Frame.block_eq_some.mp block] at good
        exact (Except.ok.inj good).symm
      exact ⟨i, disk, List.mem_append_right _ (List.mem_map_of_mem wrote)⟩
    · exact .inl ⟨c', still⟩
  · exact .inr (landed.mono grows)

theorem step_transit {a : Action} (h : Transit s) (carries : Carries P s)
    (writes : WritesSucceed s a) (st : Step cfg s a s') : Transit s' := by
  cases st with
  | flushed pop bytes => exact Transit.sends h _ _
  | announced => exact h.sends _ _
  | ended first => exact Transit.sends h _ _
  | lost head bad => exact (carries.never_lost head bad).elim
  | delivered head good =>
    refine h.delivers head good (writes _ ?_)
    rw [head, List.head?_cons]
    rfl
  | _ => exact h

end Go2Cloud.Migration
