import Go2Cloud.Migration.InFlight
import Go2Cloud.Mirror

/-! Full mode over a source that does not change: a row marked acknowledged has
its bytes on the target. -/
namespace Go2Cloud.FullMode
open Protocol Queue Reader Tracker Round Decoder BlockWriter Receiver Migration Mirror Transition
open Msgpack (blockBytes)

def ReadsSource (src : Source) (len : Key → Nat) : Action → Prop
  | .sendBlock b _ => FromSource src len b.1
  | _ => True

/-- Every unread ACK and every row with ack = 1 is for a range whose bytes are on the
target; rows of `given` keys may have their ack = 1 from elsewhere. -/
structure Inv (given : Key → Prop) (src : Source) (len : Key → Nat) (s : Sys) : Prop where
  position : SendsOnly (FromSource src len) s.pc
  carries : Carries (FromSource src len) s
  acks : ∀ c, ∀ r ∈ s.down c, IsAck r →
    Matches src s.writer.store (r.devno, r.offset) (len (r.devno, r.offset))
  rows : ∀ row ∈ s.db.rows, row.ack = true →
    given row.key ∨ Matches src s.writer.store row.key (len row.key)

variable {given : Key → Prop} {src : Source} {len : Key → Nat}

theorem inv_resumed {db : BlockTable} (w : Writer)
    (h : ∀ row ∈ db.rows, row.ack = true →
      given row.key ∨ Matches src w.store row.key (len row.key)) :
    Inv given src len (resumed db w) where
  position := trivial
  carries := carries_resumed db w
  acks := by simp [resumed, init]
  rows := h

/-- Handling a source block keeps matching ranges, and it is acknowledged only
when its own range matches. -/
theorem dispatchBlock_matches (w : Writer) (io : DiskIo) {b : Block}
    (source : FromSource src len b) :
    (∀ k n, Matches src w.store k n → Matches src (dispatchBlock w io b).writer.store k n) ∧
      ∀ r ∈ (dispatchBlock w io b).responses, IsAck r → (r.devno, r.offset) = b.key ∧
        Matches src (dispatchBlock w io b).writer.store b.key (len b.key) := by
  obtain ⟨landed, spec⟩ := blockWriterWrite_spec w io b
  rw [dispatchBlock_store, spec.store]
  refine ⟨fun k n h => h.put source spec.landed_le, fun r member ack => ?_⟩
  unfold dispatchBlock at member
  simp only at member
  split at member
  next ok =>
    obtain ⟨i, _, disk, nonneg, -⟩ := spec.disk ok
    rw [spec.complete ok]
    refine ⟨?_, matches_put_self w.store source disk nonneg⟩
    rcases List.mem_cons.mp member with rfl | alert
    · rfl
    · split at alert
      · rw [List.mem_singleton.mp alert]
        rfl
      · cases alert
  · cases member

theorem dispatch_matches (w : Writer) (io : DiskIo) {m : Msg}
    (source : ∀ b, m = .block b → FromSource src len b) :
    (∀ k n, Matches src w.store k n → Matches src (dispatch w io m).writer.store k n) ∧
      ∀ r ∈ (dispatch w io m).responses, IsAck r →
        Matches src (dispatch w io m).writer.store (r.devno, r.offset)
          (len (r.devno, r.offset)) := by
  cases m with
  | block b =>
    obtain ⟨keeps, answers⟩ := dispatchBlock_matches w io (source b rfl)
    refine ⟨keeps, fun r member ack => ?_⟩
    obtain ⟨key, own⟩ := answers r member ack
    rw [key]
    exact own
  | control c =>
    refine ⟨fun k n h => by cases c <;> exact h, fun r member ack => ?_⟩
    cases c with
    | incremental => cases member
    | endIncremental =>
      rw [List.mem_singleton.mp member] at ack
      exact absurd ack (by decide)

variable {s s' : Sys} {cfg : Config}

theorem Inv.delivered (h : Inv given src len s) {c : Conn} {f : Frame} {rest : List Frame}
    (io : DiskIo) {m : Msg} (head : s.up c = f :: rest) (good : f.body.msg = .ok m)
    (carries : Carries (FromSource src len) (handled s c f.id rest (dispatch s.writer io m))) :
    Inv given src len (handled s c f.id rest (dispatch s.writer io m)) := by
  have member : f ∈ s.up c := head ▸ List.mem_cons_self
  have source : ∀ b, m = .block b → FromSource src len b := fun b hb =>
    h.carries.block member (hb ▸ good)
  obtain ⟨keeps, answers⟩ := dispatch_matches s.writer io source
  refine ⟨h.position, carries, fun c' r hr ack => ?_, fun row hrow ack => ?_⟩
  · rcases mem_handled_down.mp hr with old | ⟨-, new⟩
    · exact keeps _ _ (h.acks c' r old ack)
    · exact answers r new ack
  · exact (h.rows row hrow ack).imp id (keeps _ _)

theorem step_inv {a : Action} (h : Inv given src len s) (full : cfg.tailSend = false)
    (reads : ReadsSource src len a) (hs : Migration.step cfg s a = some s') :
    Inv given src len s' := by
  have st := Migration.step_inv hs
  have carries := step_carries h.carries (fun b pusher push => (h.position.pushing push).1) st
  have position := h.position.step (fun _ _ _ _ => full) (fun b version taken => by subst taken; exact reads) st
  -- until a frame is delivered the target stays, and so does what the rows say about it
  have rows : ∀ row ∈ s'.db.rows, row.ack = true →
      given row.key ∨ Matches src s.writer.store row.key (len row.key) := by
    intro row member ack
    rcases h.position.acked_before full st member ack with
      ⟨old, old_member, key, old_ack⟩ | ⟨c, -, r, first, is_ack, key⟩
    · exact key ▸ h.rows old old_member old_ack
    · rw [key]
      exact .inr (h.acks c r (List.mem_of_mem_head? first) is_ack)
  cases st with
  | acked head ack =>
    exact ⟨position, carries, fun c r member => h.acks c r (mem_of_taken head member), rows⟩
  | finished head done =>
    exact ⟨position, carries, fun c r member => h.acks c r (mem_of_taken head member), rows⟩
  | ignored head =>
    exact ⟨position, carries, fun c r member => h.acks c r (mem_of_taken head member), rows⟩
  | delivered head good => exact h.delivered _ head good carries
  | _ => exact ⟨position, carries, h.acks, rows⟩

def Sized (len : Key → Nat) (db : BlockTable) : Prop :=
  ∀ row ∈ db.rows, row.size.toInt = len row.key

theorem sized_upsert {db : BlockTable} (h : Sized len db) {b : ReadBlock}
    (source : FromSource src len b.1) (remoteId : String) (hash : UInt64) (version : Int) :
    Sized len (sqliteBlockUpsertV db remoteId b.1.key (Int32.ofInt b.1.data.length) hash false
      version) := by
  intro row member
  rcases mem_upsert member with rfl | ⟨old, -⟩
  · have fits := b.2
    have cap : blockSize = 0x100000 := rfl
    show (Int32.ofInt b.1.data.length).toInt = len b.1.key
    rw [← source.length, Int32.toInt_ofInt_of_le (by omega) (by omega)]
  · exact h row old

theorem step_sized {a : Action} (h : Sized len s.db)
    (position : SendsOnly (FromSource src len) s.pc) (full : cfg.tailSend = false)
    (st : Step cfg s a s') : Sized len s'.db := by
  cases st with
  | recorded push room =>
    obtain ⟨source, version, rfl⟩ := position.pushing push
    exact sized_upsert h source _ _ _
  | acked head ack =>
    simp only [full]
    intro row member
    obtain ⟨old, old_member, same⟩ := mem_markAcked member 0
    rw [same.size, same.key]
    exact h old old_member
  | stable round batch decision => exact (position.no_round round).elim
  | changed round batch decision => exact (position.no_round round).elim
  | _ => exact h

/-- Whatever the interleaving, the losses and the failed writes: a row with ack = 1
has the source's bytes on the disk of its device. -/
theorem acked_row_matches_source (src : Source) (len : Key → Nat) (w : Writer)
    (remoteId : String) (actions : List Action) (s : Sys)
    (reads : ∀ a ∈ actions, ReadsSource src len a)
    (hr : run (Migration.step ⟨false, remoteId⟩) (init w) actions = some s) :
    ∀ row ∈ s.db.rows, row.ack = true → 0 ≤ row.offset.toInt ∧ 0 ≤ row.size.toInt ∧
      ∃ i, diskOf row.devno = some i ∧
        ByteStore.read (s.writer.store i) row.offset.toInt.toNat row.size.toInt.toNat =
          ByteStore.read (src row.devno) row.offset.toInt.toNat row.size.toInt.toNat := by
  have start : Inv (fun _ => False) src len (init w) ∧ Sized len (init w).db :=
    ⟨inv_resumed w (by simp [Keyed.empty]), by simp [Sized, init, Keyed.empty]⟩
  obtain ⟨inv, sized⟩ : Inv (fun _ => False) src len s ∧ Sized len s.db :=
    run_invariant_of_meets (P := fun s => Inv (fun _ => False) src len s ∧ Sized len s.db)
      (fun _ _ _ h cond hs =>
        ⟨step_inv h.1 rfl cond hs, step_sized h.2 h.1.position rfl (Migration.step_inv hs)⟩)
      hr (meets_of_forall _ fun a member _ => reads a member) start
  intro row member ack
  have size := sized row member
  obtain ⟨nonneg, i, disk, same⟩ := (inv.rows row member ack).resolve_left id
  refine ⟨nonneg, by omega, i, disk, ?_⟩
  rw [size, Int.toNat_natCast]
  exact same

def resentActions : List Action :=
  -- two entries for one block: the first one is dropped, the second one sent, written in two pieces
  -- and acknowledged
  [.sendBlock ⟨⟨0, 512, [1, 2, 3]⟩, by decide⟩ 0, .push true 0, .flushOne .noConnection,
    .sendBlock ⟨⟨0, 512, [1, 2, 3]⟩, by decide⟩ 0, .push true 0, .flushOne (.sentOn 3),
    .deliver 3 ⟨true, [.wrote 1, .interrupted], []⟩, .recvAck 3]

theorem resentActions_readsSource :
    ∀ a ∈ resentActions, ReadsSource (fun _ a => UInt8.ofNat (a - 511)) (fun _ => 3) a := by
  have block : FromSource (fun _ a => UInt8.ofNat (a - 511)) (fun _ => 3) ⟨0, 512, [1, 2, 3]⟩ := by
    decide +kernel
  simp [resentActions, ReadsSource, block]

theorem acked_row_matches_source_resent :
    ∃ s, run (Migration.step ⟨false, "10.0.0.1:3400"⟩) (init blankWriter) resentActions = some s ∧
      (∃ row ∈ s.db.rows, row.ack = true) ∧
      ∀ row ∈ s.db.rows, row.ack = true → 0 ≤ row.offset.toInt ∧ 0 ≤ row.size.toInt ∧
        ∃ i, diskOf row.devno = some i ∧
          ByteStore.read (s.writer.store i) row.offset.toInt.toNat row.size.toInt.toNat =
            ByteStore.read (fun a => UInt8.ofNat (a - 511)) row.offset.toInt.toNat
              row.size.toInt.toNat :=
  ⟨_, rfl, by decide +kernel,
    acked_row_matches_source (fun _ a => UInt8.ofNat (a - 511)) (fun _ => 3) blankWriter "10.0.0.1:3400"
      resentActions _ resentActions_readsSource rfl⟩

end Go2Cloud.FullMode
