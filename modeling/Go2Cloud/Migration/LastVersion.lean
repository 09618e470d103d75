import Go2Cloud.Lib.Channels
import Go2Cloud.Migration.InFlight
import Go2Cloud.Mirror

/-! Which version of a block the target ends with. flush_one takes the connections
in turn, so two versions travel on different connections and nothing tells the
receiver which one was sent last. -/
namespace Go2Cloud.LastVersion
open Protocol Queue Reader Tracker Round Decoder BlockWriter Receiver Migration Mirror Transition
open Channels

def Overlaps (b b' : Block) : Prop :=
  b.devno = b'.devno ∧ max b.offset.toInt.toNat b'.offset.toInt.toNat <
    min (b.offset.toInt.toNat + b.data.length) (b'.offset.toInt.toNat + b'.data.length)

instance (b b' : Block) : Decidable (Overlaps b b') := inferInstanceAs (Decidable (_ ∧ _))

theorem overlaps_of_covers {b b' : Block} {devno : Int32} {a : Nat} (h : Covers b devno a)
    (h' : Covers b' devno a) : Overlaps b b' := by
  obtain ⟨rfl, low, high⟩ := h
  obtain ⟨device, low', high'⟩ := h'
  exact ⟨device.symm, by omega⟩

def nextBlock (s : Sys) : Option Block := do
  let (e, _) ← queuePop s.queue
  let payload ← e.payload
  Frame.block ⟨s.sent.length, .data payload⟩

/-- A block is sent only when no frame under way on another connection overlaps it,
and no delivered block fails to be written. -/
def Apart (s : Sys) : Action → Prop
  | .flushOne (.sentOn c) => ∀ b ∈ nextBlock s, ∀ c', c' ≠ c → ∀ f ∈ s.up c', ∀ b' ∈ f.block,
      ¬ Overlaps b b'
  | a => WritesSucceed s a

instance (s : Sys) : (a : Action) → Decidable (Apart s a)
  | .flushOne (.sentOn c) => inferInstanceAs (Decidable (∀ b ∈ nextBlock s, ∀ c', c' ≠ c →
      ∀ f ∈ s.up c', ∀ b' ∈ f.block, ¬ Overlaps b b'))
  | .deliver c io => inferInstanceAs (Decidable (WritesSucceed s (.deliver c io)))
  | .flushOne .noConnection | .flushOne .sendFailed | .sendBlock _ _ | .push _ _ | .giveUp
  | .sendControl _ _ | .recvAck _ | .beginRound _ _ _ | .examine _ | .endRound => .isTrue trivial

theorem Apart.writes {s : Sys} {a : Action} (h : Apart s a) : WritesSucceed s a := by
  cases a with
  | flushOne outcome => trivial
  | _ => exact h

def covering (devno : Int32) (a : Nat) (f : Frame) : Bool :=
  decide (∃ b ∈ f.block, Covers b devno a)

def lastByte (start : UInt8) (a : Nat) (frames : List Frame) : UInt8 :=
  frames.foldl (fun v f => ((f.block.bind fun b => byteAt b a).getD v)) start

structure Inv (start : Store) (s : Sys) : Prop where
  carries : Carries (fun _ => True) s
  transit : Transit s
  bytes : ∀ devno i a, diskOf devno = some i → ∃ done,
    InOrder (covering devno a) s.sent s.up done ∧
      s.writer.store i a = lastByte (start i a) a done

theorem inv_resumed (db : BlockTable) (w : Writer) : Inv w.store (resumed db w) where
  carries := carries_resumed db w
  transit := by simp [Transit, resumed, init]
  bytes _ _ _ _ := ⟨[], ⟨0, rfl, fun _ _ => rfl⟩, rfl⟩

variable {start : Store} {cfg : Config} {s s' : Sys} {a : Action}

theorem Inv.sends (h : Inv start s) {c : Conn} {body : Body}
    (carries : Carries (fun _ => True) (sendFrame s c body))
    (apart : ∀ b ∈ Frame.block ⟨s.sent.length, body⟩, ∀ c', c' ≠ c → ∀ f ∈ s.up c', ∀ b' ∈ f.block,
      ¬ Overlaps b b') : Inv start (sendFrame s c body) where
  carries := carries
  transit := h.transit.sends c body
  bytes devno i a disk := by
    obtain ⟨done, order, byte⟩ := h.bytes devno i a disk
    refine ⟨done, order.send fun covers c' other => ?_, byte⟩
    obtain ⟨b, block, here⟩ := of_decide_eq_true covers
    rw [List.filter_eq_nil_iff]
    intro f member covers'
    obtain ⟨b', block', here'⟩ := of_decide_eq_true covers'
    exact apart b block c' other f member b' block' (overlaps_of_covers here here')

theorem Inv.handles_block (h : Inv start s) {c : Conn} {f : Frame} {rest : List Frame}
    {io : DiskIo} {b : Block} (head : s.up c = f :: rest) (block : f.block = some b)
    (ready : Ready s.writer io b) {devno : Int32} {i : Fin maxTargetDisks} {a : Nat}
    (disk : diskOf devno = some i) :
    ∃ done, InOrder (covering devno a) s.sent (Function.update s.up c rest) done ∧
      (dispatchBlock s.writer io b).writer.store i a = lastByte (start i a) a done := by
  obtain ⟨done, order, byte⟩ := h.bytes devno i a disk
  refine ⟨_, order.receive head, ?_⟩
  rw [dispatchBlock_store_ready ready]
  by_cases here : Covers b devno a
  · have covers : covering devno a f = true := by simp [covering, block, here]
    rw [if_pos covers, lastByte, List.foldl_append, List.foldl_cons, List.foldl_nil, block,
      Option.bind_some, byteAt_put s.writer.store disk here, Option.getD_some]
  · have passes : covering devno a f = false := by simp [covering, block, here]
    simp only [passes, Bool.false_eq_true, if_false]
    rw [put_uncovered s.writer.store disk here, byte]

theorem Inv.handles_control (h : Inv start s) {c : Conn} {f : Frame} {rest : List Frame}
    (head : s.up c = f :: rest) (block : f.block = none) {devno : Int32} {i : Fin maxTargetDisks}
    {a : Nat} (disk : diskOf devno = some i) :
    ∃ done, InOrder (covering devno a) s.sent (Function.update s.up c rest) done ∧
      s.writer.store i a = lastByte (start i a) a done := by
  obtain ⟨done, order, byte⟩ := h.bytes devno i a disk
  have passes : covering devno a f = false := by simp [covering, block]
  have order' := order.receive head
  simp only [passes, Bool.false_eq_true, if_false] at order'
  exact ⟨done, order', byte⟩

theorem step_inv (h : Inv start s) (apart : Apart s a) (st : Step cfg s a s') : Inv start s' := by
  have carries := step_carries h.carries (fun _ _ _ => trivial) st
  have transit := step_transit h.transit h.carries apart.writes st
  cases st with
  | flushed pop bytes =>
    have popped : Inv start { s with queue := _ } := ⟨h.carries.popped pop, h.transit, h.bytes⟩
    refine popped.sends carries fun b block => apart b ?_
    simpa [nextBlock, pop, bytes] using block
  | announced => exact h.sends carries (by simp [Frame.block, Body.msg])
  | ended first =>
    have marked : Inv start { s with ctlEndSent := some s.sent.length, serverDone := false } :=
      ⟨⟨h.carries.slots, h.carries.frames, h.carries.under_way⟩, h.transit, h.bytes⟩
    exact marked.sends carries (by simp [Frame.block, Body.msg])
  | lost head bad => exact (h.carries.never_lost head bad).elim
  | delivered head good =>
    rename_i c io f rest m
    refine ⟨carries, transit, fun devno i a disk => ?_⟩
    cases m with
    | block b =>
      have block : f.block = some b := Frame.block_eq_some.mpr good
      exact h.handles_block head block (apart f (by rw [head]; rfl) b block) disk
    | control ctl =>
      have block : f.block = none := by simp [Frame.block, good]
      cases ctl <;> exact h.handles_control head block disk
  | _ => exact ⟨carries, transit, h.bytes⟩

/-- Once nothing is under way, an address holds the byte of the last block sent that
covers it. -/
theorem Inv.last_byte (h : Inv start s) (arrived : ∀ c, s.up c = []) {before after : List Frame}
    {f : Frame} {b : Block} (sent : s.sent = before ++ f :: after) (block : f.block = some b)
    {i : Fin maxTargetDisks} (disk : diskOf b.devno = some i) {a : Nat} (covers : Covers b b.devno a)
    (last : ∀ g ∈ after, ∀ b' ∈ g.block, ¬ Covers b' b.devno a) :
    byteAt b a = some (s.writer.store i a) := by
  obtain ⟨done, order, byte⟩ := h.bytes b.devno i a disk
  have here : covering b.devno a f = true := by simp [covering, block, covers]
  have silent : after.filter (covering b.devno a) = [] := by
    rw [List.filter_eq_nil_iff]
    intro g member covers'
    obtain ⟨b', block', here'⟩ := of_decide_eq_true covers'
    exact last g member b' block' here'
  have ends : done = before.filter (covering b.devno a) ++ [f] := by
    rw [← order.all_received arrived, sent, List.filter_append, List.filter_cons_of_pos here, silent]
  rw [byte, ends, lastByte, List.foldl_append, List.foldl_cons, List.foldl_nil, block,
    Option.bind_some, byteAt_put s.writer.store disk covers, Option.getD_some]

/-- The last version sent wins, whatever was sent before it and in whatever order the
receiver handles its sessions, if no block is sent while an overlapping one is
under way on another connection. -/
theorem last_version_wins (db : BlockTable) (w : Writer) (cfg : Config) (actions : List Action)
    (s : Sys) (hr : run (Migration.step cfg) (resumed db w) actions = some s)
    (apart : Meets (Migration.step cfg) Apart (resumed db w) actions)
    (arrived : ∀ c, s.up c = []) {before after : List Frame} {f : Frame} {b : Block}
    (sent : s.sent = before ++ f :: after) (block : f.block = some b)
    (last : ∀ g ∈ after, ∀ b' ∈ g.block, ¬ Overlaps b b') :
    ∃ i, diskOf b.devno = some i ∧
      ByteStore.read (s.writer.store i) b.offset.toInt.toNat b.data.length = b.data := by
  have inv : Inv w.store s :=
    run_invariant_of_meets (fun _ _ _ h cond hs => step_inv h cond (Migration.step_inv hs)) hr apart
      (inv_resumed db w)
  have landed : Landed s.log f.id b := by
    rcases inv.transit f (by simp [sent]) b block with ⟨c, up⟩ | landed
    · simp [arrived c] at up
    · exact landed
  obtain ⟨i, disk, -⟩ := landed
  refine ⟨i, disk, List.ext_getElem? fun n => ?_⟩
  by_cases inside : n < b.data.length
  · have covers : Covers b b.devno (b.offset.toInt.toNat + n) := ⟨rfl, by omega, by omega⟩
    have byte := inv.last_byte arrived sent block disk covers fun g member b' block' covers' =>
      last g member b' block' (overlaps_of_covers covers covers')
    rw [Mirror.byteAt, Nat.add_sub_cancel_left] at byte
    rw [ByteStore.read_getElem? _ _ inside, byte]
  · rw [List.getElem?_eq_none (by simpa using inside), List.getElem?_eq_none (by simpa using inside)]

def oldVersion : Block := ⟨0, 512, List.replicate 64 0⟩
def newVersion : Block := ⟨0, 512, 1 :: List.replicate 63 0⟩

theorem oldVersion_fits : oldVersion.data.length ≤ blockSize := by decide

theorem newVersion_fits : newVersion.data.length ≤ blockSize := by decide

/-- The block is sent, a round finds it changed and sends it again on connection
`c`; then the receiver handles connection `c` before connection 0. -/
def resentOn (c : Conn) : List Action :=
  [.sendBlock ⟨oldVersion, oldVersion_fits⟩ 1, .push true 0, .flushOne (.sentOn 0),
    .beginRound [⟨0, 512, 64, blockHash 512 oldVersion.data, false, 0, 1, "10.0.0.1:3400"⟩] 60000 2,
    .examine (some ⟨newVersion.data, newVersion_fits⟩), .push true 60000, .flushOne (.sentOn c), .endRound,
    .deliver c ⟨true, [], []⟩, .deliver 0 ⟨true, [], []⟩]

/-- On one connection the new version lands last. -/
theorem last_version_wins_same_connection :
    ∃ s ∈ run (Migration.step ⟨true, "10.0.0.1:3400"⟩) (resumed Keyed.empty blankWriter) (resentOn 0),
      ∃ i, diskOf newVersion.devno = some i ∧ ByteStore.read (s.writer.store i)
        newVersion.offset.toInt.toNat newVersion.data.length = newVersion.data := by
  have runs : ∃ s ∈ run (Migration.step ⟨true, "10.0.0.1:3400"⟩) (resumed Keyed.empty blankWriter)
      (resentOn 0), Meets (Migration.step ⟨true, "10.0.0.1:3400"⟩) Apart
        (resumed Keyed.empty blankWriter) (resentOn 0) ∧ (∀ c, s.up c = []) ∧
      s.sent = [⟨0, .data (Msgpack.blockBytes oldVersion)⟩] ++
        ⟨1, .data (Msgpack.blockBytes newVersion)⟩ :: [] ∧
      Frame.block ⟨1, .data (Msgpack.blockBytes newVersion)⟩ = some newVersion := by
    decide +kernel
  obtain ⟨s, hr, apart, arrived, sent, block⟩ := runs
  exact ⟨s, hr, last_version_wins Keyed.empty blankWriter _ (resentOn 0) s hr apart arrived sent
    block (by simp)⟩

/-- On the next connection in turn the old version may land last. -/
theorem older_version_lands_last :
    ∃ s ∈ run (Migration.step ⟨true, "10.0.0.1:3400"⟩) (resumed Keyed.empty blankWriter) (resentOn 1),
      (∀ c, s.up c = []) ∧ s.sent.filterMap Frame.block = [oldVersion, newVersion] ∧
        s.log = [(1, .wrote 0 512 newVersion.data), (0, .wrote 0 512 oldVersion.data)] ∧
        ByteStore.read (s.writer.store 0) 512 64 = oldVersion.data ∧
        oldVersion.data ≠ newVersion.data := by
  decide +kernel

end Go2Cloud.LastVersion
