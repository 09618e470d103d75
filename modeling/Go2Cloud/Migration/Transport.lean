import Go2Cloud.Migration.FullMode
import Go2Cloud.RoundTrip

/-! The system of `Go2Cloud.Migration` with bytes instead of frames on the connections to the
receiver. wire_send compresses and frames a payload, recv() cuts the stream anywhere, and the
receiver decodes what its buffer holds. As long as no send is cut short in the middle of a frame,
the receiver does what it does with whole frames. -/
namespace Go2Cloud.Transport
open Protocol Queue Decoder BlockWriter Receiver Migration Transition Wire Segmentation Incremental
open Msgpack (blockBytes blockBytes_length_le)

def wireBytes (z : Zstd) (level : Int) : Body → Option (List UInt8)
  | .data payload => wireFrame z level payload sendScratchSize
  | .control c => some (frame c.bytes)

def bytesOf (z : Zstd) (level : Int) (frames : List Frame) : List UInt8 :=
  frames.flatMap fun f => (wireBytes z level f.body).getD []

/-- `stream` are the bytes under way, `recvBuf` those of an incomplete frame at the receiver;
`base.up` stays empty. -/
structure State where
  base : Sys
  stream : Conn → List UInt8
  recvBuf : Conn → List UInt8

def start (w : Writer) : State := ⟨init w, fun _ => [], fun _ => []⟩

/-- `cut` is a flush_one whose wire_send fails after `n` bytes, `recv` one recv() of handle_session
with the messages it completes. -/
inductive Action where
  | client (a : Migration.Action)
  | cut (c : Conn) (n : Nat)
  | recv (c : Conn) (n : Nat) (io : Nat → DiskIo)

def isDeliver : Migration.Action → Bool
  | .deliver _ _ => true
  | _ => false

def sendOut (z : Zstd) (level : Int) (t : State) (s : Sys) : Option State :=
  -- what the client has put on the connections goes out as bytes
  if ∀ c, ∀ f ∈ s.up c, (wireBytes z level f.body).isSome then
    some ⟨{ s with up := fun _ => [] }, fun c => t.stream c ++ bytesOf z level (s.up c), t.recvBuf⟩
  else none

def nextBytes (z : Zstd) (level : Int) (q : SendQueue) : Option (List UInt8) := do
  let (entry, _) ← queuePop q
  let payload ← entry.payload
  wireFrame z level payload sendScratchSize

/-- The messages of a chunk, handled in order; the receiver does not know frame numbers. -/
def handleAll (c : Conn) : List Msg → (Nat → DiskIo) → Sys → Sys
  | [], _, s => s
  | m :: ms, io, s =>
    handleAll c ms (fun i => io (i + 1)) (handled s c 0 [] (dispatch s.writer (io 0) m))

def recv (z : Zstd) (t : State) (c : Conn) (n : Nat) (io : Nat → DiskIo) : Option State :=
  if 1 ≤ n ∧ n ≤ recvChunkSize ∧ n ≤ (t.stream c).length then
    let d := handleChunk z (t.recvBuf c) ((t.stream c).take n)
    let base := handleAll c d.items io t.base
    if d.failed then
      some ⟨base, Function.update t.stream c [], Function.update t.recvBuf c []⟩
    else
      some ⟨base, Function.update t.stream c ((t.stream c).drop n),
        Function.update t.recvBuf c d.buf⟩
  else none

def step (z : Zstd) (level : Int) (cfg : Config) (t : State) : Action → Option State
  | .client a =>
    if isDeliver a then none else (Migration.step cfg t.base a).bind (sendOut z level t)
  | .cut c n => do
    let bytes ← nextBytes z level t.base.queue
    guard (n < bytes.length)
    let s ← Migration.step cfg t.base (.flushOne .sendFailed)
    some { t with base := s, stream := Function.update t.stream c (t.stream c ++ bytes.take n) }
  | .recv c n io => recv z t c n io

def Action.Whole : Action → Prop
  -- a failed wire_send has put nothing on the connection
  | .cut _ n => n = 0
  | _ => True

structure Same (base s : Sys) : Prop where
  fields : s = { base with up := s.up, log := s.log }
  ops : s.log.map Prod.snd = base.log.map Prod.snd

/-- The frames of `s` are under way in `t`, the first of each connection perhaps in part. -/
structure Carried (z : Zstd) (level : Int) (t : State) (s : Sys) : Prop extends Same t.base s where
  empty : ∀ c, t.base.up c = []
  bytes : ∀ c, t.recvBuf c ++ t.stream c = bytesOf z level (s.up c)
  waiting : ∀ c, decodeBuffered z (t.recvBuf c) = (.more, t.recvBuf c)
  carries : Carries (fun _ => True) s

section Client
variable {cfg : Config} {s s' : Sys} {up : Conn → List Frame} {log : List (Nat × DiskOp)}

def reroute (up : Conn → List Frame) (log : List (Nat × DiskOp)) (s : Sys) : Sys :=
  { s with up := up, log := log }

structure Adds (up : Conn → List Frame) (log : List (Nat × DiskOp)) (s s' s'' : Sys) : Prop where
  result : s'' = reroute (fun c => up c ++ s'.up c) log s'
  log : s'.log = s.log

theorem adds_nothing (s' : Sys) (empty : ∀ c, s.up c = []) (same : s'.up = s.up)
    (same_log : s'.log = s.log) : Adds up log s s' (reroute up log s') := by
  refine ⟨?_, same_log⟩
  have none_new : (fun c => up c ++ s'.up c) = up := by
    funext c
    rw [same, empty c, List.append_nil]
  rw [none_new]

theorem adds_frame (s' : Sys) (empty : ∀ c, s.up c = []) (c : Conn) (body : Body)
    (same : s'.up = s.up) (same_log : s'.log = s.log) :
    Adds up log s (sendFrame s' c body) (sendFrame (reroute up log s') c body) := by
  refine ⟨?_, same_log⟩
  have new : (fun c' => up c' ++ Function.update s'.up c (s'.up c ++ [⟨s'.sent.length, body⟩]) c') =
      Function.update up c (up c ++ [⟨s'.sent.length, body⟩]) := by
    funext c'
    by_cases here : c' = c
    · subst here
      rw [Function.update_self, Function.update_self, same, empty c', List.nil_append]
    · rw [Function.update_of_ne here, Function.update_of_ne here, same, empty c', List.append_nil]
  simp only [sendFrame, reroute, new]

theorem sendBlock_adds (empty : ∀ c, s.up c = []) (b : ReadBlock) (version : Int) :
    Adds up log s (sendBlock cfg s b version) (sendBlock cfg (reroute up log s) b version) := by
  have db : (reroute up log s).db = s.db := rfl
  unfold sendBlock
  rw [db]
  split_ifs
  · exact adds_nothing _ empty rfl rfl
  · exact adds_nothing _ empty rfl rfl
  · exact adds_nothing _ empty rfl rfl
  · exact adds_nothing { s with pc := .pushing b (.sendBlock version) } empty rfl rfl

theorem push_adds (empty : ∀ c, s.up c = []) {malloc : Bool} {now : Int}
    (h : push cfg s malloc now = some s') :
    ∃ s'', push cfg (reroute up log s) malloc now = some s'' ∧ Adds up log s s' s'' := by
  have pc : (reroute up log s).pc = s.pc := rfl
  have queue : (reroute up log s).queue = s.queue := rfl
  unfold push at h ⊢
  rw [pc, queue]
  cases at_pc : s.pc with
  | pushing b pusher =>
    simp only [at_pc] at h ⊢
    split at h
    next ok =>
      cases h
      exact ⟨_, if_pos ok, adds_nothing _ empty rfl rfl⟩
    next failed =>
      cases h
      exact ⟨_, if_neg failed, adds_nothing _ empty rfl rfl⟩
  | _ => simp [at_pc] at h

theorem flushOne_adds (empty : ∀ c, s.up c = []) (outcome : FlushOutcome) :
    Adds up log s (flushOne s outcome) (flushOne (reroute up log s) outcome) := by
  have queue : (reroute up log s).queue = s.queue := rfl
  unfold flushOne
  rw [queue]
  cases queuePop s.queue with
  | none => exact adds_nothing _ empty rfl rfl
  | some popped =>
    obtain ⟨entry, q⟩ := popped
    have kept : Adds up log s _ _ := adds_nothing { s with queue := q } empty rfl rfl
    have crashed : Adds up log s _ _ :=
      adds_nothing { s with queue := q, pc := .crashed } empty rfl rfl
    cases outcome with
    | noConnection => exact kept
    | sendFailed =>
      cases bytes : entry.payload with
      | none =>
        simp only [bytes]
        exact crashed
      | some payload =>
        simp only [bytes]
        exact kept
    | sentOn c =>
      cases bytes : entry.payload with
      | none =>
        simp only [bytes]
        exact crashed
      | some payload =>
        simp only [bytes]
        exact adds_frame { s with queue := q } empty c _ rfl rfl

theorem sendControl_adds (empty : ∀ c, s.up c = []) {ctl : Control} {outcome : FlushOutcome}
    (h : sendControl s ctl outcome = some s') :
    ∃ s'', sendControl (reroute up log s) ctl outcome = some s'' ∧ Adds up log s s' s'' := by
  have sent : (reroute up log s).ctlEndSent = s.ctlEndSent := rfl
  have unchanged : Adds up log s _ _ := adds_nothing s empty rfl rfl
  have ended : Adds up log s _ _ :=
    adds_nothing { s with ctlEndSent := some s.sent.length, serverDone := false } empty rfl rfl
  cases ctl with
  | incremental =>
    cases outcome with
    | noConnection =>
      cases h
      exact ⟨_, rfl, unchanged⟩
    | sendFailed =>
      cases h
      exact ⟨_, rfl, unchanged⟩
    | sentOn c =>
      cases h
      exact ⟨_, rfl, adds_frame _ empty c _ rfl rfl⟩
  | endIncremental =>
    cases outcome with
    | noConnection =>
      cases h
      exact ⟨_, rfl, unchanged⟩
    | sendFailed =>
      simp only [sendControl, sent] at h ⊢
      split at h
      next first =>
        cases h
        exact ⟨_, if_pos first, ended⟩
      · cases h
    | sentOn c =>
      simp only [sendControl, sent] at h ⊢
      split at h
      next first =>
        cases h
        exact ⟨_, if_pos first, adds_frame
          { s with ctlEndSent := some s.sent.length, serverDone := false } empty c _ rfl rfl⟩
      · cases h

theorem recvAck_adds (empty : ∀ c, s.up c = []) {c : Conn} (h : recvAck cfg s c = some s') :
    ∃ s'', recvAck cfg (reroute up log s) c = some s'' ∧ Adds up log s s' s'' := by
  have down : (reroute up log s).down = s.down := rfl
  unfold recvAck at h ⊢
  rw [down]
  split at h
  · cases h
  next r rest head =>
    cases h
    refine ⟨_, rfl, ?_⟩
    unfold processAck
    split
    · exact adds_nothing _ empty rfl rfl
    split
    · exact adds_nothing _ empty rfl rfl
    · exact adds_nothing { s with down := Function.update s.down c rest } empty rfl rfl

theorem examine_adds (empty : ∀ c, s.up c = []) (p : Round.Progress) (row : Tracker.Row)
    (rest : List Tracker.Row) (live : Option Reader.ReadData) :
    Adds up log s (examine s p row rest live) (examine (reroute up log s) p row rest live) := by
  have queue : (reroute up log s).queue = s.queue := rfl
  unfold examine
  rw [queue]
  cases Round.examineRow p.now s.queue.count row live <;>
    exact adds_nothing _ empty rfl rfl

theorem step_adds {a : Migration.Action} (client : isDeliver a = false)
    (empty : ∀ c, s.up c = []) (h : Migration.step cfg s a = some s') (up : Conn → List Frame)
    (log : List (Nat × DiskOp)) :
    ∃ s'', Migration.step cfg (reroute up log s) a = some s'' ∧ Adds up log s s' s'' := by
  have pc : (reroute up log s).pc = s.pc := rfl
  cases a with
  | sendBlock b version =>
    simp only [Migration.step, pc] at h ⊢
    cases at_pc : s.pc with
    | idle =>
      simp only [at_pc] at h ⊢
      cases h
      exact ⟨_, rfl, sendBlock_adds empty b version⟩
    | _ => simp [at_pc] at h
  | push malloc now => exact push_adds empty h
  | giveUp =>
    simp only [Migration.step, giveUp, pc] at h ⊢
    cases at_pc : s.pc with
    | pushing b pusher =>
      simp only [at_pc] at h ⊢
      cases h
      exact ⟨_, rfl, adds_nothing { s with pc := pusher.abandoned } empty rfl rfl⟩
    | _ => simp [at_pc] at h
  | flushOne outcome =>
    simp only [Migration.step, pc] at h ⊢
    split at h
    · cases h
    next running =>
      cases h
      exact ⟨_, rfl, flushOne_adds empty outcome⟩
  | sendControl ctl outcome =>
    simp only [Migration.step, pc] at h ⊢
    cases at_pc : s.pc with
    | idle =>
      simp only [at_pc] at h ⊢
      exact sendControl_adds empty h
    | _ => simp [at_pc] at h
  | recvAck c =>
    simp only [Migration.step, pc] at h ⊢
    split at h
    · cases h
    next running =>
      exact recvAck_adds empty h
  | deliver c io => cases client
  | beginRound batch now version =>
    simp only [Migration.step, beginRound, pc] at h ⊢
    cases at_pc : s.pc with
    | idle =>
      simp only [at_pc] at h ⊢
      split at h
      next enabled =>
        cases h
        exact ⟨_, if_pos enabled, adds_nothing
          { s with pc := .round ⟨batch, now, version, 0⟩ } empty rfl rfl⟩
      · cases h
    | _ => simp [at_pc] at h
  | examine live =>
    simp only [Migration.step, pc] at h ⊢
    cases at_pc : s.pc with
    | round p =>
      simp only [at_pc] at h ⊢
      split at h
      · cases h
      next row rest batch =>
        cases h
        exact ⟨_, rfl, examine_adds empty p row rest live⟩
    | _ => simp [at_pc] at h
  | endRound =>
    simp only [Migration.step, pc] at h ⊢
    cases at_pc : s.pc with
    | round p =>
      simp only [at_pc] at h ⊢
      cases h
      exact ⟨_, rfl, adds_nothing { s with pc := .idle } empty rfl rfl⟩
    | _ => simp [at_pc] at h

end Client

structure Arrives (z : Zstd) (level : Int) (f : Frame) (payload : List UInt8) (m : Msg) : Prop where
  bytes : wireBytes z level f.body = some (frame payload)
  decodes : decodeFrame z payload = .ok m
  msg : f.body.msg = .ok m
  fits : payload.length ≤ recvBufSize - recvChunkSize - tcpFrameHeaderSize

section Receiver
variable {z : Zstd} {level : Int} {base s : Sys}

theorem arrives_of_carries (hz : z.Lawful) (h : Carries (fun _ => True) s) {c : Conn} {f : Frame}
    (member : f ∈ s.up c) : ∃ payload m, Arrives z level f payload m := by
  rcases h.decodes member with ⟨ctl, body, msg⟩ | ⟨b, -, body, msg⟩
  · exact ⟨ctl.bytes, _, by rw [body]; rfl, RoundTrip.decodeFrame_control z ctl, msg,
      by cases ctl <;> decide⟩
  · have size : blockSize = 0x100000 := rfl
    have scratch : sendScratchSize = 0x130000 := rfl
    have total := blockBytes_length_le b.1
    have len := b.2
    have small : (blockBytes b.1).length < 2 ^ 21 := by omega
    obtain ⟨compressed, zstd⟩ := hz.compresses (blockBytes b.1) level small
    have bound := hz.bounded _ _ _ small zstd
    have room : ¬ zstdCompressBound (blockBytes b.1).length + frameMagicLen + tcpFrameHeaderSize >
        sendScratchSize := by
      simp only [zstdCompressBound, frameMagicLen, tcpFrameHeaderSize]
      omega
    refine ⟨frameMagic ++ compressed, _, ?_, RoundTrip.decodeFrame_data hz len zstd, msg, ?_⟩
    · rw [body, wireBytes, wireFrame, if_neg room, zstd]
      rfl
    · simp only [List.length_append, frameMagic, List.length_cons, List.length_nil,
        zstdCompressBound, recvBufSize, recvChunkSize, tcpFrameHeaderSize] at *
      omega

theorem bytesOf_cons {f : Frame} {payload : List UInt8} {m : Msg} (h : Arrives z level f payload m)
    (frames : List Frame) :
    bytesOf z level (f :: frames) = frame payload ++ bytesOf z level frames := by
  rw [bytesOf, List.flatMap_cons, h.bytes]
  rfl

theorem bytesOf_append (frames later : List Frame) :
    bytesOf z level (frames ++ later) = bytesOf z level frames ++ bytesOf z level later :=
  List.flatMap_append

theorem headersOk_bytesOf {frames : List Frame}
    (h : ∀ f ∈ frames, ∃ payload m, Arrives z level f payload m) :
    HeadersOk (bytesOf z level frames) := by
  induction frames with
  | nil => exact headersOk_nil
  | cons f frames ih =>
    obtain ⟨payload, m, arrives⟩ := h f List.mem_cons_self
    rw [bytesOf_cons arrives]
    exact headersOk_frame arrives.fits (ih fun f member => h f (List.mem_cons_of_mem _ member))

theorem decodeBuffered_part {payload part rest : List UInt8} (missing : rest ≠ [])
    (h : part ++ rest = frame payload)
    (fits : payload.length ≤ recvBufSize - recvChunkSize - tcpFrameHeaderSize) :
    decodeBuffered z part = (.more, part) := by
  have length := congrArg List.length h
  have some_missing : 1 ≤ rest.length := List.length_pos_iff.mpr missing
  simp only [List.length_append, frame, Bytes.beBytes_length] at length
  unfold decodeBuffered
  split
  · rfl
  next header =>
    have declared : frameLen part = payload.length := by
      have small : payload.length < 2 ^ 32 := by
        simp only [recvBufSize, recvChunkSize, tcpFrameHeaderSize] at fits
        omega
      have whole := frameLen_frame small []
      rw [List.append_nil, ← h, frameLen_append (by omega)] at whole
      exact whole
    simp only [declared]
    rw [if_neg, if_pos (by omega)]
    simp only [maxFrameLen, recvBufSize, recvChunkSize, tcpFrameHeaderSize] at fits ⊢
    omega

/-- Whatever part of the bytes of some frames has arrived: the complete frames come out in order
and the rest waits. -/
theorem drain_frames {frames : List Frame}
    (h : ∀ f ∈ frames, ∃ payload m, Arrives z level f payload m) {part rest : List UInt8}
    (cut : part ++ rest = bytesOf z level frames) :
    ∃ (taken left : List Frame) (ms : List Msg) (buf : List UInt8),
      frames = taken ++ left ∧ taken.map (fun f => f.body.msg) = ms.map .ok ∧
        drain (decodeBuffered z) part = ⟨ms, false, buf⟩ ∧
        buf ++ rest = bytesOf z level left := by
  have stable := decodeBuffered_stable z
  induction frames generalizing part with
  | nil =>
    obtain ⟨rfl, rfl⟩ := List.append_eq_nil_iff.mp cut
    exact ⟨[], [], [], [], rfl, rfl, rfl, rfl⟩
  | cons f frames ih =>
    obtain ⟨payload, m, arrives⟩ := h f List.mem_cons_self
    have later := fun f member => h f (List.mem_cons_of_mem _ member)
    rw [bytesOf_cons arrives] at cut
    rcases List.append_eq_append_iff.mp cut with ⟨missing, whole, follows⟩ | ⟨more, whole, follows⟩
    · by_cases complete : missing = []
      · -- exactly this frame has arrived
        subst complete
        rw [List.append_nil] at whole
        have first : decodeBuffered z part = (.item m, []) := by
          have one := RoundTrip.decodeBuffered_frame z arrives.fits []
          rw [List.append_nil, arrives.decodes, whole] at one
          exact one
        refine ⟨[f], frames, [m], [], rfl, by simp [arrives.msg], ?_, by simpa using follows⟩
        rw [drain_item stable first]
        rfl
      · refine ⟨[], f :: frames, [], part, rfl, rfl, ?_, ?_⟩
        · exact drain_more (decodeBuffered_part complete whole.symm arrives.fits)
        · rw [bytesOf_cons arrives, follows, whole, List.append_assoc]
    · obtain ⟨taken, left, ms, buf, split, msgs, drained, waits⟩ := ih later follows.symm
      have first : decodeBuffered z part = (.item m, more) := by
        rw [whole, RoundTrip.decodeBuffered_frame z arrives.fits, arrives.decodes]
        rfl
      refine ⟨f :: taken, left, m :: ms, buf, by rw [split]; rfl, by simp [arrives.msg, msgs], ?_,
        waits⟩
      rw [drain_item stable first, drained]

theorem Same.handled (h : Same base s) (c : Conn) (id : Nat) (rest : List Frame) (d : Dispatched) :
    Same (Migration.handled base c 0 [] d) (Migration.handled s c id rest d) where
  fields := by
    have fields := h.fields
    rw [fields]
    rfl
  ops := by
    simp only [Migration.handled, List.map_append, List.map_map, h.ops]
    rfl

theorem run_deliver (cfg : Config) {c : Conn} {taken left : List Frame} {ms : List Msg}
    (h : Same base s) (up : s.up c = taken ++ left)
    (msgs : taken.map (fun f => f.body.msg) = ms.map .ok) (io : Nat → DiskIo) :
    ∃ as s', run (Migration.step cfg) s as = some s' ∧ (∀ a ∈ as, isDeliver a = true) ∧
      Same (handleAll c ms io base) s' ∧ s'.up = Function.update s.up c left := by
  induction taken generalizing base s ms io with
  | nil =>
    obtain rfl : ms = [] := by simpa using msgs.symm
    refine ⟨[], s, rfl, by simp, h, ?_⟩
    rw [← List.nil_append left, ← up, Function.update_eq_self]
  | cons f taken ih =>
    obtain ⟨m, ms, rfl⟩ : ∃ m ms', ms = m :: ms' := by
      cases ms with
      | nil => simp at msgs
      | cons m ms => exact ⟨m, ms, rfl⟩
    rw [List.map_cons, List.map_cons, List.cons.injEq] at msgs
    have writer : s.writer = base.writer := by rw [h.fields]
    have first : Migration.step cfg s (.deliver c (io 0)) =
        some (Migration.handled s c f.id (taken ++ left) (dispatch base.writer (io 0) m)) := by
      simp only [Migration.step, deliver, up, List.cons_append, msgs.1, writer]
    have next := h.handled c f.id (taken ++ left) (dispatch base.writer (io 0) m)
    have above : (Migration.handled s c f.id (taken ++ left)
        (dispatch base.writer (io 0) m)).up = Function.update s.up c (taken ++ left) := rfl
    obtain ⟨as, s', runs, delivers, same, rest⟩ := ih next (by rw [above, Function.update_self])
      msgs.2 (fun i => io (i + 1))
    refine ⟨.deliver c (io 0) :: as, s', ?_, ?_, same, ?_⟩
    · rw [run, first, Option.bind_some, runs]
    · exact List.forall_mem_cons.mpr ⟨rfl, delivers⟩
    · rw [rest, above, Function.update_idem]

theorem handleAll_up (c : Conn) (ms : List Msg) (io : Nat → DiskIo) (empty : ∀ c, base.up c = []) :
    ∀ c', (handleAll c ms io base).up c' = [] := by
  induction ms generalizing base io with
  | nil => exact empty
  | cons m ms ih =>
    refine ih (fun i => io (i + 1)) fun c' => ?_
    simp only [Migration.handled]
    by_cases here : c' = c
    · rw [here, Function.update_self]
    · rw [Function.update_of_ne here, empty c']

end Receiver

theorem carries_run {cfg : Config} {s s' : Sys} {as : List Migration.Action}
    (h : Carries (fun _ => True) s) (hr : run (Migration.step cfg) s as = some s') :
    Carries (fun _ => True) s' :=
  run_invariant (fun _ _ _ h hs => step_carries h (fun _ _ _ => trivial) (Migration.step_inv hs)) hr h

section Steps
variable {z : Zstd} {level : Int} {cfg : Config} {t t' : State} {s : Sys}

theorem Carried.rerouted (inv : Carried z level t s) : s = reroute s.up s.log t.base := inv.fields

theorem Carried.client (inv : Carried z level t s) {a : Migration.Action} {base : Sys}
    (not_deliver : isDeliver a = false) (h : Migration.step cfg t.base a = some base) :
    ∃ s', Migration.step cfg s a = some s' ∧ Same { base with up := fun _ => [] } s' ∧
      s'.up = (fun c => s.up c ++ base.up c) ∧ Carries (fun _ => True) s' := by
  obtain ⟨s', next, adds⟩ := step_adds not_deliver inv.empty h s.up s.log
  rw [← inv.rerouted] at next
  refine ⟨s', next, ⟨?_, ?_⟩, ?_,
    step_carries inv.carries (fun _ _ _ => trivial) (Migration.step_inv next)⟩
  · rw [adds.result]
    rfl
  · rw [adds.result]
    exact inv.ops.trans (congrArg (List.map Prod.snd) adds.log.symm)
  · rw [adds.result]
    rfl

theorem Carried.sendOut (inv : Carried z level t s) {a : Migration.Action} {base : Sys}
    (not_deliver : isDeliver a = false) (h : Migration.step cfg t.base a = some base)
    (out : sendOut z level t base = some t') :
    ∃ s', Migration.step cfg s a = some s' ∧ Carried z level t' s' := by
  obtain ⟨s', next, same, up, carries⟩ := inv.client not_deliver h
  unfold Transport.sendOut at out
  split at out
  · cases out
    refine ⟨s', next, same, fun _ => rfl, fun c => ?_, inv.waiting, carries⟩
    rw [up, bytesOf_append, ← inv.bytes c, List.append_assoc]
  · cases out

theorem Carried.cut (inv : Carried z level t s) {base : Sys}
    (h : Migration.step cfg t.base (.flushOne .sendFailed) = some base) :
    ∃ s', Migration.step cfg s (.flushOne .sendFailed) = some s' ∧
      Carried z level { t with base := base } s' := by
  obtain ⟨s', next, same, up, carries⟩ := inv.client rfl h
  have unsent : base.up = t.base.up := by
    simp only [Migration.step] at h
    split at h
    · cases h
    · cases h
      unfold flushOne
      cases queuePop t.base.queue with
      | none => rfl
      | some popped =>
        obtain ⟨entry, q⟩ := popped
        cases bytes : entry.payload <;> simp only [bytes]
  have empty : ∀ c, base.up c = [] := fun c => by rw [unsent, inv.empty c]
  have fields : ({ base with up := fun _ => [] } : Sys) = base := by
    have none_under_way : base.up = fun _ => [] := funext empty
    rw [← none_under_way]
  rw [fields] at same
  refine ⟨s', next, same, empty, fun c => ?_, inv.waiting, carries⟩
  simp only [up, empty c, List.append_nil]
  exact inv.bytes c

theorem Carried.recv (cfg : Config) (hz : z.Lawful) (inv : Carried z level t s) {c : Conn} {n : Nat}
    {io : Nat → DiskIo} (h : recv z t c n io = some t') :
    ∃ as s', run (Migration.step cfg) s as = some s' ∧ (∀ a ∈ as, isDeliver a = true) ∧
      Carried z level t' s' := by
  unfold Transport.recv at h
  split at h
  next enabled =>
    obtain ⟨-, short, available⟩ := enabled
    have arrive : ∀ f ∈ s.up c, ∃ payload m, Arrives z level f payload m :=
      fun f member => arrives_of_carries hz inv.carries member
    have cut : (t.recvBuf c ++ (t.stream c).take n) ++ (t.stream c).drop n =
        bytesOf z level (s.up c) := by
      rw [List.append_assoc, List.take_append_drop, inv.bytes c]
    obtain ⟨taken, left, ms, buf, split, msgs, drained, waits⟩ := drain_frames arrive cut
    have headers : HeadersOk (t.recvBuf c ++ t.stream c) := by
      rw [inv.bytes c]
      exact headersOk_bytesOf arrive
    have room := waiting_room headers (inv.waiting c)
    have chunk : handleChunk z (t.recvBuf c) ((t.stream c).take n) = ⟨ms, false, buf⟩ := by
      rw [handleChunk_eq_drain z, drained]
      rw [List.length_take]
      omega
    simp only [chunk, Bool.false_eq_true, if_false] at h
    cases h
    obtain ⟨as, s', runs, delivers, same, up⟩ :=
      run_deliver cfg inv.toSame split msgs io
    refine ⟨as, s', runs, delivers, same, handleAll_up c ms io inv.empty, fun c' => ?_, fun c' => ?_,
      carries_run inv.carries runs⟩
    · by_cases here : c' = c
      · subst here
        simp only [up, Function.update_self]
        exact waits
      · simp only [up, Function.update_of_ne here]
        exact inv.bytes c'
    · by_cases here : c' = c
      · subst here
        simp only [Function.update_self]
        have stops := drain_waits (decodeBuffered_stable z) _ (congrArg Drained.failed drained)
        rw [drained] at stops
        exact stops
      · simp only [Function.update_of_ne here]
        exact inv.waiting c'
  · cases h

theorem step_carried (hz : z.Lawful) (inv : Carried z level t s) {a : Action} (whole : a.Whole)
    (h : step z level cfg t a = some t') :
    ∃ as s', run (Migration.step cfg) s as = some s' ∧ Carried z level t' s' ∧
      ∀ b ∈ as, isDeliver b = true ∨ b = .flushOne .sendFailed ∨ a = .client b := by
  cases a with
  | client a =>
    simp only [step] at h
    split at h
    · cases h
    next not_deliver =>
      obtain ⟨base, next, out⟩ := Option.bind_eq_some_iff.mp h
      obtain ⟨s', answer, carried⟩ := inv.sendOut (by simpa using not_deliver) next out
      exact ⟨[a], s', by simp [run, answer], carried, by simp⟩
  | cut c n =>
    obtain rfl : n = 0 := whole
    obtain ⟨bytes, -, h⟩ := Option.bind_eq_some_iff.mp h
    obtain ⟨-, -, h⟩ := Option.bind_eq_some_iff.mp h
    obtain ⟨base, next, h⟩ := Option.bind_eq_some_iff.mp h
    obtain ⟨s', answer, carried⟩ := inv.cut next
    refine ⟨[.flushOne .sendFailed], s', by simp [run, answer], ?_, by simp⟩
    rw [← Option.some.inj h, List.take_zero, List.append_nil, Function.update_eq_self]
    exact carried
  | recv c n io =>
    obtain ⟨as, s', runs, delivers, carried⟩ := inv.recv cfg hz h
    exact ⟨as, s', runs, carried, fun b member => .inl (delivers b member)⟩

end Steps

theorem carried_start (z : Zstd) (level : Int) (w : Writer) :
    Carried z level (start w) (init w) where
  fields := rfl
  ops := rfl
  empty _ := rfl
  bytes _ := rfl
  waiting _ := rfl
  carries := carries_init w

/-- A run on bytes is answered by a run on frames that reads the same blocks. -/
theorem run_carried {z : Zstd} (hz : z.Lawful) {level : Int} {cfg : Config} {w : Writer}
    {actions : List Action} {t : State} (h : run (step z level cfg) (start w) actions = some t)
    (whole : ∀ a ∈ actions, a.Whole) (P : ReadBlock → Prop)
    (reads : ∀ b version, .client (.sendBlock b version) ∈ actions → P b) :
    ∃ as s, run (Migration.step cfg) (init w) as = some s ∧ Carried z level t s ∧
      ∀ b version, Migration.Action.sendBlock b version ∈ as → P b := by
  obtain ⟨as, s, runs, carried, same_reads⟩ := run_answers
    (fun a => a.Whole ∧ a ∈ actions)
    (fun b : Migration.Action => ∀ read version, b = .sendBlock read version → P read)
    (fun t a t' s inv allowed next => by
      obtain ⟨as, s', runs, carried, answers⟩ := step_carried hz inv allowed.1 next
      refine ⟨as, s', runs, carried, fun b member read version is_read => ?_⟩
      subst is_read
      rcases answers _ member with delivers | failed | same
      · cases delivers
      · cases failed
      · exact reads read version (same ▸ allowed.2))
    (carried_start z level w) h fun a member => ⟨whole a member, member⟩
  exact ⟨as, s, runs, carried, fun b version member => same_reads _ member b version rfl⟩

/-- Every run on byte streams, however recv() cuts them, is a run on frames that are delivered
whole and in order: same client, same disks and same answers, and under way are exactly the bytes
of the frames not yet handled. -/
theorem bytes_refine_frames (z : Zstd) (hz : z.Lawful) (level : Int) (cfg : Config) (w : Writer)
    (actions : List Action) (t : State)
    (h : run (step z level cfg) (start w) actions = some t) (whole : ∀ a ∈ actions, a.Whole) :
    ∃ as s, run (Migration.step cfg) (init w) as = some s ∧ Carried z level t s := by
  obtain ⟨as, s, runs, carried, -⟩ := run_carried hz h whole (fun _ => True) fun _ _ _ => trivial
  exact ⟨as, s, runs, carried⟩

def twoPieces : List Action :=
  -- a block goes out, arrives in two pieces, is written and acknowledged
  [.client (.sendBlock ⟨⟨0, 512, [1, 2, 3]⟩, Reader.threeBytes_fit⟩ 0), .client (.push true 0),
    .client (.flushOne (.sentOn 3)), .recv 3 10 (fun _ => ⟨true, [], []⟩),
    .recv 3 25 (fun _ => ⟨true, [.wrote 1], []⟩), .client (.recvAck 3)]

theorem twoPieces_whole : ∀ a ∈ twoPieces, a.Whole := by
  simp [twoPieces, Action.Whole]

theorem twoPieces_isSome :
    (run (step storedZstd 3 ⟨false, "10.0.0.1:3400"⟩) (start blankWriter) twoPieces).isSome = true := by
  decide +kernel

theorem bytes_refine_frames_twoPieces :
    ∃ t as s, run (step storedZstd 3 ⟨false, "10.0.0.1:3400"⟩) (start blankWriter) twoPieces = some t ∧
      run (Migration.step ⟨false, "10.0.0.1:3400"⟩) (init blankWriter) as = some s ∧
      Carried storedZstd 3 t s := by
  obtain ⟨t, runs⟩ := Option.isSome_iff_exists.1 twoPieces_isSome
  obtain ⟨as, s, frames, carried⟩ := bytes_refine_frames storedZstd storedZstd_lawful 3
    ⟨false, "10.0.0.1:3400"⟩ blankWriter twoPieces t runs twoPieces_whole
  exact ⟨t, as, s, runs, frames, carried⟩

section FullMode
open Mirror

/-- In full mode over a fixed source, whatever the connections, cuts and failed writes: a row with
ack = 1 has the source's bytes on the disk of its device. -/
theorem acked_row_on_target {z : Zstd} (hz : z.Lawful) {level : Int} {src : Source}
    {len : Tracker.Key → Nat} {w : Writer} {remoteId : String} {actions : List Action} {t : State}
    (h : run (step z level ⟨false, remoteId⟩) (start w) actions = some t)
    (whole : ∀ a ∈ actions, a.Whole)
    (reads : ∀ b version, .client (.sendBlock b version) ∈ actions → FromSource src len b.1) :
    ∀ row ∈ t.base.db.rows, row.ack = true →
      Matches src t.base.writer.store row.key (len row.key) := by
  obtain ⟨as, s, runs, carried, same_reads⟩ := run_carried hz h whole _ reads
  have given : ∀ a ∈ as, FullMode.ReadsSource src len a := by
    intro a member
    cases a with
    | sendBlock b version => exact same_reads b version member
    | _ => trivial
  have start : FullMode.Inv (fun _ => False) src len (init w) :=
    FullMode.inv_resumed w (by simp [Keyed.empty])
  have inv : FullMode.Inv (fun _ => False) src len s :=
    run_invariant_of_meets (fun _ _ _ h cond hs => FullMode.step_inv h rfl cond hs) runs
      (meets_of_forall _ fun a member _ => given a member) start
  intro row member ack
  have db : s.db = t.base.db := by rw [carried.fields]
  have writer : s.writer = t.base.writer := by rw [carried.fields]
  rw [← writer]
  exact (inv.rows row (db ▸ member) ack).resolve_left id

end FullMode

end Go2Cloud.Transport
