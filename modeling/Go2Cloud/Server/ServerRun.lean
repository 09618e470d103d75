import Go2Cloud.Server.Receiver
import Go2Cloud.Server.Segmentation

/-! The receiver's main loop (server_run and handle_session in server/main.c, session.c): select,
at most one accept, then one walk over the session table. Every run of the loop is a run of the
receiver that takes connections and messages in any order (`Go2Cloud.Receiver`), not the other
way round: a walk passes over the session behind one it removes. -/
namespace Go2Cloud.ServerRun
open Protocol BlockWriter Decoder Incremental Segmentation Transition Wire
open Receiver (dispatch Dispatched maxSessions)

-- what one recv() into tmp_buf brings
abbrev Chunk := {bytes : List UInt8 // 1 ≤ bytes.length ∧ bytes.length ≤ recvChunkSize}

inductive RecvResult where
  -- `io` is what the disk does for the messages the chunk completes
  | data (chunk : Chunk) (io : Nat → DiskIo)
  | wouldBlock
  | closed
  | error

/-- What one call of handle_session meets; a socket with no result left would block. -/
structure Visit where
  calloc : Bool
  recvs : List RecvResult

/-- session_t. Descriptors are used again, so sessions are numbered as they are created. -/
structure Session where
  number : Nat
  fd : Int
  recvBuf : List UInt8
  incremental : Bool
  blocksReceived : UInt64
  bytesReceived : UInt64

inductive Happening where
  | opened (fd : Int)
  | created (number : Nat)
  | visited (number : Nat)
  | received (number : Nat) (chunk : List UInt8)
  | handled (number : Nat) (io : DiskIo) (m : Msg)
  | removed (number : Nat)
  | closed (fd : Int)

structure State where
  writer : Writer
  sessions : List Session
  created : Nat
  stopped : Bool
  log : List Happening

def State.fds (st : State) : List Int := st.sessions.map Session.fd

def start (w : Writer) : State := ⟨w, [], 0, false, []⟩

structure Config where
  listenFd : Int
  maxConnections : Int

structure Client where
  -- a connection accept() returned, and whether session_create gets its memory
  fd : Int
  calloc : Bool

/-- The result of select() in one turn of the loop. `listening` is set if the listening socket
is ready; its connection may be gone again by then. -/
inductive Pass where
  | interrupted
  | failed
  | selected (listening : Option (Option Client)) (ready : Int → Bool) (visits : Int → Visit)

structure Progress where
  writer : Writer
  session : Session
  log : List Happening

def Session.afterMsg (s : Session) (m : Msg) (d : Dispatched) : Session :=
  { s with
    incremental := s.incremental || decide (m = .control .incremental)
    blocksReceived := s.blocksReceived + if d.counted.isSome then 1 else 0
    bytesReceived := s.bytesReceived + UInt64.ofNat (d.counted.getD 0) }

def handleMsg (p : Progress) (io : DiskIo) (m : Msg) : Progress :=
  let d := dispatch p.writer io m
  ⟨d.writer, p.session.afterMsg m d, p.log ++ [.handled p.session.number io m]⟩

def handleMsgs : List Msg → (Nat → DiskIo) → Progress → Progress
  | [], _, p => p
  | m :: ms, io, p => handleMsgs ms (fun i => io (i + 1)) (handleMsg p (io 0) m)

def receive (z : Zstd) (p : Progress) (chunk : Chunk) : Progress :=
  { p with
    session := { p.session with recvBuf := (handleChunk z p.session.recvBuf chunk.1).buf }
    log := p.log ++ [.received p.session.number chunk.1] }

def recvLoop (z : Zstd) : List RecvResult → Progress → Progress × Bool
  -- the loop of handle_session, and whether it ends by session_remove
  | [], p => (p, false)
  | .wouldBlock :: _, p => (p, false)
  | .closed :: _, p => (p, true)
  | .error :: _, p => (p, true)
  | .data chunk io :: rest, p =>
    let d := handleChunk z p.session.recvBuf chunk.1
    let p' := handleMsgs d.items io (receive z p chunk)
    if d.failed then (p', true) else recvLoop z rest p'

def handleSession (z : Zstd) (visit : Visit) (p : Progress) : Progress × Bool :=
  if visit.calloc then recvLoop z visit.recvs p else (p, true)

def sessionRemove (fd : Int) : List Session → List Session
  -- the first session with the descriptor is taken out and the others move up
  | [] => []
  | s :: rest => if s.fd = fd then rest else s :: sessionRemove fd rest

section Loop
variable (z : Zstd) (isset : Int → Bool) (visits : Int → Visit)

def handleActiveCb (i : Nat) (s : Session) (st : State) : State :=
  if isset s.fd then
    let r := handleSession z (visits s.fd) ⟨st.writer, s, st.log ++ [.visited s.number]⟩
    if r.2 then
      { st with
        writer := r.1.writer
        sessions := sessionRemove s.fd st.sessions
        log := r.1.log ++ [.removed s.number, .closed s.fd] }
    else { st with writer := r.1.writer, sessions := st.sessions.set i r.1.session, log := r.1.log }
  else st

theorem sessionRemove_length_le (fd : Int) (sessions : List Session) :
    (sessionRemove fd sessions).length ≤ sessions.length := by
  induction sessions with
  | nil => exact le_rfl
  | cons s rest ih =>
    rw [sessionRemove]
    split
    · exact Nat.le_succ _
    · exact Nat.succ_le_succ ih

theorem handleActiveCb_length_le (i : Nat) (s : Session) (st : State) :
    (handleActiveCb z isset visits i s st).sessions.length ≤ st.sessions.length := by
  unfold handleActiveCb
  split
  · simp only
    split
    · exact sessionRemove_length_le ..
    · exact (List.length_set ..).le
  · exact le_rfl

theorem handleActiveCb_remaining {i : Nat} {st : State} (inside : i < st.sessions.length)
    (s : Session) :
    (handleActiveCb z isset visits i s st).sessions.length - (i + 1) < st.sessions.length - i := by
  have shorter := handleActiveCb_length_le z isset visits i s st
  omega

def sessionForeach (i : Nat) (st : State) : State :=
  -- session_foreach(handle_active_cb) from index `i` on
  if inside : i < st.sessions.length then
    sessionForeach (i + 1) (handleActiveCb z isset visits i st.sessions[i] st)
  else st
termination_by st.sessions.length - i
decreasing_by exact handleActiveCb_remaining z isset visits inside _

end Loop

def sessionCreate (st : State) (client : Client) : Option State :=
  if st.sessions.length ≥ maxSessions then none
  else if client.calloc then
    some { st with
      sessions := st.sessions ++ [⟨st.created, client.fd, [], false, 0, 0⟩]
      created := st.created + 1
      log := st.log ++ [.created st.created] }
  else none

def acceptClient (cfg : Config) (st : State) (client : Client) : State :=
  let opened := { st with log := st.log ++ [.opened client.fd] }
  let refused := { opened with log := opened.log ++ [.closed client.fd] }
  if (st.sessions.length : Int) ≥ cfg.maxConnections then refused
  else (sessionCreate opened client).getD refused

def findMaxFd (listenFd : Int) (sessions : List Session) : Int :=
  sessions.foldl (fun maxFd s => if s.fd > maxFd then s.fd else maxFd) listenFd

/-- FD_ISSET after select(): of the descriptors collected before it, those below its first
argument that are ready. -/
def isset (cfg : Config) (st : State) (ready : Int → Bool) (fd : Int) : Bool :=
  decide (fd ∈ st.fds) && decide (fd < findMaxFd cfg.listenFd st.sessions + 1) && ready fd

def accepted (cfg : Config) (st : State) : Option (Option Client) → State
  | some (some client) => acceptClient cfg st client
  | _ => st

def step (cfg : Config) (z : Zstd) (st : State) (pass : Pass) : Option State :=
  -- one turn of the loop of server_run
  if st.stopped then none
  else
    match pass with
    | .interrupted => some st
    | .failed => some { st with stopped := true }
    | .selected listening ready visits =>
      some (sessionForeach z (isset cfg st ready) visits 0 (accepted cfg st listening))

def Fresh (cfg : Config) (st : State) : Pass → Prop
  | .selected (some (some client)) _ _ => client.fd ≠ cfg.listenFd ∧ client.fd ∉ st.fds
  | _ => True

instance (cfg : Config) (st : State) : (pass : Pass) → Decidable (Fresh cfg st pass)
  | .interrupted => .isTrue trivial
  | .failed => .isTrue trivial
  | .selected (some (some client)) _ _ =>
    inferInstanceAs (Decidable (client.fd ≠ cfg.listenFd ∧ client.fd ∉ st.fds))
  | .selected (some none) _ _ => .isTrue trivial
  | .selected none _ _ => .isTrue trivial

def Happening.events : Happening → List Receiver.Event
  | .created _ => [.accept true]
  | .handled number io m => if fits : m.DataFits then [.message number io m fits] else []
  | .removed number => [.remove number]
  | _ => []

def Happening.source : Happening → Option (Nat × Msg)
  | .handled number _ m => some (number, m)
  | _ => none

def Happening.session : Happening → Option Nat
  | .received number _ => some number
  | .handled number _ _ => some number
  | _ => none

def chunks (number : Nat) (log : List Happening) : List (List UInt8) :=
  log.filterMap fun
    | .received n chunk => if n = number then some chunk else none
    | _ => none

def messages (number : Nat) (log : List Happening) : List Msg :=
  log.filterMap fun
    | .handled n _ m => if n = number then some m else none
    | _ => none

@[simp] theorem chunks_append (number : Nat) (log new : List Happening) :
    chunks number (log ++ new) = chunks number log ++ chunks number new :=
  List.filterMap_append

@[simp] theorem messages_append (number : Nat) (log new : List Happening) :
    messages number (log ++ new) = messages number log ++ messages number new :=
  List.filterMap_append

theorem protocolDecode_dataFits {z : Zstd} (hz : z.Lawful) {buf chunk r : List UInt8} {m : Msg}
    (h : protocolDecode z buf chunk = (.item m, r)) : m.DataFits := by
  unfold protocolDecode at h
  split at h
  · cases h
  rcases decodeBuffered_cases z (buf ++ chunk) with ⟨-, e⟩ | ⟨-, -, e⟩ | ⟨-, -, e⟩
  · rw [h] at e
    cases e
  · rw [h] at e
    cases e
  · rw [h, Prod.mk.injEq] at e
    cases decoded : decodeFrame z (frameData (buf ++ chunk)) with
    | error err =>
      rw [decoded] at e
      cases e.1
    | ok m' =>
      rw [decoded] at e
      obtain rfl : m = m' := by simpa [Outcome.ofExcept] using e.1
      exact decodeFrame_dataFits hz decoded

theorem handleChunk_dataFits {z : Zstd} (hz : z.Lawful) {buf chunk : List UInt8} {m : Msg}
    (h : m ∈ (handleChunk z buf chunk).items) : m.DataFits := by
  rcases drainLoop_mem h with ⟨r, first⟩ | ⟨s, r, later⟩
  · exact protocolDecode_dataFits hz first
  · exact protocolDecode_dataFits hz later

structure Matches (s : Session) (rs : Receiver.Session) : Prop where
  live : rs.live = true
  incremental : rs.incremental = s.incremental
  blocks : rs.blocksReceived = s.blocksReceived
  bytes : rs.bytesReceived = s.bytesReceived

def worked (r : Receiver.State) (number : Nat) (rs : Receiver.Session) (w : Writer) :
    Receiver.State :=
  { r with writer := w, sessions := r.sessions.set number rs }

structure Served (z : Zstd) (p : Progress) (new : List Happening) (p' : Progress) : Prop where
  log : p'.log = p.log ++ new
  number : p'.session.number = p.session.number
  fd : p'.session.fd = p.session.fd
  own : ∀ e ∈ new, e.session = some p.session.number
  fits : z.Lawful → ∀ e ∈ new, ∀ n m, e.source = some (n, m) → m.DataFits
  simulated : z.Lawful → ∀ r rs, r.writer = p.writer → r.sessions[p.session.number]? = some rs →
    Matches p.session rs → ∃ rs', Matches p'.session rs' ∧
      run Receiver.step r (new.flatMap Happening.events) =
        some (worked r p.session.number rs' p'.writer)

section Served
variable {z : Zstd} {p p' p'' : Progress} {new new' : List Happening}

theorem worked_sessions {r : Receiver.State} {number : Nat} {rs : Receiver.Session}
    (h : r.sessions[number]? = some rs) (rs' : Receiver.Session) (w : Writer) :
    (worked r number rs' w).sessions[number]? = some rs' := by
  have inside := (List.getElem?_eq_some_iff.mp h).1
  simp [worked, inside]

theorem worked_self {r : Receiver.State} {number : Nat} {rs : Receiver.Session}
    (h : r.sessions[number]? = some rs) : worked r number rs r.writer = r := by
  obtain ⟨inside, rfl⟩ := List.getElem?_eq_some_iff.mp h
  rw [worked, List.set_getElem_self]

theorem worked_worked (r : Receiver.State) (number : Nat) (rs rs' : Receiver.Session)
    (w w' : Writer) : worked (worked r number rs w) number rs' w' = worked r number rs' w' := by
  simp [worked, List.set_set]

theorem remove_worked {r : Receiver.State} {number : Nat} {rs rs' : Receiver.Session} {w : Writer}
    (h : r.sessions[number]? = some rs) (live : rs'.live = true) :
    Receiver.step (worked r number rs' w) (.remove number) =
      some (worked r number { rs' with live := false } w) := by
  have found := worked_sessions h rs' w
  simp only [Receiver.step, found, live, guard, if_true, Option.bind_eq_bind, Option.pure_def,
    Option.bind_some]
  rw [worked, worked, List.set_set]

theorem Served.refl (z : Zstd) (p : Progress) : Served z p [] p where
  log := (List.append_nil _).symm
  number := rfl
  fd := rfl
  own := by simp
  fits := by simp
  simulated _ r rs writer found same :=
    ⟨rs, same, by rw [← writer, worked_self found]; rfl⟩

theorem Served.trans (h : Served z p new p') (h' : Served z p' new' p'') :
    Served z p (new ++ new') p'' where
  log := by rw [h'.log, h.log, List.append_assoc]
  number := h'.number.trans h.number
  fd := h'.fd.trans h.fd
  own := by
    intro e member
    rcases List.mem_append.mp member with first | later
    · exact h.own e first
    · rw [h'.own e later, h.number]
  fits hz := by
    intro e member
    rcases List.mem_append.mp member with first | later
    · exact h.fits hz e first
    · exact h'.fits hz e later
  simulated hz r rs writer found same := by
    obtain ⟨rs', same', first⟩ := h.simulated hz r rs writer found same
    have found' := worked_sessions found rs' p'.writer
    rw [← h.number] at found'
    obtain ⟨rs'', same'', later⟩ := h'.simulated hz _ rs' rfl found' same'
    refine ⟨rs'', same'', ?_⟩
    rw [List.flatMap_append, run_append, first, Option.bind_some]
    rw [h.number, worked_worked] at later
    exact later

theorem served_handleMsg (p : Progress) (io : DiskIo) {m : Msg} (fits : z.Lawful → m.DataFits) :
    Served z p [.handled p.session.number io m] (handleMsg p io m) where
  log := rfl
  number := rfl
  fd := rfl
  own := by simp [Happening.session]
  fits hz := by
    intro e member n m' source
    rw [List.mem_singleton.mp member] at source
    cases source
    exact fits hz
  simulated hz r rs writer found same := by
    refine ⟨rs.afterMsg m (dispatch p.writer io m), ⟨same.live, ?_, ?_, ?_⟩, ?_⟩
    · simp [Receiver.Session.afterMsg, handleMsg, Session.afterMsg, same.incremental]
    · simp [Receiver.Session.afterMsg, handleMsg, Session.afterMsg, same.blocks]
    · simp [Receiver.Session.afterMsg, handleMsg, Session.afterMsg, same.bytes]
    · simp [Happening.events, fits hz, run, Receiver.step, found, same.live, guard,
        Receiver.handleMsg, worked, handleMsg, writer]

def handlings (number : Nat) : List Msg → (Nat → DiskIo) → List Happening
  | [], _ => []
  | m :: ms, io => .handled number (io 0) m :: handlings number ms fun i => io (i + 1)

theorem served_handleMsgs (p : Progress) (io : Nat → DiskIo) {ms : List Msg}
    (fits : z.Lawful → ∀ m ∈ ms, m.DataFits) :
    Served z p (handlings p.session.number ms io) (handleMsgs ms io p) := by
  induction ms generalizing p io with
  | nil => exact .refl z p
  | cons m ms ih =>
    have first := served_handleMsg p (io 0) (z := z) fun hz => fits hz m List.mem_cons_self
    have later := ih (handleMsg p (io 0) m) (fun i => io (i + 1)) fun hz m' member =>
      fits hz m' (List.mem_cons_of_mem _ member)
    exact first.trans later

theorem served_receive (z : Zstd) (p : Progress) (chunk : Chunk) :
    Served z p [.received p.session.number chunk.1] (receive z p chunk) where
  log := rfl
  number := rfl
  fd := rfl
  own := by simp [Happening.session]
  fits _ := by
    intro e member n m source
    rw [List.mem_singleton.mp member] at source
    cases source
  simulated _ r rs writer found same :=
    ⟨rs, ⟨same.live, same.incremental, same.blocks, same.bytes⟩, by
      rw [receive, ← writer, worked_self found]; rfl⟩

theorem messages_handlings (number : Nat) (ms : List Msg) (io : Nat → DiskIo) :
    messages number (handlings number ms io) = ms := by
  induction ms generalizing io with
  | nil => rfl
  | cons m ms ih =>
    have rest := ih fun i => io (i + 1)
    simp only [messages, handlings, List.filterMap_cons, if_true] at rest ⊢
    rw [rest]

theorem chunks_handlings (number : Nat) (ms : List Msg) (io : Nat → DiskIo) :
    chunks number (handlings number ms io) = [] := by
  induction ms generalizing io with
  | nil => rfl
  | cons m ms ih => exact ih fun i => io (i + 1)

theorem recvBuf_handleMsgs (ms : List Msg) (io : Nat → DiskIo) (p : Progress) :
    (handleMsgs ms io p).session.recvBuf = p.session.recvBuf := by
  induction ms generalizing io p with
  | nil => rfl
  | cons m ms ih => exact ih (fun i => io (i + 1)) (handleMsg p (io 0) m)

end Served

structure Decodes (z : Zstd) (p : Progress) (new : List Happening) (p' : Progress) (gone : Bool) :
    Prop where
  sizes : ∀ chunk ∈ chunks p.session.number new,
    1 ≤ chunk.length ∧ chunk.length ≤ recvChunkSize
  items : (Decoder.handleSession z p.session.recvBuf (chunks p.session.number new)).items =
    messages p.session.number new
  kept : gone = false →
    (Decoder.handleSession z p.session.recvBuf (chunks p.session.number new)).failed = false ∧
      (Decoder.handleSession z p.session.recvBuf (chunks p.session.number new)).buf =
        p'.session.recvBuf

theorem Decodes.nothing (z : Zstd) (p : Progress) (gone : Bool) : Decodes z p [] p gone where
  sizes := by simp [chunks]
  items := rfl
  kept _ := ⟨rfl, rfl⟩

theorem recvLoop_spec (z : Zstd) (recvs : List RecvResult) (p : Progress) :
    ∃ new, Served z p new (recvLoop z recvs p).1 ∧
      Decodes z p new (recvLoop z recvs p).1 (recvLoop z recvs p).2 := by
  induction recvs generalizing p with
  | nil => exact ⟨[], .refl z p, .nothing z p false⟩
  | cons result recvs ih =>
    cases result with
    | wouldBlock => exact ⟨[], .refl z p, .nothing z p false⟩
    | closed => exact ⟨[], .refl z p, .nothing z p true⟩
    | error => exact ⟨[], .refl z p, .nothing z p true⟩
    | data chunk io =>
      have fits : z.Lawful → ∀ m ∈ (handleChunk z p.session.recvBuf chunk.1).items, m.DataFits :=
        fun hz m member => handleChunk_dataFits hz member
      have now := (served_receive z p chunk).trans
        (served_handleMsgs (receive z p chunk) io fits)
      have number : (receive z p chunk).session.number = p.session.number := rfl
      rw [number] at now
      generalize stage : handleMsgs (handleChunk z p.session.recvBuf chunk.1).items io
        (receive z p chunk) = mid at now
      have buf : mid.session.recvBuf = (handleChunk z p.session.recvBuf chunk.1).buf := by
        rw [← stage, recvBuf_handleMsgs]
        rfl
      generalize heard : [Happening.received p.session.number chunk.1] ++
        handlings p.session.number (handleChunk z p.session.recvBuf chunk.1).items io = new at now
      have taken : chunks p.session.number new = [chunk.1] := by
        rw [← heard, chunks_append, chunks_handlings]
        simp [chunks]
      have done : messages p.session.number new =
          (handleChunk z p.session.recvBuf chunk.1).items := by
        rw [← heard, messages_append, messages_handlings]
        simp [messages]
      simp only [recvLoop, stage]
      cases failed : (handleChunk z p.session.recvBuf chunk.1).failed with
      | true =>
        refine ⟨new, now, ?_, ?_, by simp⟩
        · simpa [taken] using chunk.2
        · simp [taken, done, Decoder.handleSession, failed]
      | false =>
        obtain ⟨later, served, decodes⟩ := ih mid
        refine ⟨new ++ later, now.trans served, ?_, ?_, ?_⟩
        · intro c member
          rw [chunks_append, taken, List.singleton_append, List.mem_cons] at member
          rcases member with rfl | member
          · exact chunk.2
          · rw [← now.number] at member
            exact decodes.sizes c member
        · have rest := decodes.items
          rw [buf, now.number] at rest
          simp [taken, done, Decoder.handleSession, failed, rest]
        · intro kept
          have rest := decodes.kept kept
          rw [buf, now.number] at rest
          simpa [taken, Decoder.handleSession, failed] using rest

theorem handleSession_spec (z : Zstd) (visit : Visit) (p : Progress) :
    ∃ new, Served z p new (handleSession z visit p).1 ∧
      Decodes z p new (handleSession z visit p).1 (handleSession z visit p).2 := by
  unfold handleSession
  split
  · exact recvLoop_spec z visit.recvs p
  · exact ⟨[], .refl z p, .nothing z p true⟩

theorem sessionRemove_fds (fd : Int) (sessions : List Session) :
    (sessionRemove fd sessions).map Session.fd = (sessions.map Session.fd).erase fd := by
  induction sessions with
  | nil => rfl
  | cons s rest ih =>
    rw [sessionRemove, List.map_cons, List.erase_cons]
    by_cases here : s.fd = fd
    · rw [if_pos here, if_pos (by simpa using here)]
    · rw [if_neg here, if_neg (by simpa using here), List.map_cons, ih]

theorem sessionRemove_eq_eraseIdx {sessions : List Session} {i : Nat} {s : Session}
    (distinct : (sessions.map Session.fd).Nodup) (found : sessions[i]? = some s) :
    sessionRemove s.fd sessions = sessions.eraseIdx i := by
  induction sessions generalizing i with
  | nil => simp at found
  | cons t rest ih =>
    obtain ⟨fresh, distinct⟩ := List.nodup_cons.mp distinct
    cases i with
    | zero =>
      obtain rfl : t = s := by simpa using found
      rw [sessionRemove, if_pos rfl, List.eraseIdx_zero, List.tail_cons]
    | succ i =>
      have found : rest[i]? = some s := by simpa using found
      have other : t.fd ≠ s.fd := fun same =>
        fresh (same ▸ List.mem_map_of_mem (List.mem_of_getElem? found))
      rw [sessionRemove, if_neg other, ih distinct found, List.eraseIdx_cons_succ]

def resume (st : State) (i : Nat) (p : Progress) : State :=
  { st with writer := p.writer, sessions := st.sessions.set i p.session, log := p.log }

def discard (st : State) (i : Nat) (s : Session) (p : Progress) : State :=
  { st with
    writer := p.writer
    sessions := st.sessions.eraseIdx i
    log := p.log ++ [.removed s.number, .closed s.fd] }

structure Called (z : Zstd) (st : State) (i : Nat) (s : Session) (st' : State) (gone : Bool)
    (new : List Happening) (p : Progress) : Prop where
  served : Served z ⟨st.writer, s, st.log ++ [.visited s.number]⟩ new p
  decodes : Decodes z ⟨st.writer, s, st.log ++ [.visited s.number]⟩ new p gone
  result : st' = if gone then discard st i s p else resume st i p

theorem handleActiveCb_spec (z : Zstd) (isset : Int → Bool) (visits : Int → Visit) {st : State}
    {i : Nat} {s : Session} (distinct : st.fds.Nodup) (found : st.sessions[i]? = some s) :
    (isset s.fd = false ∧ handleActiveCb z isset visits i s st = st) ∨
      isset s.fd = true ∧ ∃ gone new p,
        Called z st i s (handleActiveCb z isset visits i s st) gone new p := by
  unfold handleActiveCb
  cases active : isset s.fd with
  | false => exact .inl ⟨rfl, rfl⟩
  | true =>
    obtain ⟨new, served, decodes⟩ := handleSession_spec z (visits s.fd)
      ⟨st.writer, s, st.log ++ [.visited s.number]⟩
    refine .inr ⟨rfl, _, new, _, served, decodes, ?_⟩
    simp only [if_true, sessionRemove_eq_eraseIdx distinct found]
    rfl

/-- What every call made for a session of the table keeps, a walk keeps. -/
theorem sessionForeach_invariant {z : Zstd} {isset : Int → Bool} {visits : Int → Visit}
    {P : State → Prop}
    (keeps : ∀ st i s, P st → st.sessions[i]? = some s → P (handleActiveCb z isset visits i s st))
    (i : Nat) {st : State} (start : P st) : P (sessionForeach z isset visits i st) := by
  fun_induction sessionForeach z isset visits i st with
  | case1 i st inside ih => exact ih (keeps st i _ start (List.getElem?_eq_getElem inside))
  | case2 => exact start

/-- The open descriptors, replayed: one is opened only while it is free and closed only while
it is open. -/
def fdStep (fds : List Int) : Happening → Option (List Int)
  | .opened fd => if fd ∈ fds then none else some (fds ++ [fd])
  | .closed fd => if fd ∈ fds then some (fds.erase fd) else none
  | _ => some fds

theorem run_fdStep_own {new : List Happening} {n : Nat} (own : ∀ e ∈ new, e.session = some n)
    (fds : List Int) : run fdStep fds new = some fds := by
  induction new with
  | nil => rfl
  | cons e new ih =>
    have here : fdStep fds e = some fds := by
      have belongs := own e List.mem_cons_self
      cases e <;> first | rfl | cases belongs
    rw [run, here]
    exact ih fun e member => own e (List.mem_cons_of_mem _ member)

structure Sound (cfg : Config) (st : State) : Prop where
  distinct : st.fds.Nodup
  unlistened : cfg.listenFd ∉ st.fds
  limit : st.sessions.length ≤ maxSessions
  configured : (st.sessions.length : Int) ≤ max cfg.maxConnections 0
  ordered : (st.sessions.map Session.number).Pairwise (· < ·)
  known : ∀ s ∈ st.sessions, s.number < st.created
  accounted : run fdStep [] st.log = some st.fds

section Sound
variable {cfg : Config} {z : Zstd} {st st' : State} {i : Nat} {s : Session} {gone : Bool}
  {new : List Happening} {p : Progress}

theorem fds_resume (h : Called z st i s st' gone new p) (found : st.sessions[i]? = some s) :
    (resume st i p).fds = st.fds := by
  obtain ⟨inside, rfl⟩ := List.getElem?_eq_some_iff.mp found
  have same : p.session.fd = st.sessions[i].fd := h.served.fd
  rw [State.fds, resume, List.map_set, same, ← List.map_set, List.set_getElem_self]
  rfl

theorem numbers_resume (h : Called z st i s st' gone new p) (found : st.sessions[i]? = some s) :
    (resume st i p).sessions.map Session.number = st.sessions.map Session.number := by
  obtain ⟨inside, rfl⟩ := List.getElem?_eq_some_iff.mp found
  have same : p.session.number = st.sessions[i].number := h.served.number
  rw [resume, List.map_set, same, ← List.map_set, List.set_getElem_self]

theorem fds_discard (found : st.sessions[i]? = some s) (distinct : st.fds.Nodup) :
    (discard st i s p).fds = st.fds.erase s.fd := by
  rw [State.fds, discard, ← sessionRemove_eq_eraseIdx distinct found, sessionRemove_fds]
  rfl

theorem run_fdStep_called (inv : Sound cfg st) (h : Called z st i s st' gone new p) :
    run fdStep [] p.log = some st.fds := by
  rw [h.served.log, run_append, run_append, inv.accounted]
  simp only [Option.bind_some, run, fdStep]
  exact run_fdStep_own h.served.own st.fds

theorem Sound.resume (inv : Sound cfg st) (h : Called z st i s st' gone new p)
    (found : st.sessions[i]? = some s) : Sound cfg (resume st i p) := by
  have fds := fds_resume h found
  have numbers := numbers_resume h found
  have length : (ServerRun.resume st i p).sessions.length = st.sessions.length := List.length_set ..
  refine ⟨fds ▸ inv.distinct, fds ▸ inv.unlistened, length ▸ inv.limit, length ▸ inv.configured,
    numbers ▸ inv.ordered, fun t member => ?_, ?_⟩
  · have listed : t.number ∈ st.sessions.map Session.number :=
      numbers ▸ List.mem_map_of_mem member
    obtain ⟨t', member', same⟩ := List.mem_map.mp listed
    exact same ▸ inv.known t' member'
  · rw [fds]
    exact run_fdStep_called inv h

theorem Sound.discard (inv : Sound cfg st) (h : Called z st i s st' gone new p)
    (found : st.sessions[i]? = some s) : Sound cfg (discard st i s p) := by
  have fds := fds_discard (p := p) found inv.distinct
  have sub : ((ServerRun.discard st i s p).sessions).Sublist st.sessions := List.eraseIdx_sublist ..
  have length : (ServerRun.discard st i s p).sessions.length ≤ st.sessions.length := sub.length_le
  have limit := inv.limit
  have configured := inv.configured
  refine ⟨fds ▸ inv.distinct.erase _, fun member => ?_, by omega, by omega,
    inv.ordered.sublist (sub.map _), fun t member => inv.known t (sub.subset member), ?_⟩
  · rw [fds] at member
    exact inv.unlistened (List.mem_of_mem_erase member)
  · have member : s.fd ∈ st.fds := List.mem_map_of_mem (List.mem_of_getElem? found)
    rw [fds, ServerRun.discard, run_append, run_fdStep_called inv h]
    simp [run, fdStep, member]

theorem Sound.handleActiveCb (inv : Sound cfg st) (isset : Int → Bool) (visits : Int → Visit)
    (found : st.sessions[i]? = some s) : Sound cfg (handleActiveCb z isset visits i s st) := by
  rcases handleActiveCb_spec z isset visits inv.distinct found with ⟨-, same⟩ | ⟨-, gone, new, p, h⟩
  · rw [same]
    exact inv
  · rw [h.result]
    cases gone with
    | true => exact inv.discard h found
    | false => exact inv.resume h found

end Sound

theorem other_number {cfg : Config} {st : State} (inv : Sound cfg st) {i j : Nat} {s t : Session}
    (found : st.sessions[i]? = some s) (found' : st.sessions[j]? = some t) (other : j ≠ i) :
    t.number ≠ s.number := by
  intro same
  have distinct : (st.sessions.map Session.number).Nodup := inv.ordered.imp fun lt => Nat.ne_of_lt lt
  have inside := (List.getElem?_eq_some_iff.mp found').1
  refine other ((List.getElem?_inj (by simpa using inside) distinct).mp ?_)
  rw [List.getElem?_map, List.getElem?_map, found, found', Option.map_some, Option.map_some, same]

inductive Accepted (cfg : Config) (st : State) (client : Client) : State → Prop
  | refused : Accepted cfg st client
      { st with log := st.log ++ [.opened client.fd, .closed client.fd] }
  | created (room : st.sessions.length < maxSessions)
      (configured : (st.sessions.length : Int) < cfg.maxConnections) :
      Accepted cfg st client
        { st with
          sessions := st.sessions ++ [⟨st.created, client.fd, [], false, 0, 0⟩]
          created := st.created + 1
          log := st.log ++ [.opened client.fd, .created st.created] }

theorem acceptClient_spec (cfg : Config) (st : State) (client : Client) :
    Accepted cfg st client (acceptClient cfg st client) := by
  unfold acceptClient sessionCreate
  simp only [List.append_assoc, List.singleton_append]
  split
  · exact .refused
  next configured =>
    split
    · exact .refused
    next room =>
      split
      · exact .created (by omega) (by omega)
      · exact .refused

theorem Sound.acceptClient {cfg : Config} {st : State} (inv : Sound cfg st) {client : Client}
    (unlistened : client.fd ≠ cfg.listenFd) (free : client.fd ∉ st.fds) :
    Sound cfg (acceptClient cfg st client) := by
  have spec := acceptClient_spec cfg st client
  generalize ServerRun.acceptClient cfg st client = st' at spec ⊢
  cases spec with
  | refused =>
    refine ⟨inv.distinct, inv.unlistened, inv.limit, inv.configured, inv.ordered, inv.known, ?_⟩
    have closes : (st.fds ++ [client.fd]).erase client.fd = st.fds := by
      rw [List.erase_append_right _ free, List.erase_cons_head, List.append_nil]
    rw [run_append, inv.accounted]
    simp only [Option.bind_some, run, fdStep, if_neg free, List.mem_append, List.mem_singleton,
      or_true, if_true, closes]
    rfl
  | created room configured =>
    refine ⟨?_, ?_, by simpa using Nat.succ_le_of_lt room, ?_, ?_, ?_, ?_⟩
    · simpa [State.fds, List.nodup_append] using ⟨inv.distinct, fun s member same =>
        free (same ▸ List.mem_map_of_mem member)⟩
    · simpa [State.fds, Ne.symm unlistened] using inv.unlistened
    · simp only [List.length_append, List.length_singleton, Nat.cast_add, Nat.cast_one]
      omega
    · rw [List.map_append, List.pairwise_append]
      refine ⟨inv.ordered, List.pairwise_singleton _ _, fun a ha b hb => ?_⟩
      obtain ⟨s, member, rfl⟩ := List.mem_map.mp ha
      obtain rfl : b = st.created := by simpa using hb
      exact inv.known s member
    · intro s member
      rcases List.mem_append.mp member with old | new
      · exact Nat.lt_succ_of_lt (inv.known s old)
      · rw [List.mem_singleton.mp new]
        exact Nat.lt_succ_self _
    · rw [run_append, inv.accounted]
      simp only [Option.bind_some, run, fdStep, if_neg free]
      simp [State.fds]

/-- The rule for what every turn of the loop keeps. -/
theorem step_invariant {cfg : Config} {z : Zstd} {P : State → Prop}
    (calls : ∀ st isset visits i s, P st → st.sessions[i]? = some s →
      P (handleActiveCb z isset visits i s st))
    (accepts : ∀ st (client : Client), P st → client.fd ≠ cfg.listenFd → client.fd ∉ st.fds →
      P (acceptClient cfg st client))
    (stops : ∀ st, P st → P { st with stopped := true }) {st st' : State} {pass : Pass}
    (start : P st) (fresh : Fresh cfg st pass) (h : step cfg z st pass = some st') : P st' := by
  unfold step at h
  split at h
  · cases h
  · cases pass with
    | interrupted =>
      cases h
      exact start
    | failed =>
      cases h
      exact stops st start
    | selected listening ready visits =>
      cases h
      refine sessionForeach_invariant (calls · _ _) 0 ?_
      match listening with
      | some (some client) => exact accepts st client start fresh.1 fresh.2
      | some none => exact start
      | none => exact start

theorem sound_start (cfg : Config) (w : Writer) : Sound cfg (start w) where
  distinct := List.nodup_nil
  unlistened := List.not_mem_nil
  limit := Nat.zero_le _
  configured := Int.le_max_right ..
  ordered := List.Pairwise.nil
  known := by simp [start]
  accounted := rfl

theorem step_sound {cfg : Config} {z : Zstd} {st st' : State} {pass : Pass} (inv : Sound cfg st)
    (fresh : Fresh cfg st pass) (h : step cfg z st pass = some st') : Sound cfg st' :=
  step_invariant (fun _ isset visits _ _ inv found => inv.handleActiveCb isset visits found)
    (fun _ _ inv unlistened free => inv.acceptClient unlistened free)
    (fun _ inv => ⟨inv.distinct, inv.unlistened, inv.limit, inv.configured, inv.ordered, inv.known,
      inv.accounted⟩) inv fresh h

theorem run_sound {cfg : Config} {z : Zstd} {st st' : State} {passes : List Pass}
    (inv : Sound cfg st) (h : run (step cfg z) st passes = some st')
    (kernel : Meets (step cfg z) (Fresh cfg) st passes) : Sound cfg st' :=
  run_invariant_of_meets (fun _ _ _ inv fresh next => step_sound inv fresh next) h kernel inv

/-- Every connection accepted in a run is closed once or still in the table, none is closed
twice, and the table keeps to both limits. -/
theorem descriptors_accounted (cfg : Config) (z : Zstd) (w : Writer) (passes : List Pass)
    (st : State) (h : run (step cfg z) (start w) passes = some st)
    (kernel : Meets (step cfg z) (Fresh cfg) (start w) passes) :
    run fdStep [] st.log = some st.fds ∧ st.fds.Nodup ∧ cfg.listenFd ∉ st.fds ∧
      st.sessions.length ≤ maxSessions ∧ (st.sessions.length : Int) ≤ max cfg.maxConnections 0 := by
  have inv := run_sound (sound_start cfg w) h kernel
  exact ⟨inv.accounted, inv.distinct, inv.unlistened, inv.limit, inv.configured⟩

section Walk
variable (z : Zstd) (isset : Int → Bool) (visits : Int → Visit) {st : State} {i : Nat}

theorem sessionForeach_at {s : Session} (found : st.sessions[i]? = some s) :
    sessionForeach z isset visits i st =
      sessionForeach z isset visits (i + 1) (handleActiveCb z isset visits i s st) := by
  obtain ⟨inside, here⟩ := List.getElem?_eq_some_iff.mp found
  rw [sessionForeach, dif_pos inside, here]

theorem sessionForeach_past (past : st.sessions.length ≤ i) :
    sessionForeach z isset visits i st = st := by
  rw [sessionForeach, dif_neg (by omega)]

theorem sessionForeach_single {s : Session} (h : st.sessions = [s]) :
    sessionForeach z isset visits 0 st = handleActiveCb z isset visits 0 s st := by
  have found : st.sessions[0]? = some s := by simp [h]
  have shorter := handleActiveCb_length_le z isset visits 0 s st
  rw [h, List.length_singleton] at shorter
  rw [sessionForeach_at z isset visits found, sessionForeach_past z isset visits shorter]

end Walk

def arrival : Pass := .selected (some (some ⟨4, true⟩)) (fun _ => false) fun _ => ⟨true, []⟩

def afterArrival (w : Writer) : State :=
  ⟨w, [⟨0, 4, [], false, 0, 0⟩], 1, false, [.opened 4, .created 0]⟩

theorem step_arrival (w : Writer) :
    step ⟨3, 7⟩ storedZstd (start w) arrival = some (afterArrival w) := by
  have taken : accepted ⟨3, 7⟩ (start w) (some (some ⟨4, true⟩)) = afterArrival w := rfl
  simp only [step, start, arrival, Bool.false_eq_true, if_false] at taken ⊢
  rw [taken, sessionForeach_single _ _ _ rfl]
  rfl

def secondArrival : Pass := .selected (some (some ⟨5, true⟩)) (fun _ => false) fun _ => ⟨true, []⟩

def afterBoth (w : Writer) : State :=
  ⟨w, [⟨0, 4, [], false, 0, 0⟩, ⟨1, 5, [], false, 0, 0⟩], 2, false,
    (afterArrival w).log ++ [.opened 5, .created 1]⟩

theorem step_secondArrival (w : Writer) :
    step ⟨3, 7⟩ storedZstd (afterArrival w) secondArrival = some (afterBoth w) := by
  have taken : accepted ⟨3, 7⟩ (afterArrival w) (some (some ⟨5, true⟩)) = afterBoth w := rfl
  simp only [step, afterArrival, secondArrival, Bool.false_eq_true, if_false] at taken ⊢
  rw [taken, sessionForeach_at _ _ _ (i := 0) rfl, sessionForeach_at _ _ _ (i := 1) rfl,
    sessionForeach_past _ _ _ (by exact le_rfl)]
  rfl

def marker : List UInt8 := frame Control.endIncremental.bytes

theorem marker_chunk : 1 ≤ marker.length ∧ marker.length ≤ recvChunkSize := by decide
theorem markerBegin_chunk : 1 ≤ (marker.take 3).length ∧ (marker.take 3).length ≤ recvChunkSize := by
  decide
theorem markerEnd_chunk : 1 ≤ (marker.drop 3).length ∧ (marker.drop 3).length ≤ recvChunkSize := by
  decide

def noIo : Nat → DiskIo := fun _ => ⟨true, [], []⟩

def secondBegins : Pass :=
  -- the second client sends the first bytes of its end marker
  .selected none (fun fd => fd == 5) fun _ =>
    ⟨true, [.data ⟨marker.take 3, markerBegin_chunk⟩ noIo, .wouldBlock]⟩

def afterBegin (w : Writer) : State :=
  ⟨w, [⟨0, 4, [], false, 0, 0⟩, ⟨1, 5, marker.take 3, false, 0, 0⟩], 2, false,
    (afterBoth w).log ++ [.visited 1, .received 1 (marker.take 3)]⟩

theorem step_secondBegins (w : Writer) :
    step ⟨3, 7⟩ storedZstd (afterBoth w) secondBegins = some (afterBegin w) := by
  simp only [step, afterBoth, secondBegins, Bool.false_eq_true, if_false]
  rw [sessionForeach_at _ _ _ (i := 0) rfl, sessionForeach_at _ _ _ (i := 1) rfl,
    sessionForeach_past _ _ _ (by exact le_rfl)]
  rfl

/-- The first client sends its end marker and closes. The rest of the other marker is there too,
but the walk passes over the session that moves up. -/
def firstLeaves : Pass :=
  .selected none (fun _ => true) fun fd =>
    if fd = 4 then ⟨true, [.data ⟨marker, marker_chunk⟩ noIo, .closed]⟩
    else ⟨true, [.data ⟨marker.drop 3, markerEnd_chunk⟩ noIo, .wouldBlock]⟩

def afterFirst (w : Writer) : State :=
  ⟨w, [⟨1, 5, marker.take 3, false, 0, 0⟩], 2, false, (afterBegin w).log ++
    [.visited 0, .received 0 marker, .handled 0 (noIo 0) (.control .endIncremental), .removed 0,
      .closed 4]⟩

theorem step_firstLeaves (w : Writer) :
    step ⟨3, 7⟩ storedZstd (afterBegin w) firstLeaves = some (afterFirst w) := by
  simp only [step, afterBegin, firstLeaves, Bool.false_eq_true, if_false]
  rw [sessionForeach_at _ _ _ (i := 0) rfl, sessionForeach_past _ _ _ (by exact le_rfl)]
  rfl

def secondLeaves : Pass :=
  .selected none (fun fd => fd == 5) fun _ =>
    ⟨true, [.data ⟨marker.drop 3, markerEnd_chunk⟩ noIo, .closed]⟩

def afterSecond (w : Writer) : State :=
  ⟨w, [], 2, false, (afterFirst w).log ++
    [.visited 1, .received 1 (marker.drop 3), .handled 1 (noIo 0) (.control .endIncremental),
      .removed 1, .closed 5]⟩

theorem step_secondLeaves (w : Writer) :
    step ⟨3, 7⟩ storedZstd (afterFirst w) secondLeaves = some (afterSecond w) := by
  simp only [step, afterFirst, secondLeaves, Bool.false_eq_true, if_false]
  rw [sessionForeach_single _ _ _ rfl]
  rfl

def twoClients : List Pass := [arrival, secondArrival, secondBegins]

def twoFarewells : List Pass := [firstLeaves, secondLeaves]

theorem run_twoClients (w : Writer) :
    run (step ⟨3, 7⟩ storedZstd) (start w) twoClients = some (afterBegin w) := by
  simp only [twoClients, run, step_arrival, step_secondArrival, step_secondBegins, Option.bind_some]

theorem run_twoFarewells (w : Writer) :
    run (step ⟨3, 7⟩ storedZstd) (afterBegin w) twoFarewells = some (afterSecond w) := by
  simp only [twoFarewells, run, step_firstLeaves, step_secondLeaves, Option.bind_some]

theorem run_farewells (w : Writer) :
    run (step ⟨3, 7⟩ storedZstd) (start w) (twoClients ++ twoFarewells) = some (afterSecond w) := by
  rw [run_append, run_twoClients]
  exact run_twoFarewells w

theorem fresh_farewells (w : Writer) :
    Meets (step ⟨3, 7⟩ storedZstd) (Fresh ⟨3, 7⟩) (start w) (twoClients ++ twoFarewells) := by
  refine ⟨⟨by decide, by simp [start, State.fds]⟩, fun s arrived => ?_⟩
  cases Option.some.inj ((step_arrival w).symm.trans arrived)
  exact ⟨⟨by decide, by simp [afterArrival, State.fds]⟩, fun _ _ =>
    ⟨trivial, fun _ _ => ⟨trivial, fun _ _ => ⟨trivial, fun _ _ => trivial⟩⟩⟩⟩

theorem descriptors_accounted_farewells :
    run fdStep [] (afterSecond blankWriter).log = some (afterSecond blankWriter).fds ∧
      (afterSecond blankWriter).fds.Nodup ∧ 3 ∉ (afterSecond blankWriter).fds ∧
      (afterSecond blankWriter).sessions.length ≤ maxSessions ∧
      ((afterSecond blankWriter).sessions.length : Int) ≤ max 7 0 :=
  descriptors_accounted ⟨3, 7⟩ storedZstd blankWriter (twoClients ++ twoFarewells) _
    (run_farewells blankWriter) (fresh_farewells blankWriter)

end Go2Cloud.ServerRun
