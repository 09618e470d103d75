import Go2Cloud.Migration.Transport
import Go2Cloud.Server.ServerRun

/-! The client and the receiver's main loop on byte streams. The loop of `Go2Cloud.ServerRun` takes
chunks from the connections of `Go2Cloud.Transport` and its answers go back on them, so that every
run is one of `Go2Cloud.Transport`, whichever sessions a pass visits, skips or removes. -/
namespace Go2Cloud.LoopSystem
open Protocol Decoder BlockWriter Migration Transition Wire Segmentation
open Receiver (dispatch)
open ServerRun (Happening Pass Session Sound Fresh RecvResult handlings handleActiveCb)

structure Net where
  base : Sys
  stream : Conn → List UInt8

structure State where
  net : Net
  loop : ServerRun.State

def start (w : Writer) : State := ⟨⟨init w, fun _ => []⟩, ServerRun.start w⟩

/-- The client's connections are numbered as the receiver accepts them; nobody else sends. -/
def connOf (number : Nat) : Option Conn :=
  if inside : number < socketPoolTarget then some ⟨number, inside⟩ else none

def hears (net : Net) : Happening → Option Net
  -- what the loop takes from the network and puts into it
  | .received number chunk =>
    (connOf number).bind fun c =>
      if chunk.isPrefixOf (net.stream c) then
        some { net with
          stream := Function.update net.stream c ((net.stream c).drop chunk.length) }
      else none
  | .handled number io m =>
    (connOf number).map fun c =>
      { net with base := handled net.base c 0 [] (dispatch net.base.writer io m) }
  | _ => some net

inductive Action where
  | client (a : Transport.Action)
  | pass (p : Pass)

def isRecv : Transport.Action → Bool
  | .recv _ _ _ => true
  | _ => false

def step (z : Zstd) (level : Int) (cfg : Migration.Config) (server : ServerRun.Config) (t : State) :
    Action → Option State
  | .client a =>
    if isRecv a then none
    else
      (Transport.step z level cfg ⟨t.net.base, t.net.stream, fun _ => []⟩ a).map fun u =>
        { t with net := ⟨u.base, u.stream⟩ }
  | .pass p =>
    if Fresh server t.loop p then
      (ServerRun.step server z t.loop p).bind fun loop =>
        (run hears t.net (loop.log.drop t.loop.log.length)).map fun net => ⟨net, loop⟩
    else none

theorem connOf_eq_some {number : Nat} {c : Conn} : connOf number = some c ↔ number = c := by
  unfold connOf
  split
  next inside =>
    rw [Option.some.injEq, Fin.ext_iff]
  next outside =>
    have small := c.isLt
    constructor
    · intro none_some
      cases none_some
    · intro same
      omega

theorem connOf_conn (c : Conn) : connOf c = some c := connOf_eq_some.mpr rfl

theorem run_hears_handlings (net : Net) (c : Conn) (ms : List Msg) (io : Nat → DiskIo) :
    run hears net (handlings c ms io) =
      some { net with base := Transport.handleAll c ms io net.base } := by
  induction ms generalizing net io with
  | nil => rfl
  | cons m ms ih =>
    simp only [handlings, run, hears, connOf_conn, Option.map_some, Option.bind_some, ih]
    rfl

theorem hears_chunk {net net' : Net} {number : Nat} {chunk : List UInt8} {ms : List Msg}
    {io : Nat → DiskIo} {later : List Happening}
    (heard : run hears net ([.received number chunk] ++ handlings number ms io ++ later) =
      some net') :
    ∃ c : Conn, number = c ∧ ∃ net₁, hears net (.received c chunk) = some net₁ ∧
      run hears { net₁ with base := Transport.handleAll c ms io net₁.base } later = some net' := by
  rw [List.append_assoc, List.singleton_append, run] at heard
  obtain ⟨net₁, taken, rest⟩ := Option.bind_eq_some_iff.mp heard
  obtain ⟨c, conn, -⟩ := Option.bind_eq_some_iff.mp taken
  obtain rfl := connOf_eq_some.mp conn
  rw [run_append, run_hears_handlings, Option.bind_some] at rest
  exact ⟨c, rfl, net₁, taken, rest⟩

theorem handleAll_writer (c : Conn) (ms : List Msg) (io : Nat → DiskIo) {s : Sys}
    {p : ServerRun.Progress} (same : s.writer = p.writer) :
    (Transport.handleAll c ms io s).writer = (ServerRun.handleMsgs ms io p).writer := by
  induction ms generalizing s p io with
  | nil => exact same
  | cons m ms ih =>
    refine ih (fun i => io (i + 1)) ?_
    simp only [handled, ServerRun.handleMsg, same]

theorem recv_answers (z : Zstd) (level : Int) (cfg : Migration.Config) {net net' : Net}
    {u : Transport.State} {c : Conn} {p : ServerRun.Progress} (chunk : ServerRun.Chunk)
    (io : Nat → DiskIo) (base : u.base = net.base) (stream : u.stream c = net.stream c)
    (buf : u.recvBuf c = p.session.recvBuf) (heard : hears net (.received c chunk.1) = some net') :
    ∃ u', Transport.step z level cfg u (.recv c chunk.1.length io) = some u' ∧
      u'.base = Transport.handleAll c (handleChunk z p.session.recvBuf chunk.1).items io net.base ∧
      net'.base = net.base ∧
      (∀ c', c' ≠ c → u'.stream c' = u.stream c' ∧ u'.recvBuf c' = u.recvBuf c' ∧
        net'.stream c' = net.stream c') ∧
      ((handleChunk z p.session.recvBuf chunk.1).failed = false → u'.stream c = net'.stream c ∧
        u'.recvBuf c = (handleChunk z p.session.recvBuf chunk.1).buf) := by
  simp only [hears, connOf_conn, Option.bind_some] at heard
  split at heard
  next arrives =>
    cases heard
    obtain ⟨rest, whole⟩ := List.isPrefixOf_iff_prefix.mp arrives
    have enabled : 1 ≤ chunk.1.length ∧ chunk.1.length ≤ recvChunkSize ∧
        chunk.1.length ≤ (u.stream c).length := by
      refine ⟨chunk.2.1, chunk.2.2, ?_⟩
      rw [stream, ← whole, List.length_append]
      omega
    have front : (u.stream c).take chunk.1.length = chunk.1 := by
      rw [stream, ← whole, List.take_left]
    simp only [Transport.step, Transport.recv, if_pos enabled, front, buf]
    cases failed : (handleChunk z p.session.recvBuf chunk.1).failed with
    | true =>
      refine ⟨_, rfl, by rw [base], trivial, fun c' other => ?_, by simp⟩
      simp [Function.update_of_ne other]
    | false =>
      refine ⟨_, rfl, by rw [base], trivial, fun c' other => ?_, fun _ => ?_⟩
      · simp [Function.update_of_ne other]
      · simp [stream]
  · cases heard

structure Heard (z : Zstd) (level : Int) (cfg : Migration.Config) (number : Nat) (net net' : Net)
    (u : Transport.State) (p' : ServerRun.Progress) (gone : Bool) (as : List Transport.Action)
    (u' : Transport.State) : Prop where
  runs : run (Transport.step z level cfg) u as = some u'
  recvs : ∀ a ∈ as, isRecv a = true
  base : u'.base = net'.base
  writer : net'.base.writer = p'.writer
  others : ∀ c : Conn, number ≠ c → u'.stream c = u.stream c ∧ u'.recvBuf c = u.recvBuf c ∧
    net'.stream c = net.stream c
  stays : gone = false → ∀ c : Conn, number = c →
    u'.stream c = net'.stream c ∧ u'.recvBuf c = p'.session.recvBuf

section Call
variable {z : Zstd} {level : Int} {cfg : Migration.Config} {p : ServerRun.Progress} {net net' : Net}
  {u : Transport.State} {new : List Happening}

theorem heard_nothing (base : u.base = net.base) (writer : net.base.writer = p.writer)
    (own : ∀ c : Conn, p.session.number = c →
      u.stream c = net.stream c ∧ u.recvBuf c = p.session.recvBuf)
    (log : p.log = p.log ++ new) (heard : run hears net new = some net') (gone : Bool) :
    ∃ as u', Heard z level cfg p.session.number net net' u p gone as u' := by
  obtain rfl : new = [] := by simpa using log
  cases heard
  exact ⟨[], u, rfl, by simp, base, writer, fun _ _ => ⟨rfl, rfl, rfl⟩, fun _ => own⟩

theorem served_chunk (z : Zstd) (p : ServerRun.Progress) (chunk : ServerRun.Chunk)
    (io : Nat → DiskIo) :
    ServerRun.Served z p
      ([.received p.session.number chunk.1] ++
        handlings p.session.number (handleChunk z p.session.recvBuf chunk.1).items io)
      (ServerRun.handleMsgs (handleChunk z p.session.recvBuf chunk.1).items io
        (ServerRun.receive z p chunk)) :=
  (ServerRun.served_receive z p chunk).trans
    (ServerRun.served_handleMsgs (ServerRun.receive z p chunk) io
      fun hz _ member => ServerRun.handleChunk_dataFits hz member)

theorem recvLoop_heard (recvs : List RecvResult) (base : u.base = net.base)
    (writer : net.base.writer = p.writer)
    (own : ∀ c : Conn, p.session.number = c →
      u.stream c = net.stream c ∧ u.recvBuf c = p.session.recvBuf)
    (log : (ServerRun.recvLoop z recvs p).1.log = p.log ++ new)
    (heard : run hears net new = some net') :
    ∃ as u', Heard z level cfg p.session.number net net' u (ServerRun.recvLoop z recvs p).1
      (ServerRun.recvLoop z recvs p).2 as u' := by
  induction recvs generalizing p net u new with
  | nil => exact heard_nothing base writer own log heard false
  | cons result recvs ih =>
    cases result with
    | wouldBlock => exact heard_nothing base writer own log heard false
    | closed => exact heard_nothing base writer own log heard true
    | error => exact heard_nothing base writer own log heard true
    | data chunk io =>
      have now := served_chunk z p chunk io
      have buffered := ServerRun.recvBuf_handleMsgs (handleChunk z p.session.recvBuf chunk.1).items io
        (ServerRun.receive z p chunk)
      have wrote (c : Conn) : (Transport.handleAll c (handleChunk z p.session.recvBuf chunk.1).items
          io net.base).writer = _ := handleAll_writer c _ io (p := ServerRun.receive z p chunk) writer
      simp only [ServerRun.recvLoop] at log ⊢
      generalize ServerRun.handleMsgs (handleChunk z p.session.recvBuf chunk.1).items io
        (ServerRun.receive z p chunk) = mid at now buffered wrote log ⊢
      cases failed : (handleChunk z p.session.recvBuf chunk.1).failed with
      | true =>
        simp only [failed, if_true] at log ⊢
        have chunk_only := List.append_cancel_left (log.symm.trans now.log)
        rw [chunk_only, ← List.append_nil (_ ++ _)] at heard
        obtain ⟨c, number, net₁, taken, rest⟩ := hears_chunk heard
        cases rest
        obtain ⟨stream, buf⟩ := own c number
        obtain ⟨u₁, received, base₁, same, others, -⟩ :=
          recv_answers z level cfg chunk io base stream buf taken
        refine ⟨[.recv c chunk.1.length io], u₁, ?_, by simp [isRecv], ?_, ?_, fun c' other => ?_,
          by simp⟩
        · rw [run, received]
          rfl
        · rw [base₁, same]
        · rw [same]
          exact wrote c
        · exact others c' fun same => other (same ▸ number)
      | false =>
        simp only [failed, Bool.false_eq_true, if_false] at log ⊢
        obtain ⟨later, served, -⟩ := ServerRun.recvLoop_spec z recvs mid
        have whole := log.symm.trans served.log
        rw [now.log, List.append_assoc] at whole
        rw [List.append_cancel_left whole] at heard
        obtain ⟨c, number, net₁, taken, rest⟩ := hears_chunk heard
        obtain ⟨stream, buf⟩ := own c number
        obtain ⟨u₁, received, base₁, same, others, going⟩ :=
          recv_answers z level cfg chunk io base stream buf taken
        rw [same] at rest
        have own₁ : ∀ c' : Conn, mid.session.number = c' →
            u₁.stream c' = net₁.stream c' ∧ u₁.recvBuf c' = mid.session.recvBuf := by
          intro c' here
          obtain rfl : c' = c := Fin.ext (here.symm.trans (now.number.trans number))
          exact ⟨(going failed).1, (going failed).2.trans buffered.symm⟩
        obtain ⟨as, u', later⟩ :=
          @ih mid ⟨_, net₁.stream⟩ u₁ later base₁ (wrote c) own₁ served.log rest
        rw [now.number] at later
        refine ⟨.recv c chunk.1.length io :: as, u', ?_, ?_, later.base, later.writer,
          fun c' other => ?_, later.stays⟩
        · rw [run, received]
          exact later.runs
        · exact List.forall_mem_cons.mpr ⟨rfl, later.recvs⟩
        · obtain ⟨stream₂, buf₂, net₂⟩ := later.others c' other
          obtain ⟨stream₃, buf₃, net₃⟩ := others c' fun same => other (same ▸ number)
          exact ⟨stream₂.trans stream₃, buf₂.trans buf₃, net₂.trans net₃⟩

theorem handleSession_heard (visit : ServerRun.Visit) (base : u.base = net.base)
    (writer : net.base.writer = p.writer)
    (own : ∀ c : Conn, p.session.number = c →
      u.stream c = net.stream c ∧ u.recvBuf c = p.session.recvBuf)
    (log : (ServerRun.handleSession z visit p).1.log = p.log ++ new)
    (heard : run hears net new = some net') :
    ∃ as u', Heard z level cfg p.session.number net net' u (ServerRun.handleSession z visit p).1
      (ServerRun.handleSession z visit p).2 as u' := by
  unfold ServerRun.handleSession at log ⊢
  split at log
  next calloc =>
    rw [if_pos calloc]
    exact recvLoop_heard visit.recvs base writer own log heard
  next calloc =>
    rw [if_neg calloc]
    exact heard_nothing base writer own log heard true

end Call

def Open (loop : ServerRun.State) (number : Nat) : Prop :=
  loop.created ≤ number ∨ number ∈ loop.sessions.map Session.number

/-- The byte streams `u` of the network and the loop. What is left on an ended connection
does not matter. -/
structure Joins (net : Net) (loop : ServerRun.State) (u : Transport.State) : Prop where
  base : u.base = net.base
  writer : net.base.writer = loop.writer
  streams : ∀ c : Conn, Open loop c → u.stream c = net.stream c
  unused : ∀ c : Conn, loop.created ≤ c → u.recvBuf c = []
  buffered : ∀ s ∈ loop.sessions, ∀ c : Conn, s.number = c → u.recvBuf c = s.recvBuf

section Joins
variable {z : Zstd} {level : Int} {cfg : Migration.Config} {server : ServerRun.Config}
  {net net' : Net} {st : ServerRun.State} {u u' : Transport.State} {i : Nat} {s : Session}
  {p : ServerRun.Progress} {as : List Transport.Action}

theorem Joins.resume (inv : Joins net st u) (sound : Sound server st)
    (found : st.sessions[i]? = some s) (number : p.session.number = s.number)
    (heard : Heard z level cfg s.number net net' u p false as u') :
    Joins net' (ServerRun.resume st i p) u' := by
  have member := List.mem_of_getElem? found
  have known := sound.known s member
  have numbers : (ServerRun.resume st i p).sessions.map Session.number =
      st.sessions.map Session.number := by
    obtain ⟨inside, rfl⟩ := List.getElem?_eq_some_iff.mp found
    rw [ServerRun.resume, List.map_set, number, ← List.map_set, List.set_getElem_self]
  refine ⟨heard.base, heard.writer, fun c is_open => ?_, fun c later => ?_, fun t listed c here => ?_⟩
  · by_cases own : s.number = c
    · exact (heard.stays rfl c own).1
    · have still : Open st c := by
        unfold Open at is_open
        rwa [numbers] at is_open
      obtain ⟨stream, -, same⟩ := heard.others c own
      rw [stream, same]
      exact inv.streams c still
  · have later : st.created ≤ c := later
    rw [(heard.others c (by omega)).2.1]
    exact inv.unused c later
  · obtain ⟨j, found'⟩ := List.mem_iff_getElem?.mp listed
    have back : (st.sessions.set i p.session)[j]? = some t := found'
    by_cases same : j = i
    · subst same
      have inside := (List.getElem?_eq_some_iff.mp found).1
      obtain rfl : p.session = t := by simpa [inside] using back
      exact (heard.stays rfl c (number.symm.trans here)).2
    · rw [List.getElem?_set_ne (Ne.symm same)] at back
      have other := ServerRun.other_number sound found back same
      rw [(heard.others c fun own => other (here.trans own.symm)).2.1]
      exact inv.buffered t (List.mem_of_getElem? back) c here

theorem Joins.discard (inv : Joins net st u) (sound : Sound server st)
    (found : st.sessions[i]? = some s)
    (heard : Heard z level cfg s.number net net' u p true as u') :
    Joins net' (ServerRun.discard st i s p) u' := by
  have known := sound.known s (List.mem_of_getElem? found)
  have kept {t : Session} (listed : t ∈ st.sessions.eraseIdx i) :
      t ∈ st.sessions ∧ t.number ≠ s.number := by
    obtain ⟨j, other, found'⟩ := List.mem_eraseIdx_iff_getElem?.mp listed
    exact ⟨List.mem_of_getElem? found', ServerRun.other_number sound found found' other⟩
  refine ⟨heard.base, heard.writer, fun c is_open => ?_, fun c later => ?_, fun t listed c here => ?_⟩
  · have still : s.number ≠ c ∧ Open st c := by
      rcases is_open with later | listed
      · have later : st.created ≤ c := later
        exact ⟨by omega, .inl later⟩
      · obtain ⟨t, member, same⟩ := List.mem_map.mp listed
        obtain ⟨before, other⟩ := kept member
        exact ⟨fun own => other (same.trans own.symm), .inr (List.mem_map.mpr ⟨t, before, same⟩)⟩
    obtain ⟨stream, -, same⟩ := heard.others c still.1
    rw [stream, same]
    exact inv.streams c still.2
  · have later : st.created ≤ c := later
    rw [(heard.others c (by omega)).2.1]
    exact inv.unused c later
  · obtain ⟨before, other⟩ := kept listed
    rw [(heard.others c fun own => other (here.trans own.symm)).2.1]
    exact inv.buffered t before c here

theorem hears_ended (net : Net) (n : Nat) (fd : Int) (own : List Happening) :
    run hears net ([.visited n] ++ own ++ [.removed n, .closed fd]) = run hears net own := by
  rw [run_append, List.singleton_append, run]
  simp only [hears, Option.bind_some, run]
  cases run hears net own <;> rfl

theorem Joins.handleActiveCb (inv : Joins net st u) (sound : Sound server st)
    (isset : Int → Bool) (visits : Int → ServerRun.Visit) (found : st.sessions[i]? = some s)
    {new : List Happening}
    (log : (handleActiveCb z isset visits i s st).log = st.log ++ new)
    (heard : run hears net new = some net') :
    ∃ as u', run (Transport.step z level cfg) u as = some u' ∧ (∀ a ∈ as, isRecv a = true) ∧
      Joins net' (handleActiveCb z isset visits i s st) u' := by
  unfold ServerRun.handleActiveCb at log ⊢
  split at log
  next active =>
    rw [if_pos active]
    obtain ⟨own, served, -⟩ := ServerRun.handleSession_spec z (visits s.fd)
      ⟨st.writer, s, st.log ++ [.visited s.number]⟩
    have member := List.mem_of_getElem? found
    have ready : ∀ c : Conn, s.number = c → u.stream c = net.stream c ∧ u.recvBuf c = s.recvBuf :=
      fun c here => ⟨inv.streams c (.inr (List.mem_map.mpr ⟨s, member, here⟩)),
        inv.buffered s member c here⟩
    have call : run hears net own = some net' →
        ∃ as u', Heard z level cfg s.number net net' u _ _ as u' :=
      handleSession_heard (visits s.fd) inv.base inv.writer ready served.log
    generalize ServerRun.handleSession z (visits s.fd) ⟨st.writer, s, st.log ++ [.visited s.number]⟩ =
      result at served call log ⊢
    obtain ⟨p, gone⟩ := result
    cases gone with
    | true =>
      have whole := served.log
      obtain rfl : new = [.visited s.number] ++ own ++ [.removed s.number, .closed s.fd] := by
        simp only [if_true] at log
        rw [whole] at log
        simpa using log.symm
      rw [hears_ended] at heard
      obtain ⟨as, u', heard⟩ := call heard
      refine ⟨as, u', heard.runs, heard.recvs, ?_⟩
      rw [if_pos rfl, ServerRun.sessionRemove_eq_eraseIdx sound.distinct found]
      exact inv.discard sound found heard
    | false =>
      have whole := served.log
      obtain rfl : new = [.visited s.number] ++ own := by
        simp only [Bool.false_eq_true, if_false] at log
        rw [whole] at log
        simpa using log.symm
      obtain ⟨as, u', heard⟩ := call heard
      exact ⟨as, u', heard.runs, heard.recvs, inv.resume sound found served.number heard⟩
  next quiet =>
    rw [if_neg quiet]
    obtain rfl : new = [] := by simpa using log
    cases heard
    exact ⟨[], u, rfl, by simp, inv⟩

theorem acceptClient_log (server : ServerRun.Config) (st : ServerRun.State)
    (client : ServerRun.Client) :
    ∃ new, (ServerRun.acceptClient server st client).log = st.log ++ new ∧
      ∀ net, run hears net new = some net := by
  have spec := ServerRun.acceptClient_spec server st client
  generalize ServerRun.acceptClient server st client = st' at spec ⊢
  cases spec with
  | refused => exact ⟨_, rfl, fun _ => rfl⟩
  | created room configured => exact ⟨_, rfl, fun _ => rfl⟩

theorem Joins.acceptClient (inv : Joins net st u) (client : ServerRun.Client) :
    Joins net (ServerRun.acceptClient server st client) u := by
  have spec := ServerRun.acceptClient_spec server st client
  generalize ServerRun.acceptClient server st client = st' at spec ⊢
  cases spec with
  | refused => exact ⟨inv.base, inv.writer, inv.streams, inv.unused, inv.buffered⟩
  | created room configured =>
    refine ⟨inv.base, inv.writer, fun c is_open => inv.streams c ?_, fun c later => ?_,
      fun t listed c here => ?_⟩
    · rcases is_open with later | listed
      · exact .inl (Nat.le_of_succ_le later)
      · rw [List.map_append, List.mem_append] at listed
        rcases listed with old | fresh
        · exact .inr old
        · exact .inl (List.mem_singleton.mp fresh).ge
    · exact inv.unused c (Nat.le_of_succ_le later)
    · rcases List.mem_append.mp listed with old | fresh
      · exact inv.buffered t old c here
      · rw [List.mem_singleton.mp fresh] at here ⊢
        exact inv.unused c here.le

theorem handleActiveCb_log (z : Zstd) (isset : Int → Bool) (visits : Int → ServerRun.Visit)
    (sound : Sound server st) (found : st.sessions[i]? = some s) :
    ∃ new, (handleActiveCb z isset visits i s st).log = st.log ++ new := by
  rcases ServerRun.handleActiveCb_spec z isset visits sound.distinct found with
    ⟨-, same⟩ | ⟨-, gone, new, p, called⟩
  · exact ⟨[], by rw [same, List.append_nil]⟩
  · have log := called.served.log
    rw [called.result]
    cases gone with
    | true =>
      exact ⟨_, by rw [if_pos rfl, ServerRun.discard, log, List.append_assoc, List.append_assoc]⟩
    | false => exact ⟨_, log.trans (List.append_assoc ..)⟩

structure Passing (z : Zstd) (level : Int) (cfg : Migration.Config) (server : ServerRun.Config)
    (before : State) (u : Transport.State) (st : ServerRun.State) : Prop where
  sound : Sound server st
  answered : ∃ new, st.log = before.loop.log ++ new ∧ ∀ net, run hears before.net new = some net →
    ∃ as u', run (Transport.step z level cfg) u as = some u' ∧ (∀ a ∈ as, isRecv a = true) ∧
      Joins net st u'

theorem Passing.handleActiveCb {before : State} (h : Passing z level cfg server before u st)
    (isset : Int → Bool) (visits : Int → ServerRun.Visit) (found : st.sessions[i]? = some s) :
    Passing z level cfg server before u (handleActiveCb z isset visits i s st) := by
  obtain ⟨new, log, answered⟩ := h.answered
  obtain ⟨more, log'⟩ := handleActiveCb_log z isset visits h.sound found
  refine ⟨h.sound.handleActiveCb isset visits found, new ++ more, ?_, fun net' heard => ?_⟩
  · rw [log', log, List.append_assoc]
  · rw [run_append] at heard
    obtain ⟨net, first, rest⟩ := Option.bind_eq_some_iff.mp heard
    obtain ⟨as, u₁, runs, recvs, joins⟩ := answered net first
    obtain ⟨bs, u₂, runs', recvs', joins'⟩ :=
      joins.handleActiveCb h.sound isset visits found log' rest
    refine ⟨as ++ bs, u₂, ?_, ?_, joins'⟩
    · rw [run_append, runs, Option.bind_some, runs']
    · intro a member
      exact (List.mem_append.mp member).elim (recvs a) (recvs' a)

theorem Passing.acceptClient {before : State} (h : Passing z level cfg server before u st)
    {client : ServerRun.Client} (unlistened : client.fd ≠ server.listenFd)
    (free : client.fd ∉ st.fds) :
    Passing z level cfg server before u (ServerRun.acceptClient server st client) := by
  obtain ⟨new, log, answered⟩ := h.answered
  obtain ⟨more, log', silent⟩ := acceptClient_log server st client
  refine ⟨h.sound.acceptClient unlistened free, new ++ more, ?_, fun net heard => ?_⟩
  · rw [log', log, List.append_assoc]
  · rw [run_append] at heard
    obtain ⟨net₁, first, rest⟩ := Option.bind_eq_some_iff.mp heard
    obtain rfl : net₁ = net := Option.some.inj ((silent net₁).symm.trans rest)
    obtain ⟨as, u', runs, recvs, joins⟩ := answered net₁ first
    exact ⟨as, u', runs, recvs, joins.acceptClient client⟩

theorem pass_answered {t : State} (inv : Joins t.net t.loop u) (sound : Sound server t.loop)
    {pass : Pass} {loop : ServerRun.State} (fresh : Fresh server t.loop pass)
    (next : ServerRun.step server z t.loop pass = some loop)
    (heard : run hears t.net (loop.log.drop t.loop.log.length) = some net) :
    ∃ as u', run (Transport.step z level cfg) u as = some u' ∧ (∀ a ∈ as, isRecv a = true) ∧
      Sound server loop ∧ Joins net loop u' := by
  have before : Passing z level cfg server t u t.loop := by
    refine ⟨sound, [], (List.append_nil _).symm, fun net same => ?_⟩
    cases same
    exact ⟨[], u, rfl, by simp, inv⟩
  have after : Passing z level cfg server t u loop :=
    ServerRun.step_invariant (P := Passing z level cfg server t u)
      (fun _ isset visits _ _ h found => h.handleActiveCb isset visits found)
      (fun _ _ h unlistened free => h.acceptClient unlistened free)
      (fun st h => by
        obtain ⟨new, log, answered⟩ := h.answered
        refine ⟨⟨h.sound.distinct, h.sound.unlistened, h.sound.limit, h.sound.configured,
          h.sound.ordered, h.sound.known, h.sound.accounted⟩, new, log, fun net heard => ?_⟩
        obtain ⟨as, u', runs, recvs, joins⟩ := answered net heard
        exact ⟨as, u', runs, recvs, joins.base, joins.writer, joins.streams, joins.unused,
          joins.buffered⟩) before fresh next
  obtain ⟨new, log, answered⟩ := after.answered
  rw [log, List.drop_left] at heard
  obtain ⟨as, u', runs, recvs, joins⟩ := answered net heard
  exact ⟨as, u', runs, recvs, after.sound, joins⟩

end Joins

section Client
variable {z : Zstd} {level : Int} {cfg : Migration.Config}

theorem client_step_adds {t t' : Transport.State} {a : Transport.Action} (sends : isRecv a = false)
    (h : Transport.step z level cfg t a = some t') :
    ∃ out : Conn → List UInt8, t'.stream = (fun c => t.stream c ++ out c) ∧
      ∀ stream recvBuf, Transport.step z level cfg ⟨t.base, stream, recvBuf⟩ a =
        some ⟨t'.base, fun c => stream c ++ out c, recvBuf⟩ := by
  cases a with
  | client a =>
    simp only [Transport.step] at h ⊢
    split at h
    · cases h
    next not_deliver =>
      obtain ⟨base, next, out⟩ := Option.bind_eq_some_iff.mp h
      unfold Transport.sendOut at out
      split at out
      next known =>
        cases out
        refine ⟨_, rfl, fun stream recvBuf => ?_⟩
        rw [if_neg not_deliver, next, Option.bind_some, Transport.sendOut, if_pos known]
      · cases out
  | cut c n =>
    obtain ⟨bytes, queued, h⟩ := Option.bind_eq_some_iff.mp h
    obtain ⟨⟨⟩, short, h⟩ := Option.bind_eq_some_iff.mp h
    obtain ⟨base, next, h⟩ := Option.bind_eq_some_iff.mp h
    cases h
    have adds (stream : Conn → List UInt8) : Function.update stream c (stream c ++ bytes.take n) =
        fun c' => stream c' ++ Function.update (fun _ => []) c (bytes.take n) c' := by
      funext c'
      by_cases here : c' = c
      · rw [here, Function.update_self, Function.update_self]
      · rw [Function.update_of_ne here, Function.update_of_ne here, List.append_nil]
    refine ⟨_, adds _, fun stream recvBuf => ?_⟩
    simp only [Transport.step, queued, short, next, Option.bind_eq_bind, Option.bind_some, adds]
  | recv c n io => cases sends

theorem migration_step_writer {s s' : Sys} {a : Migration.Action}
    (not_deliver : Transport.isDeliver a = false) (h : Migration.step cfg s a = some s') :
    s'.writer = s.writer := by
  cases Migration.step_inv h with
  | lost head bad => cases not_deliver
  | delivered head good => cases not_deliver
  | _ => rfl

theorem client_step_writer {t t' : Transport.State} {a : Transport.Action} (sends : isRecv a = false)
    (h : Transport.step z level cfg t a = some t') : t'.base.writer = t.base.writer := by
  cases a with
  | client a =>
    simp only [Transport.step] at h
    split at h
    · cases h
    next not_deliver =>
      obtain ⟨base, next, out⟩ := Option.bind_eq_some_iff.mp h
      unfold Transport.sendOut at out
      split at out
      · cases out
        have same := migration_step_writer (by simpa using not_deliver) next
        exact same
      · cases out
  | cut c n =>
    obtain ⟨bytes, -, h⟩ := Option.bind_eq_some_iff.mp h
    obtain ⟨-, -, h⟩ := Option.bind_eq_some_iff.mp h
    obtain ⟨base, next, h⟩ := Option.bind_eq_some_iff.mp h
    cases h
    exact migration_step_writer rfl next
  | recv c n io => cases sends

end Client

section Runs
variable {z : Zstd} {level : Int} {cfg : Migration.Config} {server : ServerRun.Config}

/-- Every step is answered by a run on byte streams, with the client's steps unchanged. -/
theorem step_answered {t t' : State} {u : Transport.State} {a : Action}
    (inv : Sound server t.loop ∧ Joins t.net t.loop u)
    (next : step z level cfg server t a = some t') :
    ∃ as u', run (Transport.step z level cfg) u as = some u' ∧
      (Sound server t'.loop ∧ Joins t'.net t'.loop u') ∧
      ∀ b ∈ as, isRecv b = true ∨ a = .client b := by
  obtain ⟨sound, joins⟩ := inv
  cases a with
  | client a =>
    simp only [step] at next
    split at next
    · cases next
    next not_recv =>
      have sends : isRecv a = false := by simpa using not_recv
      obtain ⟨v, moved, rfl⟩ := Option.map_eq_some_iff.mp next
      obtain ⟨out, stream, elsewhere⟩ := client_step_adds sends moved
      have same : u = ⟨t.net.base, u.stream, u.recvBuf⟩ := by rw [← joins.base]
      refine ⟨[a], ⟨v.base, fun c => u.stream c ++ out c, u.recvBuf⟩, ?_, ⟨sound, ?_⟩, by simp⟩
      · rw [run, same, elsewhere]
        rfl
      · refine ⟨rfl, (client_step_writer sends moved).trans joins.writer, fun c is_open => ?_,
          joins.unused, joins.buffered⟩
        simp only [stream, joins.streams c is_open]
  | pass p =>
    simp only [step] at next
    split at next
    next fresh =>
      obtain ⟨loop, passed, mapped⟩ := Option.bind_eq_some_iff.mp next
      obtain ⟨net, heard, rfl⟩ := Option.map_eq_some_iff.mp mapped
      obtain ⟨as, u', runs, recvs, after⟩ := pass_answered joins sound fresh passed heard
      exact ⟨as, u', runs, after, fun b member => .inl (recvs b member)⟩
    · cases next

theorem joins_start (w : Writer) : Joins (start w).net (start w).loop (Transport.start w) :=
  ⟨rfl, rfl, fun _ _ => rfl, fun _ _ => rfl, by simp [start, ServerRun.start]⟩

theorem run_answered {w : Writer} {actions : List Action} {t : State}
    (h : run (step z level cfg server) (start w) actions = some t) :
    ∃ as u, run (Transport.step z level cfg) (Transport.start w) as = some u ∧
      Joins t.net t.loop u ∧ ∀ b ∈ as, isRecv b = true ∨ .client b ∈ actions := by
  obtain ⟨as, u, runs, ⟨-, joins⟩, kinds⟩ := run_answers
    (R := fun (t : State) u => Sound server t.loop ∧ Joins t.net t.loop u)
    (fun a => a ∈ actions) (fun b => isRecv b = true ∨ .client b ∈ actions)
    (fun t a t' u inv member next => by
      obtain ⟨as, u', runs, inv', kinds⟩ := step_answered inv next
      refine ⟨as, u', runs, inv', fun b listed => ?_⟩
      rcases kinds b listed with recv | rfl
      · exact .inl recv
      · exact .inr member)
    ⟨ServerRun.sound_start server w, joins_start w⟩ h fun a member => member
  exact ⟨as, u, runs, joins, kinds⟩

end Runs

def frameBytes : List UInt8 :=
  [0, 0, 0, 31, 97, 98, 99, 40, 181, 47, 253, 32, 19, 153, 0, 0, 147, 0, 0, 1, 211, 0, 0, 0, 0, 0, 0,
    2, 0, 2, 196, 3, 1, 2, 3]

theorem frameBytes_first : 1 ≤ (frameBytes.take 10).length ∧
    (frameBytes.take 10).length ≤ recvChunkSize := by decide

theorem frameBytes_rest : 1 ≤ (frameBytes.drop 10).length ∧
    (frameBytes.drop 10).length ≤ recvChunkSize := by decide

def visits (_ : Int) : ServerRun.Visit :=
  -- the frame is there in two pieces, and the disk takes it in two writes
  ⟨true, [.data ⟨frameBytes.take 10, frameBytes_first⟩ fun _ => ⟨true, [], []⟩,
    .data ⟨frameBytes.drop 10, frameBytes_rest⟩ fun _ => ⟨true, [.wrote 1], []⟩]⟩

def reading : Pass := .selected none (fun fd => fd == 4) visits

def sending : List Action :=
  [.client (.client (.sendBlock ⟨⟨0, 512, [1, 2, 3]⟩, Reader.threeBytes_fit⟩ 0)),
    .client (.client (.push true 0)), .client (.client (.flushOne (.sentOn 0)))]

def oneBlock : List Action :=
  -- a client connects and sends a block, which is written and acknowledged
  .pass ServerRun.arrival :: (sending ++ [.pass reading, .client (.client (.recvAck 0))])

section OneBlock

abbrev systemStep : State → Action → Option State :=
  step storedZstd 3 ⟨false, "10.0.0.1:3400"⟩ ⟨3, 7⟩

def connected : State := ⟨⟨init blankWriter, fun _ => []⟩, ServerRun.afterArrival blankWriter⟩

theorem step_arrival : systemStep (start blankWriter) (.pass ServerRun.arrival) = some connected := by
  have fresh : Fresh ⟨3, 7⟩ (start blankWriter).loop ServerRun.arrival := by decide
  have passed : ServerRun.step ⟨3, 7⟩ storedZstd (start blankWriter).loop ServerRun.arrival =
      some (ServerRun.afterArrival blankWriter) := ServerRun.step_arrival blankWriter
  simp only [systemStep, step, if_pos fresh, passed, Option.bind_some]
  rfl

def sentNet : Net := ((run systemStep connected sending).map State.net).getD connected.net

theorem run_sending :
    run systemStep connected sending = some ⟨sentNet, ServerRun.afterArrival blankWriter⟩ := rfl

def readLoop : ServerRun.State :=
  handleActiveCb storedZstd
    (ServerRun.isset ⟨3, 7⟩ (ServerRun.afterArrival blankWriter) fun fd => fd == 4) visits 0
    ⟨0, 4, [], false, 0, 0⟩ (ServerRun.afterArrival blankWriter)

theorem step_reading :
    ServerRun.step ⟨3, 7⟩ storedZstd (ServerRun.afterArrival blankWriter) reading = some readLoop := by
  have single : (ServerRun.afterArrival blankWriter).sessions = [⟨0, 4, [], false, 0, 0⟩] := rfl
  have walk := ServerRun.sessionForeach_single storedZstd
    (ServerRun.isset ⟨3, 7⟩ (ServerRun.afterArrival blankWriter) fun fd => fd == 4) visits single
  simp only [ServerRun.step, reading]
  exact congrArg some walk

theorem run_oneBlock : ∃ t, run systemStep (start blankWriter) oneBlock = some t ∧
    ∃ row ∈ t.net.base.db.rows, row.ack = true := by
  have fresh : Fresh ⟨3, 7⟩ (ServerRun.afterArrival blankWriter) reading := trivial
  have ends : ((run hears sentNet (readLoop.log.drop 2)).bind fun net =>
      systemStep ⟨net, readLoop⟩ (.client (.client (.recvAck 0)))).map
        (fun t => decide (∃ row ∈ t.net.base.db.rows, row.ack = true)) = some true := by
    decide +kernel
  obtain ⟨t, last, acked⟩ := Option.map_eq_some_iff.mp ends
  obtain ⟨net, heard, ack⟩ := Option.bind_eq_some_iff.mp last
  have passed : systemStep ⟨sentNet, ServerRun.afterArrival blankWriter⟩ (.pass reading) =
      some ⟨net, readLoop⟩ := by
    simp only [systemStep, step, if_pos fresh, step_reading, Option.bind_some]
    exact congrArg (Option.map _) heard
  refine ⟨t, ?_, of_decide_eq_true acked⟩
  rw [oneBlock, run, step_arrival, Option.bind_some, run_append, run_sending, Option.bind_some, run,
    passed, Option.bind_some, run, ack]
  rfl

end OneBlock

section FullMode
open Mirror

def Action.Whole : Action → Prop
  | .client a => a.Whole
  | .pass _ => True

theorem oneBlock_whole : ∀ a ∈ oneBlock, a.Whole := by
  simp [oneBlock, sending, Action.Whole, Transport.Action.Whole]

theorem oneBlock_reads : ∀ b version, .client (.client (.sendBlock b version)) ∈ oneBlock →
    FromSource (fun _ a => UInt8.ofNat (a - 511)) (fun _ => 3) b.1 := by
  have block : FromSource (fun _ a => UInt8.ofNat (a - 511)) (fun _ => 3) ⟨0, 512, [1, 2, 3]⟩ := by
    decide +kernel
  intro b version member
  have same : b = ⟨⟨0, 512, [1, 2, 3]⟩, Reader.threeBytes_fit⟩ := by
    simp [oneBlock, sending] at member
    exact member.1
  rw [same]
  exact block

end FullMode

end Go2Cloud.LoopSystem
