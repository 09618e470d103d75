import Mathlib.Logic.Function.Basic
import Mathlib.Data.List.FinRange
import Go2Cloud.Lib.Framing
import Go2Cloud.Lib.Transition
import Go2Cloud.Client.Wire

/-! The connection pool (client/pool.c) and everything written through it:
flush_one and the control senders of client/main.c. A descriptor is a number and
may be reused; a TCP connection is known by the order in which it was opened, and
its stream lists the frames offered to it. -/
namespace Go2Cloud.Pool
open Protocol Wire Framing Transition

def staleSocketTimeoutSec : Int := 720

/-- `fd = none` is SOCKET_ERR; `scratch` says whether send_scratch was allocated. -/
structure PoolConn where
  fd : Option Nat
  inUse : Bool
  lastActive : Int
  scratch : Bool
  deriving DecidableEq

def PoolConn.sendScratchCap (c : PoolConn) : Nat := if c.scratch then sendScratchSize else 0

abbrev Slot := Fin socketPoolTarget

structure SocketPool where
  conns : Slot → PoolConn
  count : Int
  nextIndex : Slot

def SocketPool.setConn (p : SocketPool) (i : Slot) (c : PoolConn) : SocketPool :=
  { p with conns := Function.update p.conns i c }

/-- The pool, the open descriptors with the connection of each socket, and the
streams of all connections opened so far. -/
structure Client where
  pool : SocketPool
  descriptors : List (Nat × Option Nat)
  streams : List (List (Attempt UInt8))

def Slot.after (i : Slot) (k : Nat) : Slot :=
  -- `(i + k) % SOCKET_POOL_TARGET`
  ⟨(i.val + k) % socketPoolTarget, Nat.mod_lt _ (by decide)⟩

def Client.connected (s : Client) (fd : Nat) : Client :=
  { s with
    descriptors := (fd, some s.streams.length) :: s.descriptors
    streams := s.streams ++ [[]] }

def Client.isOpen (s : Client) (fd : Nat) : Bool := s.descriptors.any fun d => d.1 = fd

/-- The loop of pool_init. A slot without scratch buffer is passed over; the first
failed connection ends the loop and leaves the slots behind it zeroed, with
descriptor 0. `none` is a return value of -1. -/
def connectSlots (env : Slot → Bool × Option Nat) (now : Int) : List Slot → Client → Option Client
  | [], s => some s
  | i :: rest, s =>
    match env i with
    | (false, _) =>
      connectSlots env now rest { s with pool := s.pool.setConn i ⟨none, false, 0, false⟩ }
    | (true, none) =>
      if i.val = 0 then none
      else some { s with pool := s.pool.setConn i ⟨none, false, 0, true⟩ }
    | (true, some fd) =>
      if s.isOpen fd then none
      else
        let s := s.connected fd
        connectSlots env now rest
          { s with
            pool := { s.pool.setConn i ⟨some fd, false, now, true⟩ with
              count := s.pool.count + 1 } }

/-- pool_init in a process that has the descriptors `opened` already. The
environment says for each slot whether malloc succeeds and what pool_connect
returns. -/
def poolInit (opened : List Nat) (env : Slot → Bool × Option Nat) (now : Int) : Option Client :=
  connectSlots env now (List.finRange socketPoolTarget)
    ⟨⟨fun _ => ⟨some 0, false, 0, false⟩, 0, ⟨0, by decide⟩⟩, opened.map (·, none), []⟩

def freeConn (p : SocketPool) : Option Slot :=
  -- first loop of pool_acquire: the next connection in turn that is open and idle
  ((List.range socketPoolTarget).map p.nextIndex.after).find? fun i =>
    (p.conns i).fd.isSome && !(p.conns i).inUse

def spareConn (p : SocketPool) : Option Slot :=
  -- second loop of pool_acquire: the slot a new connection would take
  (List.finRange socketPoolTarget).find? fun i => (p.conns i).fd.isNone && (p.conns i).scratch

structure Net where
  connect : Option Nat
  acquired : Int
  touched : Int
  script : List SendResult

def poolAcquire (s : Client) (net : Net) : Option (Client × Option Slot) :=
  match freeConn s.pool with
  | some i =>
    some ({ s with
      pool := { s.pool.setConn i { s.pool.conns i with inUse := true } with
        nextIndex := i.after 1 } }, some i)
  | none =>
    if s.pool.count < socketPoolTarget then
      match spareConn s.pool, net.connect with
      | some i, some fd =>
        if s.isOpen fd then none
        else
          let s := s.connected fd
          some ({ s with
            pool :=
              { s.pool.setConn i
                  { s.pool.conns i with fd := some fd, inUse := true, lastActive := net.acquired } with
                count := s.pool.count + 1
                nextIndex := i.after 1 } }, some i)
      | _, _ => some (s, none)
    else some (s, none)

def poolRelease (s : Client) (i : Slot) : Client :=
  { s with pool := s.pool.setConn i { s.pool.conns i with inUse := false } }

def poolTouch (s : Client) (i : Slot) (now : Int) : Client :=
  { s with pool := s.pool.setConn i { s.pool.conns i with lastActive := now } }

/-- One turn of pool_reap_stale. Closing a descriptor frees its number, whichever
slots still hold it. -/
def reapConn (now : Int) (s : Client) (i : Slot) : Client :=
  let c := s.pool.conns i
  match c.fd with
  | none => s
  | some fd =>
    if c.inUse = false ∧ now - c.lastActive > staleSocketTimeoutSec then
      { s with
        pool := { s.pool.setConn i { c with fd := none } with count := s.pool.count - 1 }
        descriptors := s.descriptors.filter fun d => d.1 ≠ fd }
    else s

def poolReapStale (s : Client) (now : Int) : Client :=
  (List.finRange socketPoolTarget).foldl (reapConn now) s

def connection (s : Client) (i : Slot) : Option Nat :=
  (s.pool.conns i).fd.bind fun fd => (s.descriptors.lookup fd).join

inductive Outgoing where
  | block (payload : List UInt8)
  | control (c : Control)
  deriving DecidableEq

variable (z : Zstd) (level : Int)

def attempt (scratchCap : Nat) (script : List SendResult) : Outgoing → Option (Attempt UInt8)
  -- what wire_send or wire_send_control offers to the socket and gets accepted
  | .block payload =>
    match h : wireFrame z level payload scratchCap with
    | none => none
    | some data => some ⟨data, (wireSend z level payload scratchCap script).accepted, by
        rw [wireSend_eq_sendAll h]; exact sendAll_within script data⟩
  | .control c =>
    some ⟨frame c.bytes, (wireSendControl c script).accepted, wireSendControl_within c script⟩

def send (s : Client) (i : Slot) (m : Outgoing) (script : List SendResult) : Client :=
  match connection s i, attempt z level (s.pool.conns i).sendScratchCap script m with
  | some k, some a => { s with streams := s.streams.modify k (· ++ [a]) }
  | _, _ => s

-- acquire, send, touch, release. Whether the send failed makes no difference to the pool
def transmit (s : Client) (m : Outgoing) (touch : Bool) (net : Net) : Option Client := do
  let (s, slot) ← poolAcquire s net
  match slot with
  | none => some s
  | some i =>
    let s := send z level s i m net.script
    some (poolRelease (if touch then poolTouch s i net.touched else s) i)

def flushOne (s : Client) (payload : List UInt8) (net : Net) : Option Client :=
  transmit z level s (.block payload) true net

def sendCtlIncremental (s : Client) (net : Net) : Option Client :=
  transmit z level s (.control .incremental) false net

def sendCtlEndIncremental (s : Client) (touch : Bool) (net : Net) : Option Client :=
  -- the senders of ctlEndIncremental; only those of do_migrate touch the connection
  transmit z level s (.control .endIncremental) touch net

/-- The senders, and the two parts of do_reconnect: pool_reap_stale and one turn of
its loop. -/
inductive Action where
  | flushOne (payload : List UInt8) (net : Net)
  | ctlIncremental (net : Net)
  | ctlEndIncremental (touch : Bool) (net : Net)
  | reapStale (now : Int)
  | reconnect (net : Net)

def step (s : Client) : Action → Option Client
  | .flushOne payload net => flushOne z level s payload net
  | .ctlIncremental net => sendCtlIncremental z level s net
  | .ctlEndIncremental touch net => sendCtlEndIncremental z level s touch net
  | .reapStale now => some (poolReapStale s now)
  | .reconnect net => do
    let (s, slot) ← poolAcquire s net
    some (slot.elim s (poolRelease s))

def Fatal (s : Client) (m : Outgoing) (net : Net) : Prop :=
  ∀ i ∈ freeConn s.pool, ∀ k ∈ connection s i, Broken (s.streams.getD k []) →
    (attempt z level (s.pool.conns i).sendScratchCap net.script m).isSome →
      FailsAtOnce net.script

/-- A send() that failed in the middle of a frame was fatal for its connection. -/
def FailuresFatal (s : Client) : Action → Prop
  | .flushOne payload net => Fatal z level s (.block payload) net
  | .ctlIncremental net => Fatal z level s (.control .incremental) net
  | .ctlEndIncremental _ net => Fatal z level s (.control .endIncremental) net
  | .reapStale _ => True
  | .reconnect _ => True

instance (s : Client) (m : Outgoing) (net : Net) : Decidable (Fatal z level s m net) := by
  unfold Fatal
  infer_instance

instance (s : Client) : (a : Action) → Decidable (FailuresFatal z level s a)
  | .flushOne payload net => inferInstanceAs (Decidable (Fatal z level s (.block payload) net))
  | .ctlIncremental net => inferInstanceAs (Decidable (Fatal z level s (.control .incremental) net))
  | .ctlEndIncremental _ net =>
    inferInstanceAs (Decidable (Fatal z level s (.control .endIncremental) net))
  | .reapStale _ => .isTrue trivial
  | .reconnect _ => .isTrue trivial

@[simp] theorem poolRelease_streams (s : Client) (i : Slot) :
    (poolRelease s i).streams = s.streams := rfl

@[simp] theorem poolTouch_streams (s : Client) (i : Slot) (now : Int) :
    (poolTouch s i now).streams = s.streams := rfl

@[simp] theorem reapConn_streams (now : Int) (s : Client) (i : Slot) :
    (reapConn now s i).streams = s.streams := by
  simp only [reapConn]
  split
  · rfl
  · split <;> rfl

theorem poolReapStale_streams (s : Client) (now : Int) :
    (poolReapStale s now).streams = s.streams := by
  unfold poolReapStale
  generalize List.finRange socketPoolTarget = slots
  induction slots generalizing s with
  | nil => rfl
  | cons i rest ih => rw [List.foldl_cons, ih, reapConn_streams]

inductive Acquired (s : Client) : Client → Option Slot → Prop where
  | idle (i : Slot) (s' : Client) : freeConn s.pool = some i → s'.streams = s.streams →
      connection s' i = connection s i →
      (s'.pool.conns i).sendScratchCap = (s.pool.conns i).sendScratchCap → Acquired s s' (some i)
  | opened (i : Slot) (s' : Client) : freeConn s.pool = none →
      s'.streams = s.streams ++ [[]] → connection s' i = some s.streams.length →
      Acquired s s' (some i)
  | refused : freeConn s.pool = none → Acquired s s none

theorem poolAcquire_cases {s s' : Client} {net : Net} {slot : Option Slot}
    (h : poolAcquire s net = some (s', slot)) : Acquired s s' slot := by
  unfold poolAcquire at h
  split at h
  next i free =>
    cases h
    exact .idle i _ free rfl (by simp [connection, SocketPool.setConn])
      (by simp [SocketPool.setConn, PoolConn.sendScratchCap])
  next busy =>
    split at h
    · split at h
      next i fd _ _ =>
        split at h
        · simp at h
        · cases h
          exact .opened i _ busy rfl
            (by simp [connection, SocketPool.setConn, Client.connected])
      · cases h
        exact .refused busy
    · cases h
      exact .refused busy

theorem attempt_accepted_eq_nil {cap : Nat} {script : List SendResult} {m : Outgoing}
    {a : Attempt UInt8} (h : attempt z level cap script m = some a) :
    a.accepted = [] ↔ FailsAtOnce script := by
  cases m with
  | block payload =>
    simp only [attempt] at h
    split at h
    · simp at h
    next data built =>
      cases h
      change (wireSend z level payload cap script).accepted = [] ↔ _
      rw [wireSend_eq_sendAll built]
      exact sendAll_accepted_eq_nil script (wireFrame_ne_nil built)
  | control c =>
    cases h
    exact wireSendControl_accepted_eq_nil c script

def AllFramed (s : Client) : Prop := ∀ stream ∈ s.streams, Framed stream

instance (s : Client) : Decidable (AllFramed s) :=
  inferInstanceAs (Decidable (∀ stream ∈ s.streams, Framed stream))

theorem allFramed_congr {s s' : Client} (h : s'.streams = s.streams) :
    AllFramed s' ↔ AllFramed s := by
  rw [AllFramed, AllFramed, h]

theorem allFramed_opened {s s' : Client} (h : s'.streams = s.streams ++ [[]]) :
    AllFramed s' ↔ AllFramed s := by
  simp [AllFramed, h, or_imp, forall_and, Framed]

theorem send_allFramed (s : Client) (i : Slot) (m : Outgoing) (script : List SendResult) :
    AllFramed (send z level s i m script) ↔ AllFramed s ∧
      ∀ k ∈ connection s i, Broken (s.streams.getD k []) →
        (attempt z level (s.pool.conns i).sendScratchCap script m).isSome →
          FailsAtOnce script := by
  unfold send
  split
  next k a conn tried =>
    simp [AllFramed, conn, tried, framed_modify, attempt_accepted_eq_nil z level tried]
  next idle =>
    refine ⟨fun framed => ⟨framed, fun k conn _ some_attempt => ?_⟩, And.left⟩
    obtain ⟨a, tried⟩ := Option.isSome_iff_exists.mp some_attempt
    exact absurd tried (idle k a conn)

/-- A transmission keeps the streams framed exactly if earlier failures were fatal. -/
theorem transmit_allFramed {s s' : Client} {m : Outgoing} {touch : Bool} {net : Net}
    (h : transmit z level s m touch net = some s') :
    AllFramed s' ↔ AllFramed s ∧ Fatal z level s m net := by
  obtain ⟨⟨s₁, slot⟩, acquire, rest⟩ := Option.bind_eq_some_iff.mp h
  cases poolAcquire_cases acquire with
  | refused busy =>
    cases rest
    simp [Fatal, busy]
  | idle i _ free same conn cap =>
    cases rest
    have sent : AllFramed (send z level s₁ i m net.script) ↔ AllFramed s ∧ Fatal z level s m net := by
      rw [send_allFramed, allFramed_congr same, same, conn, cap]
      simp [Fatal, free]
    rw [← sent]
    exact allFramed_congr (by cases touch <;> simp)
  | opened i _ busy added conn =>
    cases rest
    have sent : AllFramed (send z level s₁ i m net.script) ↔ AllFramed s ∧ Fatal z level s m net := by
      rw [send_allFramed, allFramed_opened added, added, conn]
      simp [Fatal, busy, Broken]
    rw [← sent]
    exact allFramed_congr (by cases touch <;> simp)

theorem step_allFramed (s : Client) (a : Action) (s' : Client)
    (h : step z level s a = some s') :
    AllFramed s' ↔ AllFramed s ∧ FailuresFatal z level s a := by
  cases a with
  | flushOne payload net => exact transmit_allFramed z level h
  | ctlIncremental net => exact transmit_allFramed z level h
  | ctlEndIncremental touch net => exact transmit_allFramed z level h
  | reapStale now =>
    cases h
    simpa [FailuresFatal] using allFramed_congr (poolReapStale_streams s now)
  | reconnect net =>
    obtain ⟨⟨s₁, slot⟩, acquire, rest⟩ := Option.bind_eq_some_iff.mp h
    rw [FailuresFatal, and_true]
    cases poolAcquire_cases acquire with
    | refused busy =>
      cases rest
      rfl
    | idle i _ free same _ _ =>
      cases rest
      exact allFramed_congr same
    | opened i _ busy added _ =>
      cases rest
      exact allFramed_opened added

theorem connectSlots_streams {env : Slot → Bool × Option Nat} {now : Int} {slots : List Slot}
    {s t : Client} (h : connectSlots env now slots s = some t)
    (silent : ∀ stream ∈ s.streams, stream = []) : ∀ stream ∈ t.streams, stream = [] := by
  induction slots generalizing s with
  | nil =>
    cases h
    exact silent
  | cons i rest ih =>
    simp only [connectSlots] at h
    split at h
    · exact ih h silent
    · split at h
      · simp at h
      · cases h
        exact silent
    · split at h
      · simp at h
      · refine ih h fun stream mem => ?_
        rcases List.mem_append.mp mem with old | new
        · exact silent stream old
        · exact List.mem_singleton.mp new

theorem poolInit_allFramed {opened : List Nat} {env : Slot → Bool × Option Nat} {now : Int}
    {s : Client} (h : poolInit opened env now = some s) : AllFramed s := by
  intro stream mem
  rw [connectSlots_streams h (by simp) stream mem]
  trivial

/-- Over a whole run the connections' streams stay framed exactly if a connection
on which send() failed in the middle of a frame accepts nothing more. -/
theorem streams_framed_iff {opened : List Nat} {env : Slot → Bool × Option Nat} {now : Int}
    {s t : Client} {actions : List Action} (start : poolInit opened env now = some s)
    (h : run (step z level) s actions = some t) :
    (∀ stream ∈ t.streams, Framed stream) ↔
      Meets (step z level) (FailuresFatal z level) s actions := by
  have whole := run_iff_meets (step_allFramed z level) h
  rwa [and_iff_right (poolInit_allFramed start)] at whole

/-- What each connection then carried: whole frames in the order they were sent, and
at most one cut frame behind them. -/
theorem streams_taken {s t : Client} {actions : List Action} (start : AllFramed s)
    (h : run (step z level) s actions = some t)
    (fatal : Meets (step z level) (FailuresFatal z level) s actions) :
    ∀ stream ∈ t.streams, ∃ (whole : List (List UInt8)) (part : List UInt8),
      taken stream = whole.flatten ++ part ∧ whole.Sublist (stream.map Attempt.frame) ∧
        (part = [] ∨ ∃ a ∈ stream, a.Cut ∧ part = a.accepted) :=
  fun stream mem => ((run_iff_meets (step_allFramed z level) h).mpr ⟨start, fatal⟩ stream mem).taken_eq

def sevenConnections : Slot → Bool × Option Nat := fun i => (true, some (i.val + 3))

def onlySend (script : List SendResult) : Net := ⟨none, 1, 1, script⟩

/-- The first frame breaks off after two bytes; then each other connection gets a
frame, and the end marker comes round to the first again. -/
def cutThenEnd (last : List SendResult) : List Action :=
  .flushOne [0x80] (onlySend [.sent 2, .error]) ::
    List.replicate 6 (.flushOne [0x80] (onlySend [])) ++ [.ctlEndIncremental true (onlySend last)]

/-- With the first connection reset the end marker is refused there. -/
theorem streams_framed_after_reset :
    ∃ s ∈ poolInit [0, 1, 2] sevenConnections 0, ∃ t ∈ run (step storedZstd 1) s (cutThenEnd [.error]),
      ∀ stream ∈ t.streams, Framed stream := by
  have runs : ∃ s ∈ poolInit [0, 1, 2] sevenConnections 0,
      ∃ t ∈ run (step storedZstd 1) s (cutThenEnd [.error]),
        Meets (step storedZstd 1) (FailuresFatal storedZstd 1) s (cutThenEnd [.error]) := by
    decide +kernel
  obtain ⟨s, start, t, h, fatal⟩ := runs
  exact ⟨s, start, t, h, (streams_framed_iff storedZstd 1 start h).mpr fatal⟩

/-- The connection went back to the pool, and the end marker is written behind the
two bytes. -/
theorem stream_continues_after_cut :
    ∃ s ∈ poolInit [0, 1, 2] sevenConnections 0, ∃ t ∈ run (step storedZstd 1) s (cutThenEnd []),
      t.streams.head?.map taken = some ([0, 0] ++ frame Control.endIncremental.bytes) ∧
        ¬ ∀ stream ∈ t.streams, Framed stream := by
  decide +kernel

end Go2Cloud.Pool
