import Mathlib.Data.List.FinRange
import Go2Cloud.Lib.RoundRobin
import Go2Cloud.Client.Pool

/-! The order in which pool_acquire (client/pool.c) hands out the connections. While no
connection goes stale, the messages of client/main.c are dealt to the open slots in
turn, whatever send() returns: flush_one touches the connection and gives it back also
after a failed wire_send, and do_reconnect closes only what was not touched. -/
namespace Go2Cloud.PoolRing
open Protocol Wire Framing Transition Pool RoundRobin

def turnFrom (first : Slot) : List Slot := (List.range socketPoolTarget).map first.after

/-- The open slots in that order. -/
def ring (p : SocketPool) : List Slot :=
  (turnFrom p.nextIndex).filter fun i => (p.conns i).fd.isSome

def activity (p : SocketPool) : List Int := (ring p).map fun i => (p.conns i).lastActive

theorem turnFrom_after : ∀ (first : Slot) (k : Fin (socketPoolTarget + 1)),
    turnFrom (first.after k) = (turnFrom first).rotate k := by
  decide +kernel

theorem turnFrom_nodup : ∀ first : Slot, (turnFrom first).Nodup := by
  decide +kernel

theorem mem_turnFrom : ∀ first i : Slot, i ∈ turnFrom first := by
  decide +kernel

theorem mem_ring {p : SocketPool} {i : Slot} : i ∈ ring p ↔ (p.conns i).fd ≠ none := by
  simp [ring, mem_turnFrom, Option.isSome_iff_ne_none]

structure Settled (s : Client) : Prop where
  idle : ∀ i, (s.pool.conns i).inUse = false
  live : ∀ d ∈ s.descriptors, ∀ k ∈ d.2, k < s.streams.length

structure Held (i : Slot) (s : Client) : Prop where
  others : ∀ j, j ≠ i → (s.pool.conns j).inUse = false
  live : ∀ d ∈ s.descriptors, ∀ k ∈ d.2, k < s.streams.length

theorem Settled.held {s : Client} (settled : Settled s) (i : Slot) : Held i s :=
  ⟨fun j _ => settled.idle j, settled.live⟩

theorem Held.set {s : Client} {i : Slot} (held : Held i s) (c : PoolConn) (count : Int)
    (next : Slot) :
    Held i { s with pool := { s.pool.setConn i c with count, nextIndex := next } } := by
  refine ⟨fun j other => ?_, held.live⟩
  simpa [SocketPool.setConn, Function.update_of_ne other] using held.others j other

theorem Held.connected {s : Client} {i : Slot} (held : Held i s) (fd : Nat) :
    Held i (s.connected fd) := by
  refine ⟨held.others, fun d member k opened => ?_⟩
  simp only [Client.connected, List.length_append, List.length_singleton] at member ⊢
  rcases List.mem_cons.mp member with rfl | old
  · simp only [Option.mem_def, Option.some.injEq] at opened
    omega
  · have := held.live d old k opened
    omega

theorem Held.release {s : Client} {i : Slot} (held : Held i s) : Settled (poolRelease s i) := by
  refine ⟨fun j => ?_, held.live⟩
  by_cases same : j = i
  · subst same
    simp [poolRelease, SocketPool.setConn]
  · simpa [poolRelease, SocketPool.setConn, Function.update_of_ne same] using held.others j same

theorem poolAcquire_held {s t : Client} {net : Net} {slot : Option Slot} (settled : Settled s)
    (acquire : poolAcquire s net = some (t, slot)) :
    (slot = none ∧ t = s) ∨ ∃ i, slot = some i ∧ Held i t := by
  unfold poolAcquire at acquire
  split at acquire
  next i free =>
    cases acquire
    exact .inr ⟨i, rfl, (settled.held i).set _ _ _⟩
  next =>
    split at acquire
    · split at acquire
      next i fd _ _ =>
        split at acquire
        · cases acquire
        · cases acquire
          exact .inr ⟨i, rfl, ((settled.held i).connected fd).set _ _ _⟩
      · cases acquire
        exact .inl ⟨rfl, rfl⟩
    · cases acquire
      exact .inl ⟨rfl, rfl⟩

variable (z : Zstd) (level : Int)

def offer (conn : Option Nat) (a : Option (Attempt UInt8)) (streams : List (List (Attempt UInt8))) :
    List (List (Attempt UInt8)) :=
  match conn, a with
  | some k, some a => streams.modify k (· ++ [a])
  | _, _ => streams

theorem send_eq_offer (s : Client) (i : Slot) (m : Outgoing) (script : List SendResult) :
    send z level s i m script =
      { s with
        streams := offer (connection s i)
          (attempt z level (s.pool.conns i).sendScratchCap script m) s.streams } := by
  unfold send offer
  cases connection s i with
  | none => rfl
  | some k => cases attempt z level (s.pool.conns i).sendScratchCap script m <;> rfl

theorem offer_length (conn : Option Nat) (a : Option (Attempt UInt8))
    (streams : List (List (Attempt UInt8))) : (offer conn a streams).length = streams.length := by
  unfold offer
  split
  · exact List.length_modify _ _ _
  · rfl

theorem Held.send {s : Client} {i : Slot} (held : Held i s) (m : Outgoing)
    (script : List SendResult) : Held i (send z level s i m script) := by
  rw [send_eq_offer]
  exact ⟨held.others, by simpa only [offer_length] using held.live⟩

theorem Held.touch {s : Client} {i : Slot} (held : Held i s) (now : Int) :
    Held i (poolTouch s i now) :=
  held.set _ _ _

theorem transmit_settled {s t : Client} {m : Outgoing} {touch : Bool} {net : Net}
    (settled : Settled s) (h : transmit z level s m touch net = some t) : Settled t := by
  obtain ⟨⟨s₁, slot⟩, acquire, rest⟩ := Option.bind_eq_some_iff.mp h
  rcases poolAcquire_held settled acquire with ⟨rfl, rfl⟩ | ⟨i, rfl, held⟩
  · cases rest
    exact settled
  · cases rest
    have sent := held.send z level m net.script
    cases touch with
    | false => exact sent.release
    | true => exact (sent.touch net.touched).release

theorem reapConn_settled {s : Client} (now : Int) (i : Slot) (settled : Settled s) :
    Settled (reapConn now s i) := by
  simp only [reapConn]
  split
  · exact settled
  · split
    · refine ⟨fun j => ?_, fun d member => settled.live d (List.mem_of_mem_filter member)⟩
      simp only [SocketPool.setConn]
      by_cases same : j = i
      · subst same
        simpa using settled.idle j
      · simpa [Function.update_of_ne same] using settled.idle j
    · exact settled

theorem step_settled (s : Client) (a : Action) (t : Client) (settled : Settled s)
    (h : step z level s a = some t) : Settled t := by
  cases a with
  | flushOne payload net => exact transmit_settled z level settled h
  | ctlIncremental net => exact transmit_settled z level settled h
  | ctlEndIncremental touch net => exact transmit_settled z level settled h
  | reapStale now =>
    cases h
    exact List.foldlRecOn _ _ settled fun s settled i _ => reapConn_settled now i settled
  | reconnect net =>
    obtain ⟨⟨s₁, slot⟩, acquire, rest⟩ := Option.bind_eq_some_iff.mp h
    rcases poolAcquire_held settled acquire with ⟨rfl, rfl⟩ | ⟨i, rfl, held⟩
    · cases rest
      exact settled
    · cases rest
      exact held.release

theorem connectSlots_settled {env : Slot → Bool × Option Nat} {now : Int} {slots : List Slot}
    {s t : Client} (settled : Settled s) (h : connectSlots env now slots s = some t) :
    Settled t := by
  -- every slot is left idle, so a slot that was set passes for one given back
  have put : ∀ {s : Client} {i : Slot} (fd : Option Nat) (at_ : Int) (scratch : Bool) (count : Int),
      Settled s → Settled { s with
        pool := { s.pool.setConn i ⟨fd, false, at_, scratch⟩ with count } } := by
    intro s i fd at_ scratch count settled
    refine ⟨fun j => ?_, settled.live⟩
    by_cases same : j = i
    · subst same
      simp [SocketPool.setConn]
    · simpa [SocketPool.setConn, Function.update_of_ne same] using settled.idle j
  induction slots generalizing s with
  | nil =>
    cases h
    exact settled
  | cons i rest ih =>
    simp only [connectSlots] at h
    split at h
    · exact ih (put _ _ _ _ settled) h
    · split at h
      · cases h
      · cases h
        exact put _ _ _ _ settled
    next fd _ =>
      split at h
      · cases h
      · have opened : Settled (s.connected fd) :=
          ⟨settled.idle, ((settled.held i).connected fd).live⟩
        exact ih (put _ _ _ _ opened) h

theorem reachable_settled {opened : List Nat} {env : Slot → Bool × Option Nat} {now : Int}
    {s₀ s : Client} {before : List Action} (start : poolInit opened env now = some s₀)
    (reached : run (step z level) s₀ before = some s) : Settled s := by
  refine run_invariant (step_settled z level) reached (connectSlots_settled ?_ start)
  exact ⟨fun _ => rfl, by simp⟩

def served (p : SocketPool) (i : Slot) (touched : Option Int) : SocketPool :=
  { p.setConn i { p.conns i with lastActive := touched.getD (p.conns i).lastActive } with
    nextIndex := i.after 1 }

theorem served_conns (p : SocketPool) (i j : Slot) (touched : Option Int) :
    ((served p i touched).conns j).fd = (p.conns j).fd ∧
      ((served p i touched).conns j).sendScratchCap = (p.conns j).sendScratchCap := by
  by_cases same : j = i
  · subst same
    simp [served, SocketPool.setConn, PoolConn.sendScratchCap]
  · simp [served, SocketPool.setConn, Function.update_of_ne same]

theorem freeConn_eq_head {s : Client} (settled : Settled s) :
    freeConn s.pool = (ring s.pool).head? := by
  rw [ring, List.head?_filter, freeConn, turnFrom]
  simp [settled.idle]

theorem ring_served {p : SocketPool} {i : Slot} (front : (ring p).head? = some i)
    (touched : Option Int) : ring (served p i touched) = (ring p).rotate 1 := by
  rw [ring, List.head?_filter] at front
  obtain ⟨q, here, turned⟩ := filter_rotate_find front
  obtain ⟨inside, rfl⟩ := List.getElem?_eq_some_iff.mp here
  have inside : q < socketPoolTarget := by simpa [turnFrom] using inside
  have next : ((turnFrom p.nextIndex)[q]).after 1 = p.nextIndex.after (q + 1) := by
    simp only [turnFrom, List.getElem_map, List.getElem_range, Slot.after, Nat.mod_add_mod,
      Nat.add_assoc]
  have open_slots : ∀ j, ((served p (turnFrom p.nextIndex)[q] touched).conns j).fd.isSome =
      (p.conns j).fd.isSome := fun j => by rw [(served_conns p _ j touched).1]
  calc ring (served p (turnFrom p.nextIndex)[q] touched)
      = (turnFrom (p.nextIndex.after (q + 1))).filter fun j => (p.conns j).fd.isSome := by
        simp only [ring, open_slots]
        rw [← next]
        rfl
    _ = ((turnFrom p.nextIndex).rotate (q + 1)).filter fun j => (p.conns j).fd.isSome := by
        rw [turnFrom_after p.nextIndex ⟨q + 1, by omega⟩]
    _ = (ring p).rotate 1 := turned

/-- The times behind a message: its connection comes last, touched or not. -/
def retouch (recent : List Int) (touched : Option Int) : List Int :=
  recent.tail ++ (touched.or recent.head?).toList

theorem activity_served {p : SocketPool} {i : Slot} (front : (ring p).head? = some i)
    (touched : Option Int) : activity (served p i touched) = retouch (activity p) touched := by
  obtain ⟨rest, order⟩ := List.head?_eq_some_iff.mp front
  have nodup : (i :: rest).Nodup := order ▸ (turnFrom_nodup p.nextIndex).filter _
  have others : ∀ j ∈ rest,
      ((served p i touched).conns j).lastActive = (p.conns j).lastActive := by
    intro j member
    have other : j ≠ i := fun same => (List.nodup_cons.mp nodup).1 (same ▸ member)
    simp [served, SocketPool.setConn, Function.update_of_ne other]
  rw [activity, ring_served front, activity, order]
  simp only [List.rotate_cons_succ, List.rotate_zero, List.map_append, List.map_cons, List.map_nil,
    retouch, List.tail_cons, List.head?_cons, List.map_congr_left others]
  cases touched <;> simp [served, SocketPool.setConn]

theorem transmit_ring {s : Client} {i : Slot} (settled : Settled s)
    (front : (ring s.pool).head? = some i) (m : Outgoing) (touch : Bool) (net : Net) :
    transmit z level s m touch net =
      some { send z level s i m net.script with
        pool := served s.pool i (if touch then some net.touched else none) } := by
  have free : freeConn s.pool = some i := by rw [freeConn_eq_head settled, front]
  have idle := settled.idle i
  simp only [transmit, poolAcquire, free, send_eq_offer]
  cases touch <;>
    simp [connection, poolRelease, poolTouch, served, SocketPool.setConn, PoolConn.sendScratchCap,
      idle]

structure Message where
  out : Outgoing
  touch : Bool
  net : Net

def sending : Action → Option Message
  | .flushOne payload net => some ⟨.block payload, true, net⟩
  | .ctlIncremental net => some ⟨.control .incremental, false, net⟩
  | .ctlEndIncremental touch net => some ⟨.control .endIncremental, touch, net⟩
  | .reapStale _ => none
  | .reconnect _ => none

def messages (actions : List Action) : List Message := actions.filterMap sending

theorem step_sending {s : Client} {a : Action} {msg : Message} (sends : sending a = some msg) :
    step z level s a = transmit z level s msg.out msg.touch msg.net := by
  cases a <;> cases sends <;> rfl

/-- At no pool_reap_stale has one of the connections been idle for too long, given when
they were touched last; so the loop of do_reconnect has nothing to do either. -/
def Steady : List Int → List Action → Prop
  | _, [] => True
  | recent, .reapStale now :: rest =>
    (∀ at_ ∈ recent, now - at_ ≤ staleSocketTimeoutSec) ∧ Steady recent rest
  | _, .reconnect _ :: _ => False
  | recent, .flushOne _ net :: rest => Steady (retouch recent (some net.touched)) rest
  | recent, .ctlIncremental _ :: rest => Steady (retouch recent none) rest
  | recent, .ctlEndIncremental touch net :: rest =>
    Steady (retouch recent (if touch then some net.touched else none)) rest

instance decidableSteady : (recent : List Int) → (actions : List Action) →
    Decidable (Steady recent actions)
  | _, [] => .isTrue trivial
  | recent, .reapStale _ :: rest =>
    have := decidableSteady recent rest
    inferInstanceAs (Decidable (_ ∧ _))
  | _, .reconnect _ :: _ => .isFalse id
  | recent, .flushOne _ net :: rest => decidableSteady (retouch recent (some net.touched)) rest
  | recent, .ctlIncremental _ :: rest => decidableSteady (retouch recent none) rest
  | recent, .ctlEndIncremental touch net :: rest =>
    decidableSteady (retouch recent (if touch then some net.touched else none)) rest

theorem Steady.sending {recent : List Int} {a : Action} {rest : List Action} {msg : Message}
    (steady : Steady recent (a :: rest)) (sends : sending a = some msg) :
    Steady (retouch recent (if msg.touch then some msg.net.touched else none)) rest := by
  cases a <;> cases sends <;> exact steady

def offered (s : Client) (k : Nat) (i : Slot) (msg : Message) : Option (Attempt UInt8) :=
  if connection s i = some k then
    attempt z level (s.pool.conns i).sendScratchCap msg.net.script msg.out
  else none

theorem poolReapStale_fresh {s : Client} {now : Int}
    (fresh : ∀ at_ ∈ activity s.pool, now - at_ ≤ staleSocketTimeoutSec) :
    poolReapStale s now = s := by
  refine List.foldl_fixed' (fun i => ?_) _
  simp only [reapConn]
  split
  · rfl
  next fd taken =>
    have member : i ∈ ring s.pool := mem_ring.mpr (by simp [taken])
    have recent := fresh _ (List.mem_map_of_mem member)
    exact if_neg fun stale => absurd stale.2 (by omega)

theorem getD_offer {conn : Option Nat} {streams : List (List (Attempt UInt8))}
    (live : ∀ k ∈ conn, k < streams.length) (a : Option (Attempt UInt8)) (k : Nat) :
    (offer conn a streams).getD k [] =
      streams.getD k [] ++ (if conn = some k then a else none).toList := by
  cases conn with
  | none => simp [offer]
  | some n =>
    cases a with
    | none => simp [offer]
    | some a =>
      have inside : n < streams.length := live n rfl
      by_cases same : n = k
      · subst same
        simp [offer, List.getD_eq_getElem?_getD, inside]
      · simp [offer, List.getD_eq_getElem?_getD, same]

theorem connection_live {s : Client} (settled : Settled s) (i : Slot) :
    ∀ k ∈ connection s i, k < s.streams.length := by
  intro k here
  obtain ⟨fd, _, found⟩ := Option.bind_eq_some_iff.mp here
  obtain ⟨_, _, split, _⟩ := List.lookup_eq_some_iff.mp (Option.join_eq_some_iff.mp found)
  exact settled.live (fd, some k) (by simp [split]) k rfl

structure Dealt (s s' : Client) (msg : Message) : Prop where
  turned : ring s'.pool = (ring s.pool).rotate 1
  touched : activity s'.pool =
    retouch (activity s.pool) (if msg.touch then some msg.net.touched else none)
  kept : ∀ i, connection s' i = connection s i
  scratch : ∀ i, (s'.pool.conns i).sendScratchCap = (s.pool.conns i).sendScratchCap
  streams : ∀ k, s'.streams.getD k [] =
    s.streams.getD k [] ++ ((ring s.pool).head?.bind (offered z level s k · msg)).toList

theorem transmit_dealt {s s' : Client} {msg : Message} (settled : Settled s)
    (some_open : ring s.pool ≠ [])
    (h : transmit z level s msg.out msg.touch msg.net = some s') : Dealt z level s s' msg := by
  obtain ⟨i, rest, order⟩ := List.exists_cons_of_ne_nil some_open
  have front : (ring s.pool).head? = some i := by simp [order]
  rw [transmit_ring z level settled front, send_eq_offer] at h
  cases h
  refine ⟨ring_served front _, activity_served front _, fun j => ?_, fun j => ?_, fun k => ?_⟩
  · simp only [connection, (served_conns s.pool i j _).1]
  · exact (served_conns s.pool i j _).2
  · rw [front]
    exact getD_offer (connection_live settled i) _ k

theorem Dealt.offered_eq {s s' : Client} {msg : Message} (dealt : Dealt z level s s' msg) (k : Nat)
    (i : Slot) (msg' : Message) : offered z level s' k i msg' = offered z level s k i msg' := by
  simp only [offered, dealt.kept, dealt.scratch]

theorem run_dealt {s t : Client} {actions : List Action} (settled : Settled s)
    (some_open : ring s.pool ≠ []) (h : run (step z level) s actions = some t)
    (steady : Steady (activity s.pool) actions) :
    (∀ i, connection t i = connection s i) ∧
      ∀ k, t.streams.getD k [] =
        s.streams.getD k [] ++ share (ring s.pool) (offered z level s k) (messages actions) := by
  -- the induction goes over the actions; the ring is one place further after each message and the
  -- same after each pool_reap_stale
  induction actions generalizing s with
  | nil =>
    cases h
    simp [messages, share]
  | cons a rest ih =>
    obtain ⟨s', first, later⟩ := run_cons h
    have settled' := step_settled z level s a s' settled first
    cases sends : sending a with
    | some msg =>
      rw [step_sending z level sends] at first
      have dealt := transmit_dealt z level settled some_open first
      have open' : ring s'.pool ≠ [] := by simpa [dealt.turned] using some_open
      obtain ⟨kept, streams⟩ := ih settled' open' later (dealt.touched ▸ steady.sending sends)
      refine ⟨fun i => (kept i).trans (dealt.kept i), fun k => ?_⟩
      have sent : messages (a :: rest) = msg :: messages rest := by simp [messages, sends]
      rw [streams k, dealt.streams k, sent, share_cons, dealt.turned, List.append_assoc,
        share_congr (dealt.offered_eq z level k)]
    | none =>
      cases a with
      | flushOne | ctlIncremental | ctlEndIncremental => cases sends
      | reconnect => exact steady.elim
      | reapStale now =>
        obtain rfl : poolReapStale s now = s' := Option.some.inj first
        rw [poolReapStale_fresh steady.1] at later
        exact ih settled some_open later steady.2

/-- Over any stretch of a run in which no connection goes stale the connections stay as
they are and the messages are dealt to them in turn, whatever send() returns. -/
theorem messages_dealt {opened : List Nat} {env : Slot → Bool × Option Nat} {now : Int}
    {s₀ s t : Client} {before actions : List Action} (start : poolInit opened env now = some s₀)
    (reached : run (step z level) s₀ before = some s) (some_open : ring s.pool ≠ [])
    (h : run (step z level) s actions = some t) (steady : Steady (activity s.pool) actions) :
    (∀ i, connection t i = connection s i) ∧
      ∀ k, t.streams.getD k [] =
        s.streams.getD k [] ++ share (ring s.pool) (offered z level s k) (messages actions) :=
  run_dealt z level (reachable_settled z level start reached) some_open h steady

/-- Nine blocks and the end marker, with a visit of do_reconnect after seven; each send
on the first connection fails. -/
def firstDead : List Action :=
  .flushOne [0x80] ⟨none, 100, 100, [.error]⟩ ::
    List.replicate 6 (.flushOne [0x80] ⟨none, 500, 500, []⟩) ++
      [.reapStale 800, .flushOne [0x80] ⟨none, 810, 810, [.error]⟩,
        .flushOne [0x80] ⟨none, 820, 820, []⟩, .ctlEndIncremental true ⟨none, 830, 830, []⟩]

theorem messages_dealt_firstDead :
    ∃ s ∈ poolInit [0, 1, 2] sevenConnections 0, ∃ t ∈ run (step storedZstd 1) s firstDead,
      ∀ k, t.streams.getD k [] = s.streams.getD k [] ++
        share (ring s.pool) (offered storedZstd 1 s k) (messages firstDead) := by
  have runs : ∃ s ∈ poolInit [0, 1, 2] sevenConnections 0,
      ∃ t ∈ run (step storedZstd 1) s firstDead,
        ring s.pool ≠ [] ∧ Steady (activity s.pool) firstDead := by
    decide +kernel
  obtain ⟨s, start, t, h, some_open, steady⟩ := runs
  have reached : run (step storedZstd 1) s [] = some s := rfl
  exact ⟨s, start, t, h, (messages_dealt storedZstd 1 start reached some_open h steady).2⟩

theorem mem_share {k : Nat} {s : Client} {items : List Message} {a : Attempt UInt8}
    (member : a ∈ share (ring s.pool) (offered z level s k) items) :
    ∃ item ∈ items.zipIdx, (server (ring s.pool) item.2).bind (connection s) = some k ∧
      ∃ cap, attempt z level cap item.1.net.script item.1.out = some a := by
  obtain ⟨item, inside, served⟩ := List.mem_filterMap.mp member
  obtain ⟨i, dealt, tried⟩ := Option.bind_eq_some_iff.mp served
  simp only [offered] at tried
  split at tried
  next conn => exact ⟨item, inside, by simp [dealt, conn], _, tried⟩
  · cases tried

/-- A connection on which every send() fails takes nothing and is kept all the same, and
at least every so manieth message is given to it and to no other. -/
theorem dead_connection_kept {opened : List Nat} {env : Slot → Bool × Option Nat} {now : Int}
    {s₀ s t : Client} {before actions : List Action} {i : Slot} {k : Nat}
    (start : poolInit opened env now = some s₀)
    (reached : run (step z level) s₀ before = some s) (conn : connection s i = some k)
    (h : run (step z level) s actions = some t) (steady : Steady (activity s.pool) actions)
    (dead : ∀ item ∈ (messages actions).zipIdx,
      (server (ring s.pool) item.2).bind (connection s) = some k → FailsAtOnce item.1.net.script) :
    connection t i = some k ∧ taken (t.streams.getD k []) = taken (s.streams.getD k []) ∧
      (messages actions).length / (ring s.pool).length ≤
        Nat.count (fun q => (server (ring s.pool) q).bind (connection s) = some k)
          (messages actions).length := by
  obtain ⟨fd, taken_slot, _⟩ := Option.bind_eq_some_iff.mp conn
  have member : i ∈ ring s.pool := mem_ring.mpr (by simp [taken_slot])
  obtain ⟨kept, streams⟩ := run_dealt z level (reachable_settled z level start reached)
    (List.ne_nil_of_mem member) h steady
  refine ⟨(kept i).trans conn, ?_, ?_⟩
  · have nothing : taken (share (ring s.pool) (offered z level s k) (messages actions)) = [] := by
      refine List.flatMap_eq_nil_iff.mpr fun a offered_here => ?_
      obtain ⟨item, inside, dealt, cap, tried⟩ := mem_share z level offered_here
      exact (attempt_accepted_eq_nil z level tried).mpr (dead item inside dealt)
    rw [streams k, taken, List.flatMap_append]
    simpa [taken] using nothing
  · exact le_count_server (p := fun j => j.bind (connection s) = some k) member conn _

/-- The first connection gets the first and the eighth block, and both are lost. -/
theorem dead_connection_kept_first :
    ∃ s ∈ poolInit [0, 1, 2] sevenConnections 0, ∃ t ∈ run (step storedZstd 1) s firstDead,
      connection t s.pool.nextIndex = some 0 ∧
        taken (t.streams.getD 0 []) = taken (s.streams.getD 0 []) := by
  have runs : ∃ s ∈ poolInit [0, 1, 2] sevenConnections 0,
      ∃ t ∈ run (step storedZstd 1) s firstDead,
        connection s s.pool.nextIndex = some 0 ∧ Steady (activity s.pool) firstDead ∧
          ∀ item ∈ (messages firstDead).zipIdx,
            (server (ring s.pool) item.2).bind (connection s) = some 0 →
              FailsAtOnce item.1.net.script := by
    decide +kernel
  obtain ⟨s, start, t, h, conn, steady, dead⟩ := runs
  have reached : run (step storedZstd 1) s [] = some s := rfl
  obtain ⟨kept, lost, _⟩ := dead_connection_kept storedZstd 1 start reached conn h steady dead
  exact ⟨s, start, t, h, kept, lost⟩

end Go2Cloud.PoolRing
