import Go2Cloud.Lib.Binary64
import Go2Cloud.Migration.InFlight

/-! The rate limit of flush_one (client/main.c). After each frame it sent flush_one compares the
time since the window began with the time its bytes should have taken, and sleeps for the
difference, but never for more than 200 ms; after 5 s it begins a new window. -/
namespace Go2Cloud.RateLimit
open Protocol Queue BlockWriter Migration Transition Binary64

structure Limiter where
  rateBytesSent : Nat
  rateWindowStart : Nat

-- bytes_per_ms before it is rounded to a double
def bytesPerMs (rateLimitMb : Int32) : ℚ := rateLimitMb.toInt * 1048576 / 1000

def sleepMs (rateLimitMb : Int32) (l : Limiter) (now : Nat) : Nat :=
  let expectedMs := quotient l.rateBytesSent (bytesPerMs rateLimitMb)
  let elapsedMs := now - l.rateWindowStart
  if elapsedMs < expectedMs then min (expectedMs - elapsedMs) 200 else 0

/-- The end of flush_one, with the time it sleeps. A new window begins before the sleep. -/
def rateControl (rateLimitMb : Int32) (l : Limiter) (payloadLen now : Nat) : Limiter × Nat :=
  if 0 < rateLimitMb then
    let counted : Limiter :=
      ⟨(l.rateBytesSent + payloadLen) % 2 ^ 64,
        if l.rateWindowStart = 0 then now else l.rateWindowStart⟩
    (if 5000 < now - counted.rateWindowStart then ⟨0, now⟩ else counted,
      sleepMs rateLimitMb counted now)
  else (l, 0)

/-- The client of migrate_ctx_t, and the earliest value timer_now_ms can have next. -/
structure Paced where
  base : Sys
  limiter : Limiter
  clock : Nat

structure Action where
  act : Migration.Action
  now : Nat

def flushed (s : Sys) : Migration.Action → Option QueueEntry
  | .flushOne (.sentOn _) =>
    match queuePop s.queue with
    | some (e, _) => if e.payload.isSome then some e else none
    | none => none
  | _ => none

def step (cfg : Config) (rateLimitMb : Int32) (s : Paced) (a : Action) : Option Paced :=
  if s.clock ≤ a.now then
    (Migration.step cfg s.base a.act).map fun base =>
      match flushed s.base a.act with
      | some e =>
        let r := rateControl rateLimitMb s.limiter e.payloadLen a.now
        ⟨base, r.1, a.now + r.2⟩
      | none => ⟨base, s.limiter, a.now⟩
  else none

def start (db : Tracker.BlockTable) (w : Writer) (t : Nat) : Paced := ⟨resumed db w, ⟨0, 0⟩, t⟩

-- msgpack adds at most 23 bytes to a block
def maxPayload : Nat := blockSize + 23

/-- The limit in bytes per second, or five frames per second if that is more. -/
def ceiling (rateLimitMb : Int32) : Nat :=
  max (rateLimitMb.toInt.toNat * 1048576) (5 * maxPayload)

def payloadLength : Body → Nat
  | .data payload => payload.length
  | .control _ => 0

def isData : Body → Bool
  | .data _ => true
  | .control _ => false

def dataBytes (s : Sys) : Nat := (s.sent.map fun f => payloadLength f.body).sum

def dataFrames (s : Sys) : Nat := s.sent.countP fun f => isData f.body

theorem dataBytes_sendFrame (s : Sys) (c : Conn) (body : Body) :
    dataBytes (sendFrame s c body) = dataBytes s + payloadLength body := by
  simp [dataBytes, sendFrame]

theorem dataFrames_sendFrame (s : Sys) (c : Conn) (body : Body) :
    dataFrames (sendFrame s c body) = dataFrames s + (if isData body then 1 else 0) := by
  simp [dataFrames, sendFrame]

section Frames
variable {cfg : Config} {s s' : Sys} {a : Migration.Action}

theorem step_unflushed (st : Migration.Step cfg s a s') (unflushed : flushed s a = none) :
    dataBytes s' = dataBytes s ∧ dataFrames s' = dataFrames s := by
  cases st with
  | flushed pop bytes => simp [flushed, pop, bytes] at unflushed
  | announced => exact ⟨dataBytes_sendFrame .., dataFrames_sendFrame ..⟩
  | ended first => exact ⟨dataBytes_sendFrame .., dataFrames_sendFrame ..⟩
  | _ => exact ⟨rfl, rfl⟩

theorem step_flushed (carries : Carries (fun _ => True) s) (next : Migration.step cfg s a = some s')
    {e : QueueEntry} (sent : flushed s a = some e) :
    dataBytes s' = dataBytes s + e.payloadLen ∧ dataFrames s' = dataFrames s + 1 ∧
      e.payloadLen ≤ maxPayload := by
  unfold flushed at sent
  split at sent
  next c =>
    split at sent
    next e' q pop =>
      split at sent
      next filled =>
        cases sent
        obtain ⟨payload, bytes⟩ := Option.isSome_iff_exists.mp filled
        obtain rfl : s' = sendFrame { s with queue := q } c (.data payload) := by
          simp only [Migration.step] at next
          split at next
          · cases next
          · simp only [Migration.flushOne, pop, bytes] at next
            exact (Option.some.inj next).symm
        have tail := (queuePop_entries pop).2
        obtain ⟨b, -, slot⟩ := carries.slots s.queue.tail payload (tail ▸ bytes)
        rw [tail, slot] at bytes ⊢
        obtain rfl : Msgpack.blockBytes b.1 = payload := Option.some.inj bytes
        have total := Msgpack.blockBytes_length_le b.1
        have size := b.2
        refine ⟨dataBytes_sendFrame .., dataFrames_sendFrame .., ?_⟩
        simp only [entryOf, maxPayload]
        omega
      · cases sent
    · cases sent
  · cases sent

end Frames

section Window
variable {rateLimitMb : Int32} {t : Nat}

theorem bytesPerMs_eq (positive : 0 < rateLimitMb) :
    bytesPerMs rateLimitMb = (rateLimitMb.toInt.toNat * 1048576 : Nat) / 1000 := by
  have whole : (rateLimitMb.toInt.toNat : ℤ) = rateLimitMb.toInt :=
    Int.toNat_of_nonneg (Int32.lt_iff_toInt_lt.mp positive).le
  have cast : (rateLimitMb.toInt : ℚ) = (rateLimitMb.toInt.toNat : ℚ) := by
    rw [← Int.cast_natCast, whole]
  rw [bytesPerMs, cast]
  push_cast
  ring

theorem one_le_limit (positive : 0 < rateLimitMb) : 1 ≤ rateLimitMb.toInt.toNat := by
  have sign : 0 < rateLimitMb.toInt := Int32.lt_iff_toInt_lt.mp positive
  omega

theorem ceiling_lt (rateLimitMb : Int32) : ceiling rateLimitMb < 2 ^ 51 := by
  have range := Int32.toInt_lt rateLimitMb
  simp only [ceiling, maxPayload, blockSize]
  omega

theorem expectedMs_bound (positive : 0 < rateLimitMb) {bytes : Nat} (small : bytes ≤ 2 ^ 59) :
    1000 * bytes ≤
      rateLimitMb.toInt.toNat * 1048576 * (quotient bytes (bytesPerMs rateLimitMb) + 2) := by
  rcases Nat.eq_zero_or_pos bytes with zero | some_sent
  · omega
  have limit : (1 : ℚ) ≤ rateLimitMb.toInt.toNat := by exact_mod_cast one_le_limit positive
  have per_ms : (2 : ℚ) ^ 9 ≤ bytesPerMs rateLimitMb := by
    rw [bytesPerMs_eq positive]
    push_cast
    linarith
  have fits : (bytes : ℚ) ≤ bytesPerMs rateLimitMb * 2 ^ 50 := by
    have cast : (bytes : ℚ) ≤ 2 ^ 59 := by exact_mod_cast small
    linarith
  have bound := lt_mul_quotient (Nat.cast_pos.mpr some_sent) (by linarith) fits
  generalize quotient bytes (bytesPerMs rateLimitMb) = q at bound ⊢
  rw [bytesPerMs_eq positive] at bound
  have scaled : (1000 * bytes : ℚ) < (rateLimitMb.toInt.toNat * 1048576 : Nat) * (q + 2) := by
    linarith
  exact_mod_cast scaled.le

/-- When flush_one goes on, the bytes of the window are within the limit, or it has slept for
200 ms. -/
theorem sleepMs_spec (positive : 0 < rateLimitMb) {l : Limiter} (small : l.rateBytesSent ≤ 2 ^ 59)
    {now : Nat} (past : l.rateWindowStart ≤ now) :
    1000 * l.rateBytesSent ≤ rateLimitMb.toInt.toNat * 1048576 *
        (now + sleepMs rateLimitMb l now - l.rateWindowStart + 2) ∨
      sleepMs rateLimitMb l now = 200 := by
  have bound := expectedMs_bound positive small
  unfold sleepMs
  generalize quotient l.rateBytesSent (bytesPerMs rateLimitMb) = expected at bound ⊢
  rcases Nat.lt_or_ge 200 (expected - (now - l.rateWindowStart)) with capped | caught
  · right
    rw [if_pos (by omega)]
    omega
  · left
    refine bound.trans (Nat.mul_le_mul_left _ ?_)
    dsimp only
    split <;> omega

theorem sleepMs_le (rateLimitMb : Int32) (l : Limiter) (now : Nat) :
    sleepMs rateLimitMb l now ≤ 200 := by
  simp only [sleepMs]
  split <;> omega

structure Within (rateLimitMb : Int32) (t : Nat) (l : Limiter) (clock closed windows : Nat) :
    Prop where
  begun : t ≤ l.rateWindowStart
  past : l.rateWindowStart ≤ clock
  spaced : 5001 * windows ≤ l.rateWindowStart - t
  earlier : 1000 * closed ≤
    ceiling rateLimitMb * (l.rateWindowStart - t + 2 * windows) + 1000 * maxPayload * windows
  current : 1000 * l.rateBytesSent ≤ ceiling rateLimitMb * (clock - l.rateWindowStart + 2)
  short : 1000 * l.rateBytesSent ≤ ceiling rateLimitMb * 5202

variable {l : Limiter} {clock closed windows now : Nat}

theorem Within.later (h : Within rateLimitMb t l clock closed windows) (le : clock ≤ now) :
    Within rateLimitMb t l now closed windows where
  begun := h.begun
  past := h.past.trans le
  spaced := h.spaced
  earlier := h.earlier
  current := h.current.trans (Nat.mul_le_mul_left _ (by omega))
  short := h.short

theorem Within.opens (clock : t ≤ now) : Within rateLimitMb t ⟨0, now⟩ now 0 0 where
  begun := clock
  past := le_rfl
  spaced := Nat.zero_le _
  earlier := Nat.zero_le _
  current := Nat.zero_le _
  short := Nat.zero_le _

theorem Within.counts (h : Within rateLimitMb t l now closed windows) (positive : 0 < rateLimitMb)
    {len : Nat} (size : len ≤ maxPayload) (same : now - l.rateWindowStart ≤ 5000) :
    Within rateLimitMb t ⟨l.rateBytesSent + len, l.rateWindowStart⟩
      (now + sleepMs rateLimitMb ⟨l.rateBytesSent + len, l.rateWindowStart⟩ now) closed windows := by
  have past := h.past
  have before := h.current
  have capped := sleepMs_le rateLimitMb ⟨l.rateBytesSent + len, l.rateWindowStart⟩ now
  have frame : 1000 * maxPayload ≤ ceiling rateLimitMb * 200 := by
    have five : 5 * maxPayload ≤ ceiling rateLimitMb := le_max_right _ _
    omega
  have small : l.rateBytesSent + len ≤ 2 ^ 59 := by
    have bytes := h.short
    have range := ceiling_lt rateLimitMb
    simp only [maxPayload, blockSize] at size
    omega
  have current : 1000 * (l.rateBytesSent + len) ≤ ceiling rateLimitMb *
      (now + sleepMs rateLimitMb ⟨l.rateBytesSent + len, l.rateWindowStart⟩ now -
        l.rateWindowStart + 2) := by
    rcases sleepMs_spec (l := ⟨l.rateBytesSent + len, l.rateWindowStart⟩) positive small past with
      within | slept
    · exact within.trans (Nat.mul_le_mul_right _ (le_max_left _ _))
    · have later : now + 200 - l.rateWindowStart + 2 = (now - l.rateWindowStart + 2) + 200 := by omega
      rw [slept, later, Nat.mul_add (ceiling rateLimitMb)]
      omega
  exact {
    begun := h.begun
    past := past.trans (Nat.le_add_right _ _)
    spaced := h.spaced
    earlier := h.earlier
    current := current
    short := current.trans (Nat.mul_le_mul_left _ (by omega)) }

theorem Within.closes (h : Within rateLimitMb t l now closed windows)
    {len : Nat} (size : len ≤ maxPayload) (late : 5000 < now - l.rateWindowStart) (sleep : Nat) :
    Within rateLimitMb t ⟨0, now⟩ (now + sleep) (closed + (l.rateBytesSent + len)) (windows + 1) where
  begun := h.begun.trans h.past
  past := Nat.le_add_right _ _
  spaced := by
    have begun := h.begun
    have spaced := h.spaced
    dsimp only
    omega
  earlier := by
    have begun := h.begun
    have past := h.past
    have earlier := h.earlier
    have current := h.current
    have split : now - t + 2 * (windows + 1) =
        (l.rateWindowStart - t + 2 * windows) + (now - l.rateWindowStart + 2) := by omega
    dsimp only
    rw [split, Nat.mul_add (ceiling rateLimitMb), Nat.mul_add (1000 * maxPayload)]
    omega
  current := Nat.zero_le _
  short := Nat.zero_le _

def Limited (rateLimitMb : Int32) (t : Nat) (s : Paced) : Prop :=
  (s.limiter = ⟨0, 0⟩ ∧ dataBytes s.base = 0 ∧ t ≤ s.clock) ∨
    ∃ closed windows, Within rateLimitMb t s.limiter s.clock closed windows ∧
      dataBytes s.base = closed + s.limiter.rateBytesSent

theorem Limited.bound {s : Paced} (h : Limited rateLimitMb t s) :
    1000 * dataBytes s.base ≤
      ceiling rateLimitMb * (s.clock - t + 2 * ((s.clock - t) / 5001 + 1)) +
        1000 * maxPayload * ((s.clock - t) / 5001) := by
  rcases h with ⟨-, none_sent, -⟩ | ⟨closed, windows, within, total⟩
  · omega
  · have past := within.past
    have begun := within.begun
    have spaced := within.spaced
    have count : windows ≤ (s.clock - t) / 5001 := by omega
    have sum : ceiling rateLimitMb * (s.limiter.rateWindowStart - t + 2 * windows) +
        ceiling rateLimitMb * (s.clock - s.limiter.rateWindowStart + 2) ≤
        ceiling rateLimitMb * (s.clock - t + 2 * ((s.clock - t) / 5001 + 1)) := by
      rw [← Nat.mul_add]
      exact Nat.mul_le_mul_left _ (by omega)
    have payloads : 1000 * maxPayload * windows ≤ 1000 * maxPayload * ((s.clock - t) / 5001) :=
      Nat.mul_le_mul_left _ count
    have earlier := within.earlier
    have current := within.current
    omega

theorem Limited.opened {s : Paced} (h : Limited rateLimitMb t s) (clock : 0 < t)
    (le : s.clock ≤ now) :
    ∃ closed windows,
      Within rateLimitMb t
        ⟨s.limiter.rateBytesSent,
          if s.limiter.rateWindowStart = 0 then now else s.limiter.rateWindowStart⟩
        now closed windows ∧
      dataBytes s.base = closed + s.limiter.rateBytesSent := by
  rcases h with ⟨fresh, none_sent, begun⟩ | ⟨closed, windows, within, total⟩
  · rw [fresh, none_sent]
    refine ⟨0, 0, ?_, rfl⟩
    exact Within.opens (begun.trans le)
  · refine ⟨closed, windows, ?_, total⟩
    have begun := within.begun
    rw [if_neg (by omega)]
    exact within.later le

theorem Within.no_wrap (h : Within rateLimitMb t l clock closed windows) {len : Nat}
    (size : len ≤ maxPayload) : (l.rateBytesSent + len) % 2 ^ 64 = l.rateBytesSent + len := by
  have bytes := h.short
  have range := ceiling_lt rateLimitMb
  simp only [maxPayload, blockSize] at size
  exact Nat.mod_eq_of_lt (by omega)

end Window

section Runs
variable {cfg : Config} {rateLimitMb : Int32} {t : Nat} {s s' : Paced} {a : Action}

theorem step_cases (next : step cfg rateLimitMb s a = some s') :
    s.clock ≤ a.now ∧ Migration.step cfg s.base a.act = some s'.base ∧
      ((flushed s.base a.act = none ∧ s'.limiter = s.limiter ∧ s'.clock = a.now) ∨
        ∃ e, flushed s.base a.act = some e ∧
          s'.limiter = (rateControl rateLimitMb s.limiter e.payloadLen a.now).1 ∧
          s'.clock = a.now + (rateControl rateLimitMb s.limiter e.payloadLen a.now).2) := by
  unfold step at next
  split at next
  next le =>
    obtain ⟨base, moved, rfl⟩ := Option.map_eq_some_iff.mp next
    refine ⟨le, ?_⟩
    split
    next e sent => exact ⟨moved, .inr ⟨e, sent, rfl, rfl⟩⟩
    next unsent => exact ⟨moved, .inl ⟨unsent, rfl, rfl⟩⟩
  · cases next

theorem step_limited (positive : 0 < rateLimitMb) (clock : 0 < t)
    (carries : Carries (fun _ => True) s.base) (h : Limited rateLimitMb t s)
    (next : step cfg rateLimitMb s a = some s') : Limited rateLimitMb t s' := by
  obtain ⟨le, moved, ⟨unsent, limiter, time⟩ | ⟨e, sent, limiter, time⟩⟩ := step_cases next
  · have bytes := (step_unflushed (Migration.step_inv moved) unsent).1
    unfold Limited
    rw [limiter, time, bytes]
    exact h.imp (fun ⟨fresh, none_sent, begun⟩ => ⟨fresh, none_sent, begun.trans le⟩)
      fun ⟨closed, windows, within, total⟩ => ⟨closed, windows, within.later le, total⟩
  · obtain ⟨bytes, -, size⟩ := step_flushed carries moved sent
    obtain ⟨closed, windows, within, total⟩ := h.opened clock le
    have counted := within.no_wrap size
    right
    rw [limiter, time, bytes, total, rateControl, if_pos positive]
    dsimp only at counted ⊢
    rw [counted]
    generalize (if s.limiter.rateWindowStart = 0 then a.now else s.limiter.rateWindowStart) = begun
      at within ⊢
    split
    next late =>
      exact ⟨_, _, within.closes size late _, by rw [Nat.add_assoc, Nat.add_zero]⟩
    next same =>
      exact ⟨_, _, within.counts positive size (Nat.le_of_not_lt same), Nat.add_assoc ..⟩

theorem step_clock (carries : Carries (fun _ => True) s.base) (busy : a.now = s.clock)
    (next : step cfg rateLimitMb s a = some s') :
    s'.clock + 200 * dataFrames s.base ≤ s.clock + 200 * dataFrames s'.base := by
  obtain ⟨-, moved, ⟨unsent, -, time⟩ | ⟨e, sent, -, time⟩⟩ := step_cases next
  · have frames := (step_unflushed (Migration.step_inv moved) unsent).2
    omega
  · obtain ⟨-, frames, -⟩ := step_flushed carries moved sent
    have sleeps : (rateControl rateLimitMb s.limiter e.payloadLen a.now).2 ≤ 200 := by
      unfold rateControl
      split
      · exact sleepMs_le ..
      · omega
    omega

theorem step_carried (carries : Carries (fun _ => True) s.base)
    (next : step cfg rateLimitMb s a = some s') : Carries (fun _ => True) s'.base :=
  step_carries carries (fun _ _ _ => trivial) (Migration.step_inv (step_cases next).2.1)

end Runs

/-- Whatever the client does, what flush_one has sent stays below the limit, or below five frames
per second if that is more, up to one frame and 2 ms for each window. The limit never makes it
slower than five frames per second. -/
theorem rate_limited (cfg : Config) (rateLimitMb : Int32) (positive : 0 < rateLimitMb)
    (db : Tracker.BlockTable) (w : Writer) (t : Nat) (clock : 0 < t) (actions : List Action)
    (s : Paced) (h : run (step cfg rateLimitMb) (start db w t) actions = some s) :
    1000 * dataBytes s.base ≤
        ceiling rateLimitMb * (s.clock - t + 2 * ((s.clock - t) / 5001 + 1)) +
          1000 * maxPayload * ((s.clock - t) / 5001) ∧
      (Meets (step cfg rateLimitMb) (fun s a => a.now = s.clock) (start db w t) actions →
        s.clock - t ≤ 200 * dataFrames s.base) := by
  constructor
  · have limited := run_invariant
      (P := fun s => Carries (fun _ => True) s.base ∧ Limited rateLimitMb t s)
      (fun _ _ _ inv next =>
        ⟨step_carried inv.1 next, step_limited positive clock inv.1 inv.2 next⟩) h
        ⟨carries_resumed db w, .inl ⟨rfl, rfl, le_rfl⟩⟩
    exact limited.2.bound
  · intro busy
    have slept := run_invariant_of_meets
      (P := fun s => Carries (fun _ => True) s.base ∧ s.clock ≤ t + 200 * dataFrames s.base)
      (fun _ _ _ inv now next =>
        ⟨step_carried inv.1 next, by have paced := step_clock inv.1 now next; omega⟩) h busy
        ⟨carries_resumed db w, le_rfl⟩
    omega

theorem fourKib_fit : (List.replicate 4096 (7 : UInt8)).length ≤ blockSize := by
  rw [List.length_replicate]
  decide

/-- One block, read, queued and sent without delay. At 1 MB/s flush_one sleeps for 3 ms. -/
def oneFrame : List Action :=
  [⟨.sendBlock ⟨⟨0, 0, List.replicate 4096 7⟩, fourKib_fit⟩ 0, 10⟩, ⟨.push true 0, 10⟩,
    ⟨.flushOne (.sentOn 3), 10⟩]

-- the second block waits in the queue until the window is over
def twoFrames : List Action :=
  oneFrame ++
    [⟨.sendBlock ⟨⟨0, 4096, List.replicate 4096 7⟩, fourKib_fit⟩ 0, 13⟩, ⟨.push true 0, 13⟩,
      ⟨.flushOne (.sentOn 3), 5100⟩]

def paced (actions : List Action) : Option Paced :=
  run (step ⟨false, "10.0.0.1:3400"⟩ 1) (start Keyed.empty blankWriter 10) actions

theorem oneFrame_sleeps :
    (paced oneFrame).map (fun s => (dataFrames s.base, s.clock)) = some (1, 13) ∧
      Meets (step ⟨false, "10.0.0.1:3400"⟩ 1) (fun s a => a.now = s.clock)
        (start Keyed.empty blankWriter 10) oneFrame := by
  decide +kernel

theorem twoFrames_close :
    (paced twoFrames).map (fun s => (dataFrames s.base, s.clock, s.limiter.rateWindowStart)) =
      some (2, 5100, 5100) := by
  decide +kernel

theorem rate_limited_twoFrames :
    (∃ s, paced twoFrames = some s ∧ dataFrames s.base = 2 ∧ s.limiter.rateWindowStart = 5100 ∧
      1000 * dataBytes s.base ≤
        ceiling 1 * (s.clock - 10 + 2 * ((s.clock - 10) / 5001 + 1)) +
          1000 * maxPayload * ((s.clock - 10) / 5001)) ∧
      ∃ s, paced oneFrame = some s ∧ s.clock = 13 ∧ s.clock - 10 ≤ 200 * dataFrames s.base := by
  constructor
  · obtain ⟨s, runs, sent⟩ := Option.map_eq_some_iff.mp twoFrames_close
    simp only [Prod.mk.injEq] at sent
    exact ⟨s, runs, sent.1, sent.2.2,
      (rate_limited _ 1 (by decide) Keyed.empty blankWriter 10 (by decide) twoFrames s runs).1⟩
  · obtain ⟨s, runs, sent⟩ := Option.map_eq_some_iff.mp oneFrame_sleeps.1
    simp only [Prod.mk.injEq] at sent
    exact ⟨s, runs, sent.2,
      (rate_limited _ 1 (by decide) Keyed.empty blankWriter 10 (by decide) oneFrame s runs).2
        oneFrame_sleeps.2⟩

end Go2Cloud.RateLimit
