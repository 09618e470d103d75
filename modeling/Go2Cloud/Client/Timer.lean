import Go2Cloud.Lib.Transition
import Mathlib.Data.UInt

/-! The client's timers (client/timer.c) under the two timer loops of do_migrate.
Both loops do the same with them: read the clock, check, and while an event comes
back handle it, reset it at a new clock reading and check again at another. The
stamps are 64-bit words; `since` below says as an integer what a stamp stands for. -/
namespace Go2Cloud.Timer
open Transition

inductive Event where
  | retransmit
  | reconnect
  | action
  | incremental
  deriving DecidableEq, Repr

-- the order of timer_check
def events : List Event := [.retransmit, .reconnect, .action, .incremental]

def retransmitTimerMs : UInt64 := 18000
def reconnectTimerMs : UInt64 := 20000
def actionTimerMs : UInt64 := 10000

structure TimerMgr where
  lastFire : Event → UInt64
  interval : Event → UInt64

def timerInit (now : UInt64) : TimerMgr where
  interval
    | .retransmit => retransmitTimerMs
    | .reconnect => reconnectTimerMs
    | .action => actionTimerMs
    | .incremental => retransmitTimerMs
  lastFire
    | .retransmit => now
    | .reconnect => now
    | .action => now + 5000 - actionTimerMs
    | .incremental => now

def timerCheck (tm : TimerMgr) (now : UInt64) : Option Event :=
  events.find? fun e => decide (now - tm.lastFire e ≥ tm.interval e)

def timerReset (tm : TimerMgr) (e : Event) (now : UInt64) : TimerMgr :=
  { tm with lastFire := fun e' => if e' = e then now else tm.lastFire e' }

/-- A timer loop between two clock readings: `pending` is the event that was
returned and is not reset yet, `last` the latest reading. -/
structure State where
  timer : TimerMgr
  pending : Option Event
  last : UInt64

def start (now : UInt64) : State := ⟨timerInit now, none, now⟩

/-- Clock readings of the loops: one for a check, one for a reset. Leaving a loop
after TIMER_NONE or after allDone and entering it again is a check that follows. -/
inductive Action where
  | check (now : UInt64)
  | reset (now : UInt64)

def step (s : State) : Action → Option State
  -- the clock does not go back
  | .check now =>
    if s.pending = none ∧ s.last ≤ now then
      some { s with pending := timerCheck s.timer now, last := now }
    else none
  | .reset now =>
    match s.pending with
    | some e =>
      if s.last ≤ now then some ⟨timerReset s.timer e now, none, now⟩ else none
    | none => none

inductive Seen where
  | fired (e : Event) (now : Nat)
  | reset (e : Event) (now : Nat)
  deriving DecidableEq

def observe (s : State) : Action → List Seen
  | .check now => ((timerCheck s.timer now).map fun e => Seen.fired e now.toNat).toList
  | .reset now => (s.pending.map fun e => Seen.reset e now.toNat).toList

def history (now : UInt64) (as : List Action) : List Seen := trace step observe (start now) as

def firstDelay : Event → Nat
  | .retransmit => 18000
  | .reconnect => 20000
  | .action => 5000
  | .incremental => 18000

def intervalMs : Event → Nat
  | .retransmit => 18000
  | .reconnect => 20000
  | .action => 10000
  | .incremental => 18000

def resetAt (e : Event) : Seen → Option Nat
  | .reset e' now => if e' = e then some now else none
  | .fired _ _ => none

def since (init : UInt64) (seen : List Seen) (e : Event) : Int :=
  match (seen.filterMap (resetAt e)).getLast? with
  | some now => now
  | none => (init.toNat : Int) + firstDelay e - intervalMs e

def Overdue (init : UInt64) (seen : List Seen) (e : Event) (now : UInt64) : Prop :=
  since init seen e + intervalMs e ≤ now.toNat

def Stands (stamp : UInt64) (time : Int) : Prop := (stamp.toNat : Int) = time % 2 ^ 64

theorem stands_self (now : UInt64) : Stands now now.toNat := by
  have small := now.toNat_lt
  unfold Stands
  omega

/-- The wrapped difference never exceeds the elapsed time, and is the elapsed time
while that fits a word. -/
theorem elapsed {stamp : UInt64} {time : Int} (stands : Stands stamp time) (now : UInt64)
    (past : time ≤ now.toNat) :
    ((now - stamp).toNat : Int) ≤ now.toNat - time ∧
      (now.toNat - time < 2 ^ 64 → ((now - stamp).toNat : Int) = now.toNat - time) := by
  have small := now.toNat_lt
  have stamp_small := stamp.toNat_lt
  unfold Stands at stands
  rw [UInt64.toNat_sub]
  omega

theorem timerInit_interval (now : UInt64) (e : Event) :
    ((timerInit now).interval e).toNat = intervalMs e := by
  cases e <;> rfl

theorem timerInit_stands (now : UInt64) (e : Event) :
    Stands ((timerInit now).lastFire e) (now.toNat + firstDelay e - intervalMs e) := by
  have small := now.toNat_lt
  cases e with
  | action =>
    simp only [Stands, timerInit, actionTimerMs, firstDelay, intervalMs, UInt64.toNat_sub,
      UInt64.toNat_add, UInt64.reduceToNat]
    omega
  | retransmit | reconnect | incremental =>
    simp only [Stands, timerInit, firstDelay, intervalMs]
    omega

theorem timerCheck_some {tm : TimerMgr} {now : UInt64} {e : Event}
    (h : timerCheck tm now = some e) :
    (tm.interval e).toNat ≤ (now - tm.lastFire e).toNat := by
  have found := List.find?_some h
  exact UInt64.le_iff_toNat_le.mp (of_decide_eq_true found)

theorem timerCheck_none {tm : TimerMgr} {now : UInt64} (h : timerCheck tm now = none) (e : Event) :
    (now - tm.lastFire e).toNat < (tm.interval e).toNat := by
  have member : e ∈ events := by cases e <;> decide
  have early := List.find?_eq_none.mp h e member
  rw [decide_eq_true_eq, ge_iff_le, UInt64.le_iff_toNat_le] at early
  omega

theorem since_fired (init : UInt64) (seen : List Seen) (e e' : Event) (now : Nat) :
    since init (seen ++ [.fired e' now]) e = since init seen e := by
  simp [since, resetAt]

theorem since_reset (init : UInt64) (seen : List Seen) (e e' : Event) (now : Nat) :
    since init (seen ++ [.reset e' now]) e = if e' = e then (now : Int) else since init seen e := by
  by_cases same : e' = e
  · simp [since, resetAt, same]
  · simp [since, resetAt, same]

def firing : Seen → Option (Event × Nat)
  | .fired e now => some (e, now)
  | .reset _ _ => none

def firings (seen : List Seen) : List (Event × Nat) := seen.filterMap firing

def Spaced (a b : Event × Nat) : Prop := a.1 = b.1 → a.2 + intervalMs a.1 ≤ b.2

structure OnTime (init : UInt64) (seen : List Seen) (s : State) : Prop where
  interval : ∀ e, (s.timer.interval e).toNat = intervalMs e
  stamps : ∀ e, Stands (s.timer.lastFire e) (since init seen e)
  past : ∀ e, since init seen e ≤ s.last.toNat
  floor : ∀ e, (init.toNat : Int) + firstDelay e - intervalMs e ≤ since init seen e
  fired : ∀ f ∈ firings seen, f.2 ≤ s.last.toNat
  renewed : ∀ f ∈ firings seen, s.pending ≠ some f.1 → (f.2 : Int) ≤ since init seen f.1
  spaced : (firings seen).Pairwise Spaced
  first : ∀ f ∈ firings seen, init.toNat + firstDelay f.1 ≤ f.2

theorem start_onTime (now : UInt64) : OnTime now [] (start now) where
  interval := timerInit_interval now
  stamps := timerInit_stands now
  past e := by cases e <;> simp [since, start, firstDelay, intervalMs]
  floor e := le_rfl
  fired := by simp [firings]
  renewed := by simp [firings]
  spaced := by simp [firings]
  first := by simp [firings]

theorem OnTime.due {init : UInt64} {seen : List Seen} {s : State} (h : OnTime init seen s)
    {now : UInt64} (later : s.last ≤ now) {e : Event} (found : timerCheck s.timer now = some e) :
    since init seen e + intervalMs e ≤ now.toNat := by
  have after := UInt64.le_iff_toNat_le.mp later
  have past := h.past e
  have reached := timerCheck_some found
  rw [h.interval e] at reached
  have most := (elapsed (h.stamps e) now (by omega)).1
  omega

theorem OnTime.check {init : UInt64} {seen : List Seen} {s : State} (h : OnTime init seen s)
    {now : UInt64} (idle : s.pending = none) (later : s.last ≤ now) :
    OnTime init (seen ++ observe s (.check now))
      { s with pending := timerCheck s.timer now, last := now } := by
  have after := UInt64.le_iff_toNat_le.mp later
  have past e := (h.past e).trans (Int.ofNat_le.mpr after)
  have fired f (hf : f ∈ firings seen) := (h.fired f hf).trans after
  have renewed f (hf : f ∈ firings seen) := h.renewed f hf (by rw [idle]; simp)
  cases found : timerCheck s.timer now with
  | none =>
    simp only [observe, found, Option.map_none, Option.toList_none, List.append_nil]
    exact ⟨h.interval, h.stamps, past, h.floor, fired, fun f hf _ => renewed f hf, h.spaced,
      h.first⟩
  | some e =>
    have due := h.due later found
    have floor := h.floor e
    have added : firings (seen ++ [.fired e now.toNat]) = firings seen ++ [(e, now.toNat)] := by
      simp [firings, firing]
    simp only [observe, found, Option.map_some, Option.toList_some]
    refine ⟨h.interval, ?_, ?_, ?_, ?_, ?_, ?_, ?_⟩
    · simpa only [since_fired] using h.stamps
    · simpa only [since_fired] using past
    · simpa only [since_fired] using h.floor
    · rw [added]
      intro f hf
      rcases List.mem_append.mp hf with old | new
      · exact fired f old
      · simp only [List.mem_singleton.mp new, le_refl]
    · rw [added]
      intro f hf unasked
      rw [since_fired]
      rcases List.mem_append.mp hf with old | new
      · exact renewed f old
      · exact absurd (by rw [List.mem_singleton.mp new]) unasked
    · rw [added]
      refine List.pairwise_append.mpr ⟨h.spaced, List.pairwise_singleton _ _, ?_⟩
      intro f hf g hg same
      obtain rfl := List.mem_singleton.mp hg
      have before := renewed f hf
      rw [same] at before ⊢
      simp only at before ⊢
      omega
    · rw [added]
      intro f hf
      rcases List.mem_append.mp hf with old | new
      · exact h.first f old
      · rw [List.mem_singleton.mp new]
        simp only
        omega

theorem OnTime.reset {init : UInt64} {seen : List Seen} {s : State} (h : OnTime init seen s)
    {now : UInt64} {e : Event} (asked : s.pending = some e) (later : s.last ≤ now) :
    OnTime init (seen ++ observe s (.reset now)) ⟨timerReset s.timer e now, none, now⟩ := by
  have after := UInt64.le_iff_toNat_le.mp later
  have kept : firings (seen ++ [.reset e now.toNat]) = firings seen := by simp [firings, firing]
  simp only [observe, asked, Option.map_some, Option.toList_some]
  refine ⟨h.interval, fun e' => ?_, fun e' => ?_, fun e' => ?_, ?_, ?_, ?_, ?_⟩
  · rw [since_reset]
    by_cases same : e' = e
    · subst same
      simpa [timerReset] using stands_self now
    · simpa [timerReset, same, Ne.symm same] using h.stamps e'
  · have past := h.past e'
    simp only [since_reset]
    split <;> omega
  · have floor := h.floor e'
    have past := h.past e'
    rw [since_reset]
    split <;> omega
  · rw [kept]
    exact fun f hf => (h.fired f hf).trans after
  · rw [kept]
    intro f hf _
    rw [since_reset]
    split
    next same =>
      have before := h.fired f hf
      omega
    next other => exact h.renewed f hf (by rw [asked]; simpa using other)
  · rw [kept]
    exact h.spaced
  · rw [kept]
    exact h.first

theorem OnTime.step {init : UInt64} {seen : List Seen} {s s' : State} (h : OnTime init seen s)
    {a : Action} (next : step s a = some s') : OnTime init (seen ++ observe s a) s' := by
  cases a with
  | check now =>
    simp only [Timer.step] at next
    split at next
    next enabled =>
      obtain rfl := Option.some.inj next
      exact h.check enabled.1 enabled.2
    next => cases next
  | reset now =>
    simp only [Timer.step] at next
    cases asked : s.pending with
    | none =>
      rw [asked] at next
      cases next
    | some e =>
      simp only [asked] at next
      split at next
      next later =>
        obtain rfl := Option.some.inj next
        exact h.reset asked later
      next => cases next

theorem run_onTime {now : UInt64} {as : List Action} {s : State}
    (h : run step (start now) as = some s) : OnTime now (history now as) s := by
  have always : Meets Timer.step (fun _ _ => True) (start now) as :=
    meets_of_forall _ fun _ _ _ => trivial
  have onTime : OnTime now ([] ++ trace Timer.step observe (start now) as) s :=
    run_invariant_trace (fun _ _ _ _ kept _ next => kept.step next) h always (start_onTime now)
  rw [List.nil_append] at onTime
  exact onTime

/-- Over every run of the timer loops: firings of one event are an interval apart,
none comes early, and while the clock is less than `2^64 - 5000` ms past
timer_init, a check that returns TIMER_NONE leaves nothing overdue. -/
theorem timers_on_schedule (init : UInt64) (as : List Action) (s : State)
    (h : run step (start init) as = some s) :
    (firings (history init as)).Pairwise Spaced ∧
      (∀ f ∈ firings (history init as), init.toNat + firstDelay f.1 ≤ f.2) ∧
      ∀ now : UInt64, s.pending = none → s.last ≤ now → timerCheck s.timer now = none →
        now.toNat + 5000 < init.toNat + 2 ^ 64 →
        ∀ e, ¬ Overdue init (history init as) e now := by
  have onTime := run_onTime h
  refine ⟨onTime.spaced, onTime.first, fun now _ later quiet below e overdue => ?_⟩
  have after := UInt64.le_iff_toNat_le.mp later
  have past := onTime.past e
  have floor := onTime.floor e
  have delays : intervalMs e ≤ firstDelay e + 5000 := by cases e <;> decide
  have early := timerCheck_none quiet e
  rw [onTime.interval e] at early
  have exact_time := (elapsed (onTime.stamps e) now (by omega)).2 (by omega)
  unfold Overdue at overdue
  omega

theorem timers_on_schedule_small_uptime :
    ∃ s, run step (start 100) [.check 6000, .reset 6001, .check 6002] = some s ∧
      firings (history 100 [.check 6000, .reset 6001, .check 6002]) = [(.action, 6000)] ∧
      ¬ Overdue 100 (history 100 [.check 6000, .reset 6001, .check 6002]) .action 16000 := by
  obtain ⟨s, ran, idle, last, quiet⟩ : ∃ s, run step (start 100)
      [.check 6000, .reset 6001, .check 6002] = some s ∧ s.pending = none ∧ s.last = 6002 ∧
        timerCheck s.timer 16000 = none := ⟨_, rfl, rfl, rfl, rfl⟩
  refine ⟨s, ran, rfl, ?_⟩
  exact (timers_on_schedule 100 _ s ran).2.2 16000 idle (by rw [last]; decide) quiet (by decide)
    .action

def lastTick : UInt64 := 18446744073709551615

def wrapReadings : List Action :=
  [.check lastTick, .reset lastTick, .check lastTick, .reset lastTick, .check lastTick,
    .reset lastTick, .check lastTick]

/-- timer_init at uptime 0 and the next check at the last tick: the stamp of the
action event has come round, and the loop stops without firing it. -/
theorem action_missed_at_wrap :
    ∃ s, run step (start 0) wrapReadings = some s ∧ s.pending = none ∧
      timerCheck s.timer lastTick = none ∧ Overdue 0 (history 0 wrapReadings) .action lastTick :=
  ⟨_, rfl, rfl, rfl, by unfold Overdue; decide⟩

end Go2Cloud.Timer
