import Go2Cloud.Migration.Finishing
import Go2Cloud.Migration.Incsync
import Mathlib.Data.List.Induction

/-! The cooldown of the incremental rounds (client/main.c) over the whole life of a
tracker: migrations with and without TailSend, incsync runs, restarts and reboots of the
host. Time is real time in milliseconds; timer_now_ms gives the time since the last boot,
and that is what last_sent holds. A block is transmitted when flush_one gets an entry of it
out, which may be long after the entry was queued, or never. -/
namespace Go2Cloud.Cooldown
open Protocol Reader Tracker Round Transition Keyed
open TailLoop (sentHash sendBlock examineDb)
open Finishing (byteRead sentRow)

inductive Mode where
  | full
  | tail
  | incsync
  deriving DecidableEq, Repr

/-- The running process and the host it runs on. `tail` holds the tracker, `queue` the
blocks of the waiting entries, oldest first, and `pushing` the block a push loop has
queued and not yet recorded. -/
structure State where
  tail : TailLoop.State
  remoteId : String
  mode : Mode
  queue : List Key
  pushing : Option Key
  time : Int
  boot : Int

def State.uptime (s : State) : Int := s.time - s.boot

def start (remoteId : String) (mode : Mode) (up : Nat) : State :=
  ⟨TailLoop.start Keyed.empty, remoteId, mode, [], none, up, 0⟩

/-- `push` is a queue_push that accepts its entry; a push loop may have several accepted,
and flush some, before it ends and the row is written. `flush` is a flush_one, with
whether a connection was found and wire_send succeeded. `scan` is a block cmd_incsync
has read, `now` the time at which its scan began. -/
inductive Action where
  | tail (a : TailLoop.Action)
  | fullSend (k : Key) (read : Option ReadData) (pushed : Bool)
  | scan (version now : Int) (b : Block) (pushed : Bool)
  | ack (k : Key)
  | push (k : Key)
  | flush (sent : Bool)
  | tick (ms : Nat)
  | restart (remoteId : String) (mode : Mode)
  | reboot (remoteId : String) (mode : Mode)

def OnClock (s : State) : TailLoop.Action → Prop
  -- the clock readings among the arguments of a step
  | .beginRound _ now => now = s.uptime
  | .examine _ _ _ later => later = s.uptime
  | _ => True

instance (s : State) : (a : TailLoop.Action) → Decidable (OnClock s a)
  | .beginRound _ now => inferInstanceAs (Decidable (now = s.uptime))
  | .examine _ _ _ later => inferInstanceAs (Decidable (later = s.uptime))
  | .send _ _ _ _ | .startLoop _ | .endRound _ => .isTrue trivial

def fullSent (db : BlockTable) (k : Key) (read : Option ReadData) (pushed : Bool) :
    Option ReadData :=
  -- what send_block records without TailSend: there is no comparison of hashes
  match read with
  | none => none
  | some data =>
    if data.1 = [] then none
    else if sqliteBlockAcked db k = some true then none
    else if pushed then some data
    else none

def fullSend (remoteId : String) (db : BlockTable) (k : Key) (read : Option ReadData)
    (pushed : Bool) : BlockTable :=
  match fullSent db k read pushed with
  | none => db
  | some data =>
    sqliteBlockUpsertV db remoteId k (Int32.ofInt data.1.length) (blockHash k.2 data.1) false 0

/-- What happens to a block: an entry of it goes out; its row is written with last_sent 0;
its row gets the uptime as last_sent. A stamp comes with the boot it counts from. -/
inductive Event where
  | transmitted (k : Key) (time : Int)
  | recorded (k : Key)
  | stamped (k : Key) (time boot : Int)

def examineEvents (s : State) (p : Progress) (row : Row) (queueCount : Nat)
    (live : Option ReadData) (pushed : Bool) : List Event :=
  match examineRow p.now queueCount row live with
  | .unchanged => [.stamped row.key (s.boot + p.now) s.boot]
  | .changed _ =>
    .stamped row.key (s.boot + p.now) s.boot ::
      if pushed then [.recorded row.key, .stamped row.key s.time s.boot] else []
  | _ => []

def scanEvents (s : State) (now : Int) (b : Block) (pushed : Bool) : List Event :=
  if sqliteBlockLookup s.tail.db b.key = some (History.hashOf b) then
    [.stamped b.key (s.boot + now) s.boot]
  else if pushed then [.recorded b.key]
  else []

def observe (s : State) : Action → List Event
  | .tail (.send _ k read pushed) =>
    if (sentHash s.tail.db k read pushed).isSome then [.recorded k] else []
  | .tail (.examine queueCount live pushed _) =>
    match s.tail.phase with
    | .round p =>
      match p.batch with
      | [] => []
      | row :: _ => examineEvents s p row queueCount live pushed
    | _ => []
  | .fullSend k read pushed =>
    if (fullSent s.tail.db k read pushed).isSome then [.recorded k] else []
  | .scan _ now b pushed => scanEvents s now b pushed
  | .flush true => s.queue.head?.toList.map fun k => .transmitted k s.time
  | _ => []

def Event.records : Event → Option Key
  | .recorded k => some k
  | _ => none

def Pushed (s : State) (a : Action) : Prop :=
  -- a row is written only after an entry of its block was queued
  ∀ k ∈ (observe s a).filterMap Event.records, s.pushing = some k

instance (s : State) (a : Action) : Decidable (Pushed s a) :=
  List.decidableBAll (fun k => s.pushing = some k) _

def State.withDb (s : State) (db : BlockTable) : State :=
  { s with tail := { s.tail with db := db }, pushing := none }

def step (s : State) (a : Action) : Option State :=
  if Pushed s a then
    match a with
    | .tail a =>
      if s.mode = .tail ∧ OnClock s a then
        (TailLoop.step s.remoteId s.tail a).map fun tail => { s with tail := tail, pushing := none }
      else none
    | .fullSend k read pushed =>
      if s.mode = .full then some (s.withDb (fullSend s.remoteId s.tail.db k read pushed)) else none
    | .scan version now b pushed =>
      if s.mode = .incsync then
        some (s.withDb (Incsync.syncBlock s.remoteId version now ⟨s.tail.db, []⟩ b pushed).db)
      else none
    -- process_ack leaves the tracker alone in TailSend mode
    | .ack k =>
      if s.mode = .tail then none
      else some { s with tail := { s.tail with db := sqliteBlockMarkAcked s.tail.db k } }
    | .push k => some { s with queue := s.queue ++ [k], pushing := some k }
    | .flush _ => some { s with queue := s.queue.tail }
    | .tick ms => some { s with time := s.time + ms }
    | .restart remoteId mode =>
      some ⟨TailLoop.start s.tail.db, remoteId, mode, [], none, s.time, s.boot⟩
    | .reboot remoteId mode =>
      some ⟨TailLoop.start s.tail.db, remoteId, mode, [], none, s.time, s.time⟩
  else none

structure Record where
  sent : Option Int
  stamp : Option (Int × Int)
  deriving DecidableEq

def note (k : Key) (r : Record) : Event → Record
  | .transmitted k' time => if k' = k then { r with sent := some time } else r
  | .recorded k' => if k' = k then { r with stamp := none } else r
  | .stamped k' time boot => if k' = k then { r with stamp := some (time, boot) } else r

def recordOf (seen : List Event) (k : Key) : Record := seen.foldl (note k) ⟨none, none⟩

def Record.lastSent (r : Record) : Int :=
  match r.stamp with
  | none => 0
  | some (time, boot) => time - boot

def cooldownMs : Int := retransmitMinIntervalSec * 1000

def Record.Recent (r : Record) (time : Int) : Prop := ∃ sent ∈ r.sent, time - sent < cooldownMs

def Dated (seen : List Event) (db : BlockTable) : Prop :=
  ∀ k row, get db k = some row → row.lastSent = (recordOf seen k).lastSent

theorem recordOf_append (seen : List Event) (e : Event) (k : Key) :
    recordOf (seen ++ [e]) k = note k (recordOf seen k) e := by
  rw [recordOf, List.foldl_append]
  rfl

section
variable {seen : List Event} {db : BlockTable}

theorem Dated.transmitted (h : Dated seen db) (k : Key) (time : Int) :
    Dated (seen ++ [.transmitted k time]) db := by
  intro k' row found
  rw [recordOf_append, note, h k' row found]
  split <;> rfl

theorem Dated.recorded (h : Dated seen db) (remoteId : String) (k : Key) (size : Int32)
    (hash : UInt64) (version : Int) :
    Dated (seen ++ [.recorded k]) (sqliteBlockUpsertV db remoteId k size hash false version) := by
  intro k' row found
  rw [get_upsert] at found
  rw [recordOf_append, note]
  split at found
  next here =>
    cases found
    rw [if_pos here]
    rfl
  next other =>
    rw [if_neg other]
    exact h k' row found

theorem Dated.stamped (h : Dated seen db) (k : Key) (now boot : Int) :
    Dated (seen ++ [.stamped k (boot + now) boot]) (sqliteUpdateLastSent db k now) := by
  intro k' row found
  rw [get_updateLastSent] at found
  obtain ⟨old, before, rfl⟩ := Option.map_eq_some_iff.mp found
  have key : old.key = k' := ((get_eq_some_iff db).mp before).2
  rw [recordOf_append, note, key]
  by_cases here : k = k'
  · rw [if_pos here, if_pos here.symm]
    simp only [Record.lastSent]
    omega
  · rw [if_neg here, if_neg (Ne.symm here)]
    exact h k' old before

theorem Dated.marked (h : Dated seen db) {db' : BlockTable}
    (marked : ∀ k, ∀ row ∈ get db' k, ∃ old ∈ get db k, row.lastSent = old.lastSent) :
    Dated seen db' := by
  intro k row found
  obtain ⟨old, before, same⟩ := marked k row found
  exact same.trans (h k old before)

theorem Dated.markAcked (h : Dated seen db) (k : Key) : Dated seen (sqliteBlockMarkAcked db k) := by
  refine h.marked fun k' row found => ?_
  rw [get_markAcked, Option.mem_map] at found
  obtain ⟨old, before, rfl⟩ := found
  exact ⟨old, before, by split <;> rfl⟩

theorem Dated.markVerified (h : Dated seen db) (k : Key) (version : Int) :
    Dated seen (sqliteBlockMarkVerified db k version) := by
  refine h.marked fun k' row found => ?_
  rw [get_markVerified, Option.mem_map] at found
  obtain ⟨old, before, rfl⟩ := found
  exact ⟨old, before, by split <;> rfl⟩

theorem Dated.sendBlock (h : Dated seen db) (remoteId : String) (version : Int) (k : Key)
    (read : Option ReadData) (pushed : Bool) :
    Dated (seen ++ if (sentHash db k read pushed).isSome then [.recorded k] else [])
      (sendBlock remoteId version db k read pushed) := by
  unfold TailLoop.sendBlock
  cases sentHash db k read pushed with
  | none => simpa using h
  | some data => exact h.recorded remoteId k _ _ version

theorem Dated.fullSend (h : Dated seen db) (remoteId : String) (k : Key) (read : Option ReadData)
    (pushed : Bool) :
    Dated (seen ++ if (fullSent db k read pushed).isSome then [.recorded k] else [])
      (fullSend remoteId db k read pushed) := by
  unfold Cooldown.fullSend
  cases fullSent db k read pushed with
  | none => simpa using h
  | some data => exact h.recorded remoteId k _ _ 0

theorem Dated.markStable (h : Dated seen db) (k : Key) (version now boot : Int) :
    Dated (seen ++ [.stamped k (boot + now) boot]) (markStable db k version now) := by
  unfold Round.markStable
  split
  · exact (h.markVerified k version).stamped k now boot
  · exact (h.markAcked k).stamped k now boot

end

theorem Dated.scan {seen : List Event} {s : State} (h : Dated seen s.tail.db) (version now : Int)
    (b : Block) (pushed : Bool) :
    Dated (seen ++ scanEvents s now b pushed)
      (Incsync.syncBlock s.remoteId version now ⟨s.tail.db, []⟩ b pushed).db := by
  unfold scanEvents Incsync.syncBlock
  split
  · exact (h.stamped b.key now s.boot).markVerified b.key version
  · cases pushed with
    | false => simpa using h
    | true => exact h.recorded s.remoteId b.key _ _ version

theorem Dated.examine {seen : List Event} {s : State} (h : Dated seen s.tail.db) (p : Progress)
    (row : Row) (queueCount : Nat) (live : Option ReadData) (pushed : Bool) :
    Dated (seen ++ examineEvents s p row queueCount live pushed)
      (examineDb s.remoteId s.tail.db p row queueCount live pushed s.uptime) := by
  unfold examineEvents examineDb
  cases examineRow p.now queueCount row live with
  | unchanged => exact h.markStable row.key p.version p.now s.boot
  | changed data =>
    have touched := h.stamped row.key p.now s.boot
    cases pushed with
    | false => exact touched
    | true =>
      have again := (touched.recorded s.remoteId row.key (Int32.ofInt data.1.length)
        (blockHash row.offset data.1) p.version).stamped row.key s.uptime s.boot
      have clock : s.boot + s.uptime = s.time := by
        rw [State.uptime]
        omega
      rw [clock, List.append_assoc, List.append_assoc] at again
      exact again
  | cooldown | backpressure | unread => simpa using h

theorem observe_time {s : State} {a : Action} {k : Key} {t : Int}
    (h : .transmitted k t ∈ observe s a) : t = s.time := by
  cases a with
  | tail a =>
    cases a with
    | examine queueCount live pushed later =>
      simp only [observe, examineEvents] at h
      repeat' split at h
      all_goals simp at h
    | send again k' read pushed =>
      simp only [observe] at h
      split at h <;> simp at h
    | startLoop _ | beginRound _ _ | endRound _ => cases h
  | fullSend k' read pushed =>
    simp only [observe] at h
    split at h <;> simp at h
  | scan version now b pushed =>
    simp only [observe, scanEvents] at h
    repeat' split at h
    all_goals simp at h
  | flush sent =>
    cases sent
    · cases h
    · obtain ⟨_, -, same⟩ := List.mem_map.mp h
      cases same
      rfl
  | ack _ | push _ | tick _ | restart _ _ | reboot _ _ => cases h

theorem sent_mem {k : Key} {t : Int} (seen : List Event) (h : (recordOf seen k).sent = some t) :
    .transmitted k t ∈ seen := by
  induction seen using List.reverseRecOn with
  | nil => cases h
  | append_singleton seen e ih =>
    rw [recordOf_append] at h
    cases e with
    | transmitted k' time =>
      simp only [note] at h
      split at h
      next here =>
        cases here
        cases h
        simp
      next => exact List.mem_append_left _ (ih h)
    | recorded k' | stamped k' time boot =>
      simp only [note] at h
      exact List.mem_append_left _ (ih (by split at h <;> exact h))

structure Kept (seen : List Event) (s : State) : Prop where
  dated : Dated seen s.tail.db
  past : ∀ k t, .transmitted k t ∈ seen → t ≤ s.time

theorem start_kept (remoteId : String) (mode : Mode) (up : Nat) :
    Kept [] (start remoteId mode up) :=
  ⟨fun _ _ found => (by cases found), fun _ _ member => (by cases member)⟩

theorem Dated.tail {seen : List Event} {s : State} (h : Dated seen s.tail.db)
    {a : TailLoop.Action} (onClock : OnClock s a) {tail : TailLoop.State}
    (next : TailLoop.step s.remoteId s.tail a = some tail) :
    Dated (seen ++ observe s (.tail a)) tail.db := by
  cases TailLoop.step_turn next with
  | send sends => exact h.sendBlock _ _ _ _ _
  | startLoop _ _ | beginRound _ => simpa [observe] using h
  | @examine queueCount live pushed later p row rest phase batch =>
    obtain rfl : later = s.uptime := onClock
    simp only [observe, phase, batch]
    exact h.examine p row queueCount live pushed
  | endRound phase ended => simpa [observe, TailLoop.endRound_db] using h

theorem Dated.step {seen : List Event} {s s' : State} (h : Dated seen s.tail.db) {a : Action}
    (next : step s a = some s') : Dated (seen ++ observe s a) s'.tail.db := by
  unfold Cooldown.step at next
  split at next
  next =>
    cases a with
    | tail a =>
      simp only at next
      split at next
      next enabled =>
        obtain ⟨tail, moved, rfl⟩ := Option.map_eq_some_iff.mp next
        exact h.tail enabled.2 moved
      next => cases next
    | fullSend k read pushed =>
      simp only at next
      split at next
      · cases next
        exact h.fullSend _ _ _ _
      · cases next
    | scan version now b pushed =>
      simp only at next
      split at next
      · cases next
        exact h.scan version now b pushed
      · cases next
    | ack k =>
      simp only at next
      split at next
      · cases next
      · cases next
        simpa [observe] using h.markAcked k
    | flush sent =>
      cases next
      cases sent with
      | false => simpa [observe] using h
      | true =>
        simp only [observe]
        cases s.queue.head? with
        | none => simpa using h
        | some k => exact h.transmitted k s.time
    | push _ | tick _ | restart _ _ | reboot _ _ =>
      cases next
      simpa [observe, TailLoop.start] using h
  next => cases next

theorem step_time {s s' : State} {a : Action} (next : step s a = some s') : s.time ≤ s'.time := by
  unfold step at next
  split at next
  next =>
    cases a with
    | tail a =>
      simp only at next
      split at next
      · obtain ⟨tail, -, rfl⟩ := Option.map_eq_some_iff.mp next
        exact le_rfl
      · cases next
    | fullSend _ _ _ | scan _ _ _ _ | ack _ =>
      simp only at next
      split at next <;> cases next
      exact le_rfl
    | tick ms =>
      cases next
      exact Int.le_add_of_nonneg_right (Int.natCast_nonneg ms)
    | push _ | flush _ | restart _ _ | reboot _ _ =>
      cases next
      exact le_rfl
  next => cases next

theorem Kept.step {seen : List Event} {s s' : State} (h : Kept seen s) {a : Action}
    (next : step s a = some s') : Kept (seen ++ observe s a) s' := by
  refine ⟨h.dated.step next, fun k t member => ?_⟩
  have later := step_time next
  rcases List.mem_append.mp member with old | new
  · exact (h.past k t old).trans later
  · exact (observe_time new).trans_le later

def history (first : State) (actions : List Action) : List Event := trace step observe first actions

theorem run_kept {remoteId : String} {mode : Mode} {up : Nat} {actions : List Action}
    {s : State} (h : run step (start remoteId mode up) actions = some s) :
    Kept (history (start remoteId mode up) actions) s := by
  have always : Meets Cooldown.step (fun _ _ => True) (start remoteId mode up) actions :=
    meets_of_forall _ fun _ _ _ => trivial
  have kept : Kept ([] ++ trace Cooldown.step observe (start remoteId mode up) actions) s :=
    run_invariant_trace (fun _ _ _ _ kept _ next => kept.step next) h always
      (start_kept remoteId mode up)
  rw [List.nil_append] at kept
  exact kept

/-- When the cooldown test at `time` agrees with the last transmission. A stamp at a
positive uptime runs out after 121 s and the time between the boots, and the transmission
must then be just as recent; without such a stamp it must be old. -/
def Measured (r : Record) (time boot : Int) : Prop :=
  match r.stamp with
  | none => ¬ r.Recent time
  | some (stampTime, stampBoot) =>
    if stampBoot < stampTime then
      r.Recent time ↔ time < stampTime + cooldownMs + (boot - stampBoot)
    else ¬ r.Recent time

def oneBlock (actions : List Action) : Option State :=
  run step (start "10.0.0.1:3400" .tail 100000) actions

def oneBlockHistory (actions : List Action) : List Event :=
  history (start "10.0.0.1:3400" .tail 100000) actions

def firstSend : List Action :=
  -- the block is queued, recorded and at once transmitted
  [.push (0, 0), .tail (.send false (0, 0) (some (byteRead 3)) true), .flush true]

def resend : List Action :=
  -- 1000 s later a round finds the block changed and queues it again
  firstSend ++ [.tick 1000000, .tail (.beginRound [sentRow 3 0 0] 1100000), .push (0, 0),
    .tail (.examine 0 (some (byteRead 5)) true 1100000), .tail (.endRound true)]

def Finds (actions : List Action) (row : Row) (ago : Int) (s : State) : Prop :=
  oneBlock actions = some s ∧ unackedRows s.tail.db s.remoteId = [row] ∧
    (recordOf (oneBlockHistory actions) row.key).sent = some (s.time - ago)

theorem resent_recorded :
    (oneBlock (resend ++ [.flush true, .tick 18000])).map
        (fun s => (unackedRows s.tail.db s.remoteId, s.time, s.boot)) =
      some ([sentRow 5 1100000 0], 1118000, 0) ∧
    recordOf (oneBlockHistory (resend ++ [.flush true, .tick 18000])) (0, 0) =
      ⟨some 1100000, some (1100000, 0)⟩ := by
  decide +kernel

end Go2Cloud.Cooldown
