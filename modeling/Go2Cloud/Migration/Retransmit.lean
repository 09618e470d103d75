import Go2Cloud.Migration.FullRun
import Go2Cloud.Migration.TailSend

/-! do_retransmit (client/main.c). It asks the tracker for the unacknowledged rows of
the empty remote id, while do_migrate records its rows under "ip:port". -/
namespace Go2Cloud.Retransmit
open Protocol Queue Reader Tracker Round Decoder BlockWriter Receiver Migration Transition
open FullRun (readAs sendRead blockRead)
open TailSend (Wrote)

def retransmitLimit : Nat := 256

def remoteIdOf (serverIp : String) (serverPort : Nat) : String :=
  -- the id do_migrate records in its rows, cut to the size of its buffer
  String.ofList ((serverIp.toList ++ ':' :: (toString serverPort).toList).take 255)

structure ReaderEntry where
  devno : Int32
  partitionOffset : Nat
  size : Nat
  isVss : Bool
  deriving DecidableEq, Repr

def diskOffset (k : Key) : Nat := k.2.toUInt64.toNat

def ReaderEntry.Covers (e : ReaderEntry) (k : Key) : Prop :=
  e.devno = k.1 ∧ e.partitionOffset ≤ diskOffset k ∧
    diskOffset k < (e.partitionOffset + e.size) % 2 ^ 64

instance (e : ReaderEntry) (k : Key) : Decidable (e.Covers k) := inferInstanceAs (Decidable (_ ∧ _ ∧ _))

def findReader (readers : List ReaderEntry) (k : Key) : Option ReaderEntry :=
  readers.find? fun e => e.Covers k

def ReaderEntry.readerOffset (e : ReaderEntry) (k : Key) : Nat :=
  -- the offset inside a snapshot is that inside its volume
  if e.isVss then diskOffset k - e.partitionOffset else diskOffset k

def SqliteGetUnacked (db : BlockTable) (remoteId : String) (limit : Nat) (rows : List Row) : Prop :=
  IsUnackedBatch db remoteId limit rows ∧ rows.Pairwise fun a b => a.before b = true

instance (db : BlockTable) (remoteId : String) (limit : Nat) (rows : List Row) :
    Decidable (SqliteGetUnacked db remoteId limit rows) := inferInstanceAs (Decidable (_ ∧ _))

structure Call where
  sys : Sys
  batch : List Key

/-- `next` takes the next block; its argument is what the readers return at that time.
The actions are those inside send_block, and the receiver's. -/
inductive Event where
  | next (read : ReaderEntry → Nat → Option ReadData)
  | perform (a : Migration.Action)

def inSendBlock : Migration.Action → Bool
  | .push _ _ => true
  | .giveUp => true
  | .flushOne _ => true
  | .recvAck _ => true
  | .deliver _ _ => true
  | _ => false

def step (cfg : Config) (readers : List ReaderEntry) (version : Int) (call : Call) :
    Event → Option Call
  | .next read =>
    match call.batch with
    | [] => none
    | k :: rest =>
      match findReader readers k with
      | none => some { call with batch := rest }
      | some entry =>
        (sendRead cfg call.sys k version (read entry (entry.readerOffset k))).map fun s => ⟨s, rest⟩
  | .perform a =>
    if inSendBlock a then (Migration.step cfg call.sys a).map fun s => { call with sys := s } else none

/-- The keys put into the queue by a step; with return value 2 the entry is in, too. -/
def queued (call : Call) : Event → List Key
  | .perform (.push malloc _) =>
    match call.sys.pc with
    | .pushing b _ => if (queueBlock call.sys.queue malloc b.1).1 = .failed then [] else [b.1.key]
    | _ => []
  | _ => []

def lostRows (s : Sys) (remoteId : String) : List Row :=
  (unackedRows s.db remoteId).filter fun row => decide (¬ Wrote s row.key row.hash)

/-- A lost row that is among the first 256 in the order of the query, however ties
are broken, and that some reader covers. -/
def Due (readers : List ReaderEntry) (s : Sys) (remoteId : String) (row : Row) : Prop :=
  row ∈ lostRows s remoteId ∧
    ((lostRows s remoteId).filter fun r => r.before row && decide (r ≠ row)).length < retransmitLimit ∧
    ∃ e ∈ readers, e.Covers row.key

instance (readers : List ReaderEntry) (s : Sys) (remoteId : String) (row : Row) :
    Decidable (Due readers s remoteId row) := inferInstanceAs (Decidable (_ ∧ _ ∧ _))

theorem remoteIdOf_ne_empty (serverIp : String) (serverPort : Nat) :
    remoteIdOf serverIp serverPort ≠ "" := by
  intro empty
  have list := congrArg String.toList empty
  simp [remoteIdOf] at list

variable {cfg : Config} {readers : List ReaderEntry} {version : Int} {keys : List Key}
  {call call' : Call} {e : Event}

structure Inv (keys seen : List Key) (call : Call) : Prop where
  batch : ∀ k ∈ call.batch, k ∈ keys
  position : SendsOnly (fun b => b.key ∈ keys) call.sys.pc
  queued : ∀ k ∈ seen, k ∈ keys

theorem sendRead_position {s s' : Sys} {k : Key} {read : Option ReadData}
    (h : SendsOnly (fun b => b.key ∈ keys) s.pc) (member : k ∈ keys)
    (hs : sendRead cfg s k version read = some s') :
    SendsOnly (fun b => b.key ∈ keys) s'.pc := by
  cases read with
  | some data =>
    refine h.step (a := .sendBlock (readAs k data) version) ?_ ?_ (Migration.step_inv hs)
    · simp
    · rintro b v ⟨⟩
      exact member
  | none =>
    simp only [sendRead] at hs
    split at hs
    · cases hs
      exact h
    · cases hs

theorem queued_keys (h : SendsOnly (fun b => b.key ∈ keys) call.sys.pc) :
    ∀ k ∈ queued call e, k ∈ keys := by
  intro k member
  unfold queued at member
  split at member
  · split at member
    next b pusher push =>
      split at member
      · cases member
      · rw [List.mem_singleton.mp member]
        exact (h.pushing push).1
    · cases member
  · cases member

theorem step_inv {seen : List Key} (h : Inv keys seen call)
    (hs : step cfg readers version call e = some call') : Inv keys (seen ++ queued call e) call' := by
  have traced : ∀ k ∈ seen ++ queued call e, k ∈ keys := fun k member =>
    (List.mem_append.mp member).elim (h.queued k) (queued_keys h.position k)
  cases e with
  | next read =>
    simp only [step] at hs
    split at hs
    · cases hs
    next k rest pending =>
      have first : k ∈ keys := h.batch k (pending ▸ List.mem_cons_self)
      have others : ∀ k' ∈ rest, k' ∈ keys := fun k' member =>
        h.batch k' (pending ▸ List.mem_cons_of_mem k member)
      split at hs
      · cases hs
        exact ⟨others, h.position, traced⟩
      · obtain ⟨s, sent, rfl⟩ := Option.map_eq_some_iff.mp hs
        exact ⟨others, sendRead_position h.position first sent, traced⟩
  | perform a =>
    simp only [step] at hs
    split at hs
    next inside =>
      obtain ⟨s, performed, rfl⟩ := Option.map_eq_some_iff.mp hs
      refine ⟨h.batch, h.position.step ?_ ?_ (Migration.step_inv performed), traced⟩
      · rintro batch now version rfl
        cases inside
      · rintro b version rfl
        cases inside
    · cases hs

/-- A call queues keys of rows with the empty remote id only. -/
theorem queued_empty_remote {s : Sys} (idle : s.pc = .idle) {rows : List Row}
    (selected : SqliteGetUnacked s.db "" retransmitLimit rows) {events : List Event}
    (hr : run (step cfg readers version) ⟨s, rows.map Row.key⟩ events = some call) {k : Key}
    (member : k ∈ trace (step cfg readers version) queued ⟨s, rows.map Row.key⟩ events) :
    ∃ row ∈ s.db.rows, row.key = k ∧ row.remoteId = "" := by
  have start : Inv (rows.map Row.key) [] ⟨s, rows.map Row.key⟩ :=
    ⟨fun _ member => member, by simp only [idle, SendsOnly], by simp⟩
  have always : Meets (step cfg readers version) (fun _ _ => True) ⟨s, rows.map Row.key⟩ events :=
    meets_of_forall _ fun _ _ _ => trivial
  have inv := run_invariant_trace (fun _ _ _ _ h _ hs => step_inv h hs) hr always start
  obtain ⟨row, listed, rfl⟩ := List.mem_map.mp (inv.queued k member)
  obtain ⟨stored, unacked⟩ := List.mem_filter.mp (selected.1.2.1 row listed)
  simp only [Bool.and_eq_true, beq_iff_eq] at unacked
  exact ⟨row, stored, rfl, unacked.2⟩

/-- In both modes, from every state between two calls of send_block and however far
the call has come: do_retransmit has queued all rows of the current remote that are due
exactly when there are none. -/
theorem retransmit_requeues_iff (tailSend : Bool) (serverIp : String) (serverPort : Nat)
    (readers : List ReaderEntry) (version : Int) (s : Sys) (idle : s.pc = .idle) (rows : List Row)
    (selected : SqliteGetUnacked s.db "" retransmitLimit rows) (events : List Event) (call : Call)
    (hr : run (step ⟨tailSend, remoteIdOf serverIp serverPort⟩ readers version)
      ⟨s, rows.map Row.key⟩ events = some call) :
    (∀ row, Due readers s (remoteIdOf serverIp serverPort) row →
      row.key ∈ trace (step ⟨tailSend, remoteIdOf serverIp serverPort⟩ readers version) queued
        ⟨s, rows.map Row.key⟩ events) ↔
      ∀ row, ¬ Due readers s (remoteIdOf serverIp serverPort) row := by
  refine ⟨fun requeues row due => ?_, fun none_due row due => absurd due (none_due row)⟩
  obtain ⟨other, other_member, key, empty⟩ :=
    queued_empty_remote idle selected hr (requeues row due)
  have listed := (List.mem_filter.mp due.1).1
  obtain ⟨member, unacked⟩ := List.mem_filter.mp listed
  simp only [Bool.and_eq_true, beq_iff_eq] at unacked
  -- the table has one row for each key
  obtain rfl : other = row := List.inj_on_of_nodup_map s.db.unique other_member member key
  exact remoteIdOf_ne_empty serverIp serverPort (unacked.2.symm.trans empty)

-- a row from before remote ids were recorded
def unnamedDb : BlockTable := sqliteBlockUpsertV Keyed.empty "" (0, 0) 3 0 false 0

def wholeDisk : ReaderEntry := ⟨0, 0, 0x100000, false⟩

def wholeDiskEvents : List Event :=
  [.next fun _ _ => some blockRead, .perform (.push true 0)]

/-- A call that queues the one row it finds, which is not a row of the remote. -/
theorem retransmit_requeues_unnamed :
    ∃ rows, rows = unnamedDb.rows ∧
      trace (step ⟨false, remoteIdOf "10.0.0.1" 3400⟩ [wholeDisk] 0) queued
        ⟨resumed unnamedDb blankWriter, rows.map Row.key⟩ wholeDiskEvents = [(0, 0)] ∧
      ((∀ row, Due [wholeDisk] (resumed unnamedDb blankWriter) (remoteIdOf "10.0.0.1" 3400) row →
        row.key ∈ trace (step ⟨false, remoteIdOf "10.0.0.1" 3400⟩ [wholeDisk] 0) queued
          ⟨resumed unnamedDb blankWriter, rows.map Row.key⟩ wholeDiskEvents) ↔
        ∀ row, ¬ Due [wholeDisk] (resumed unnamedDb blankWriter) (remoteIdOf "10.0.0.1" 3400) row) := by
  have selected : SqliteGetUnacked (resumed unnamedDb blankWriter).db "" retransmitLimit
      unnamedDb.rows := by
    decide +kernel
  have runs : ∃ call ∈ run (step ⟨false, remoteIdOf "10.0.0.1" 3400⟩ [wholeDisk] 0)
      ⟨resumed unnamedDb blankWriter, unnamedDb.rows.map Row.key⟩ wholeDiskEvents,
      call.batch = [] := by
    decide +kernel
  obtain ⟨call, hr, -⟩ := runs
  exact ⟨_, rfl, by decide +kernel,
    retransmit_requeues_iff false "10.0.0.1" 3400 [wholeDisk] 0 (resumed unnamedDb blankWriter) rfl
      unnamedDb.rows selected wholeDiskEvents call hr⟩

def droppedActions : List Migration.Action :=
  -- a block is queued and then dropped, as there is no connection
  [.sendBlock (readAs (0, 0) blockRead) 0, .push true 0, .flushOne .noConnection]

/-- The dropped block's row is due, but the query of do_retransmit finds nothing, and the
call returns without queueing anything. -/
theorem retransmit_misses_dropped_block :
    ∃ s ∈ run (Migration.step ⟨false, remoteIdOf "10.0.0.1" 3400⟩) (init blankWriter) droppedActions,
      waiting s.queue = [] ∧ SqliteGetUnacked s.db "" retransmitLimit [] ∧
      ∃ row ∈ s.db.rows, Due [wholeDisk] s (remoteIdOf "10.0.0.1" 3400) row ∧
        row.key ∉ trace (step ⟨false, remoteIdOf "10.0.0.1" 3400⟩ [wholeDisk] 0) queued ⟨s, []⟩ [] := by
  decide +kernel

end Go2Cloud.Retransmit
