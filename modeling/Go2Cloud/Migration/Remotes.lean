import Go2Cloud.Lib.SharedTable
import Go2Cloud.Migration.AckVersion
import Go2Cloud.Migration.Retransmit

/-! What a run against one receiver depends on when the tracker also has rows of other
receivers. Rows are found by device and offset alone, and the number of all rows goes
into should_finish. do_migrate and cmd_incsync (client/main.c) are followed from the
start of their block loops; the actions of the client and the receiver are those of the
migration model. -/
namespace Go2Cloud.Remotes
open Protocol Queue Reader Tracker Round Decoder BlockWriter Receiver Migration Transition Keyed
open FullRun (readAs sendRead blockRead)
open Retransmit (ReaderEntry SqliteGetUnacked retransmitLimit remoteIdOf)

structure VersionRow where
  version : Int
  remoteId : String
  deriving DecidableEq, Repr

def sqliteGetNextVersion (versions : List VersionRow) (remoteId : String) : Int :=
  ((versions.filter fun v => v.remoteId == remoteId).map VersionRow.version).max?.getD 0 + 1

def sqliteVersionStart (versions : List VersionRow) (version : Int) (remoteId : String) :
    List VersionRow :=
  versions ++ [⟨version, remoteId⟩]

def startVersion (versions : List VersionRow) (remoteId : String) : Int :=
  -- the version a run starts with
  if sqliteGetNextVersion versions remoteId < 1 then 1 else sqliteGetNextVersion versions remoteId

inductive Command where
  | migrate (tailSend : Bool)
  | incsync (now : Int)
  deriving DecidableEq, Repr

/-- cmd_incsync lets process_ack mark the rows, as without TailSend. -/
def Command.config (remoteId : String) : Command → Config
  | .migrate tailSend => ⟨tailSend, remoteId⟩
  | .incsync _ => ⟨false, remoteId⟩

@[simp] theorem config_remoteId (remoteId : String) (cmd : Command) :
    (cmd.config remoteId).remoteId = remoteId := by
  cases cmd <;> rfl

inductive Stage where
  | transfer
  | loop
  | done
  deriving DecidableEq, Repr

/-- `todo` are the blocks the transfer loop or the scan has yet to visit, `pending` those
of a do_retransmit in progress. -/
structure Client where
  sys : Sys
  todo : List Key
  pending : List Key
  versions : List VersionRow
  incVersion : Int
  zeroChangeRounds : Nat
  incRound : Nat
  stage : Stage

def start (cmd : Command) (remoteId : String) (db : BlockTable) (versions : List VersionRow)
    (w : Writer) (plan : List Key) : Client :=
  match cmd with
  | .migrate _ => ⟨resumed db w, plan, [], versions, 0, 0, 0, .transfer⟩
  | .incsync _ =>
    ⟨resumed db w, plan, [], sqliteVersionStart versions (startVersion versions remoteId) remoteId,
      startVersion versions remoteId, 0, 0, .transfer⟩

inductive Event where
  | visit (read : Option ReadData)
  | retransmit (rows : List Row)
  | next (read : ReaderEntry → Nat → Option ReadData)
  | perform (a : Migration.Action)
  | startLoop
  | beginRound (batch : List Row) (now : Int)
  | examine (live : Option ReadData)
  | endRound (acquired : Bool)

def scanBlock (s : Sys) (b : ReadBlock) (version now : Int) : Sys :=
  -- the loop body of cmd_incsync up to its push loop
  if b.1.data = [] then s
  else if sqliteBlockLookup s.db b.1.key = some (blockHash b.1.offset b.1.data) then
    { s with db := sqliteBlockMarkVerified (sqliteUpdateLastSent s.db b.1.key now) b.1.key version }
  else { s with pc := .pushing b (.sendBlock version) }

def scanRead (s : Sys) (k : Key) (version now : Int) (read : Option ReadData) : Option Sys :=
  match s.pc, read with
  | .idle, some data => some (scanBlock s (readAs k data) version now)
  | .idle, none => some s
  | _, _ => none

def visitBlock (cmd : Command) (remoteId : String) (s : Sys) (k : Key) (version : Int)
    (read : Option ReadData) : Option Sys :=
  match cmd with
  | .migrate _ => sendRead (cmd.config remoteId) s k version read
  | .incsync now => scanRead s k version now read

def performs : Migration.Action → Bool
  | .sendBlock _ _ => false
  | .beginRound _ _ _ => false
  | .examine _ => false
  | .endRound => false
  | _ => true

def examineNext (s : Sys) (live : Option ReadData) : Option Sys :=
  -- the next row of a round; under backpressure the rest of the round is dropped
  match s.pc with
  | .round p =>
    match p.batch with
    | [] => none
    | row :: rest =>
      if examineRow p.now s.queue.count row live = .backpressure then
        some { s with pc := .round { p with batch := [] } }
      else some (Migration.examine s p row rest live)
  | _ => none

def endRound (remoteId : String) (c : Client) (p : Progress) (acquired : Bool) : Client :=
  -- after a round: should_finish in the incremental loop, where timer_cb_real may find no
  -- connection
  let c' := { c with sys := { c.sys with pc := .idle } }
  if c.stage = .loop then
    match shouldFinish c.sys.db remoteId p.requeued c.incVersion c.zeroChangeRounds c.incRound with
    | (some _, rounds) =>
      { c' with zeroChangeRounds := rounds, stage := if acquired then .done else .loop }
    | (none, rounds) =>
      { c' with
        zeroChangeRounds := rounds
        incVersion := c.incVersion + 1
        versions := sqliteVersionStart c.versions (c.incVersion + 1) remoteId }
  else c'

def step (cmd : Command) (remoteId : String) (readers : List ReaderEntry) (c : Client) :
    Event → Option Client
  | .visit read =>
    match c.stage, c.pending, c.todo with
    | .transfer, [], k :: rest =>
      (visitBlock cmd remoteId c.sys k c.incVersion read).map fun s => { c with sys := s, todo := rest }
    | _, _, _ => none
  | .retransmit rows =>
    match cmd, c.pending, c.sys.pc with
    | .migrate _, [], .idle =>
      if c.stage ≠ .done ∧ SqliteGetUnacked c.sys.db "" retransmitLimit rows then
        some { c with pending := rows.map Row.key }
      else none
    | _, _, _ => none
  | .next read =>
    (Retransmit.step (cmd.config remoteId) readers c.incVersion ⟨c.sys, c.pending⟩ (.next read)).map
      fun call => { c with sys := call.sys, pending := call.batch }
  | .perform a =>
    if performs a then
      (Migration.step (cmd.config remoteId) c.sys a).map fun s => { c with sys := s }
    else none
  | .startLoop =>
    match c.stage, c.pending, c.todo, c.sys.pc with
    | .transfer, [], [], .idle =>
      if cmd = .migrate true then
        some { c with
          incVersion := startVersion c.versions remoteId
          versions := sqliteVersionStart c.versions (startVersion c.versions remoteId) remoteId
          zeroChangeRounds := 0
          stage := .loop }
      else none
    | _, _, _, _ => none
  | .beginRound batch now =>
    match cmd, c.pending with
    | .migrate _, [] =>
      if c.stage = .done then none
      else
        (Migration.step (cmd.config remoteId) c.sys (.beginRound batch now c.incVersion)).map fun s =>
          { c with sys := s, incRound := c.incRound + 1 }
    | _, _ => none
  | .examine live => (examineNext c.sys live).map fun s => { c with sys := s }
  | .endRound acquired =>
    match c.sys.pc with
    | .round p => if p.batch = [] then some (endRound remoteId c p acquired) else none
    | _ => none

def queued (c : Client) : Event → List Block
  | .perform (.push malloc _) =>
    match c.sys.pc with
    | .pushing b _ => if (queueBlock c.sys.queue malloc b.1).1 = .failed then [] else [b.1]
    | _ => []
  | _ => []

def Command.migrates : Command → Bool
  | .migrate _ => true
  | .incsync _ => false

/-- Two trackers a run of the command against `remoteId` cannot tell apart while it keeps
to the keys in `T`. The number of rows matters to should_finish only, rows without a
remote id to do_retransmit only. -/
structure Related (cmd : Command) (remoteId : String) (T : Key → Prop) (db db' : BlockTable) :
    Prop where
  alike : Alike (fun row => row.remoteId = remoteId) T db db'
  total : cmd = .migrate true → db.rows.length = db'.rows.length
  unnamed : cmd.migrates = true → ∀ row ∈ db.rows, row.ack = false → row.remoteId ≠ ""
  unnamed' : cmd.migrates = true → ∀ row ∈ db'.rows, row.ack = false → row.remoteId ≠ ""

section Trackers
variable {cmd : Command} {remoteId : String} {T : Key → Prop} {db db' : BlockTable} {k : Key}

theorem unnamed_upsert (named : remoteId ≠ "")
    (h : ∀ row ∈ db.rows, row.ack = false → row.remoteId ≠ "") (k : Key) (size : Int32)
    (hash : UInt64) (ack : Bool) (version : Int) :
    ∀ row ∈ (sqliteBlockUpsertV db remoteId k size hash ack version).rows, row.ack = false →
      row.remoteId ≠ "" := by
  intro row member unacked
  rcases mem_upsert member with rfl | ⟨old, -⟩
  · exact named
  · exact h row old unacked

theorem Related.upsert (h : Related cmd remoteId T db db') (named : remoteId ≠ "") (inside : T k)
    (size : Int32) (hash : UInt64) (ack : Bool) (version : Int) :
    Related cmd remoteId T (sqliteBlockUpsertV db remoteId k size hash ack version)
      (sqliteBlockUpsertV db' remoteId k size hash ack version) where
  alike := h.alike.put rfl inside
  total counts := by
    have same := h.alike.get_eq inside
    have length := length_put db ⟨k.1, k.2, size, hash, ack, 0, version, remoteId⟩
    have length' := length_put db' ⟨k.1, k.2, size, hash, ack, 0, version, remoteId⟩
    have key : Row.key ⟨k.1, k.2, size, hash, ack, 0, version, remoteId⟩ = k := rfl
    rw [key, same] at length
    rw [key] at length'
    have total := h.total counts
    simp only [sqliteBlockUpsertV]
    omega
  unnamed migrates := unnamed_upsert named (h.unnamed migrates) k size hash ack version
  unnamed' migrates := unnamed_upsert named (h.unnamed' migrates) k size hash ack version

structure Gentle (f : Row → Row) : Prop where
  key : ∀ r, (f r).key = r.key
  remoteId : ∀ r, (f r).remoteId = r.remoteId
  ack : ∀ r, (f r).ack = false → r.ack = false

theorem unnamed_modify (h : ∀ row ∈ db.rows, row.ack = false → row.remoteId ≠ "") {f : Row → Row}
    (gentle : Gentle f) : ∀ row ∈ (modify db k f gentle.key).rows, row.ack = false →
      row.remoteId ≠ "" := by
  intro row member unacked
  rcases (mem_modify db).mp member with ⟨old, -⟩ | ⟨old, old_member, -, rfl⟩
  · exact h row old unacked
  · rw [gentle.remoteId]
    exact h old old_member (gentle.ack old unacked)

theorem Related.modify (h : Related cmd remoteId T db db') (k : Key) {f : Row → Row}
    (gentle : Gentle f) :
    Related cmd remoteId T (modify db k f gentle.key) (modify db' k f gentle.key) where
  alike := h.alike.modify k gentle.key fun r => by rw [gentle.remoteId]
  total counts := by
    rw [length_modify, length_modify]
    exact h.total counts
  unnamed migrates := unnamed_modify (h.unnamed migrates) gentle
  unnamed' migrates := unnamed_modify (h.unnamed' migrates) gentle

theorem Related.markAcked (h : Related cmd remoteId T db db') (k : Key) :
    Related cmd remoteId T (sqliteBlockMarkAcked db k) (sqliteBlockMarkAcked db' k) :=
  have gentle : Gentle fun r => { r with ack := true } :=
    ⟨fun _ => rfl, fun _ => rfl, fun _ unacked => by cases unacked⟩
  h.modify k gentle

theorem Related.markVerified (h : Related cmd remoteId T db db') (k : Key) (version : Int) :
    Related cmd remoteId T (sqliteBlockMarkVerified db k version)
      (sqliteBlockMarkVerified db' k version) :=
  have gentle : Gentle fun r => { r with version := version, ack := true } :=
    ⟨fun _ => rfl, fun _ => rfl, fun _ unacked => by cases unacked⟩
  h.modify k gentle

theorem Related.updateLastSent (h : Related cmd remoteId T db db') (k : Key) (timestamp : Int) :
    Related cmd remoteId T (sqliteUpdateLastSent db k timestamp)
      (sqliteUpdateLastSent db' k timestamp) :=
  have gentle : Gentle fun r => { r with lastSent := timestamp } :=
    ⟨fun _ => rfl, fun _ => rfl, fun _ unacked => unacked⟩
  h.modify k gentle

theorem Related.markStable (h : Related cmd remoteId T db db') (k : Key) (version now : Int) :
    Related cmd remoteId T (markStable db k version now) (markStable db' k version now) := by
  unfold Round.markStable
  split
  · exact (h.markVerified k version).updateLastSent k now
  · exact (h.markAcked k).updateLastSent k now

theorem Related.recordPushed (h : Related cmd remoteId T db db') (named : remoteId ≠ "")
    {b : Block} (inside : T b.key) (now : Int) (pusher : Pusher) :
    Related cmd remoteId T (recordPushed (cmd.config remoteId) db b now pusher)
      (recordPushed (cmd.config remoteId) db' b now pusher) := by
  cases pusher with
  | sendBlock version =>
    simp only [Migration.recordPushed, config_remoteId]
    exact h.upsert named inside _ _ _ _
  | round p =>
    simp only [Migration.recordPushed, recordResent, config_remoteId]
    exact (h.upsert named inside _ _ _ _).updateLastSent _ _

theorem Related.acked_eq (h : Related cmd remoteId T db db') (inside : T k) :
    sqliteBlockAcked db k = sqliteBlockAcked db' k := by
  rw [sqliteBlockAcked, sqliteBlockAcked, h.alike.get_eq inside]

theorem Related.lookup_eq (h : Related cmd remoteId T db db') (inside : T k) :
    sqliteBlockLookup db k = sqliteBlockLookup db' k := by
  rw [sqliteBlockLookup, sqliteBlockLookup, h.alike.get_eq inside]

theorem Related.unacked_perm (h : Related cmd remoteId T db db') :
    (unackedRows db remoteId).Perm (unackedRows db' remoteId) := by
  refine h.alike.filter_perm fun row selected => ?_
  simp only [Bool.and_eq_true, beq_iff_eq] at selected
  exact selected.2

theorem Related.batch_iff (h : Related cmd remoteId T db db') (limit : Nat) (batch : List Row) :
    IsUnackedBatch db remoteId limit batch ↔ IsUnackedBatch db' remoteId limit batch := by
  have perm := h.unacked_perm
  simp only [IsUnackedBatch, perm.mem_iff, perm.length_eq]

theorem Related.shouldFinish_eq (h : Related cmd remoteId T db db') (counts : cmd = .migrate true)
    (requeued : Nat) (version : Int) (zeroChangeRounds incRound : Nat) :
    shouldFinish db remoteId requeued version zeroChangeRounds incRound =
      shouldFinish db' remoteId requeued version zeroChangeRounds incRound := by
  have unacked : sqliteCountUnacked db remoteId = sqliteCountUnacked db' remoteId :=
    h.unacked_perm.length_eq
  have unackedV : sqliteCountUnackedV db remoteId version = sqliteCountUnackedV db' remoteId version :=
    h.unacked_perm.countP_eq _
  have total : sqliteCountBlocks db = sqliteCountBlocks db' := h.total counts
  unfold shouldFinish
  rw [unacked, unackedV, total]

end Trackers

def Keeps (T : Key → Prop) : Pc → Prop
  | .idle => True
  | .pushing b (.sendBlock _) => T b.1.key
  | .pushing b (.round p) => T b.1.key ∧ ∀ row ∈ p.batch, T row.key
  | .round p => ∀ row ∈ p.batch, T row.key
  | .crashed => True

structure Inside (T : Key → Prop) (s : Sys) : Prop where
  carries : Carries (fun b => T b.key) s
  acks : ∀ c, ∀ r ∈ s.down c, IsAck r → T (r.devno, r.offset)
  position : Keeps T s.pc

section Systems
variable {cmd : Command} {remoteId : String} {T : Key → Prop} {s s' : Sys} {cfg : Config}
  {a : Migration.Action} {db' : BlockTable}

theorem Inside.moved (h : Inside T s) {db : BlockTable} {pc : Pc} (position : Keeps T pc) :
    Inside T { s with db := db, pc := pc } :=
  ⟨⟨h.carries.slots, h.carries.frames, h.carries.under_way⟩, h.acks, position⟩

theorem Keeps.pushing (h : Keeps T s.pc) {b : ReadBlock} {pusher : Pusher}
    (push : s.pc = .pushing b pusher) :
    T b.1.key ∧ Keeps T pusher.done ∧ Keeps T pusher.abandoned := by
  rw [push] at h
  cases pusher with
  | sendBlock version => exact ⟨h, trivial, trivial⟩
  | round p => exact ⟨h.1, h.2, h.2⟩

theorem Keeps.round (h : Keeps T s.pc) {p : Progress} {row : Row} {rest : List Row}
    (round : s.pc = .round p) (batch : p.batch = row :: rest) :
    T row.key ∧ ∀ r ∈ rest, T r.key := by
  rw [round] at h
  have all : ∀ r ∈ row :: rest, T r.key := batch ▸ h
  exact ⟨all row List.mem_cons_self, fun r member => all r (List.mem_cons_of_mem _ member)⟩

theorem Keeps.moves (h : Keeps T s.pc)
    (rows : ∀ row ∈ s.db.rows, row.remoteId = cfg.remoteId → T row.key)
    (enters : ∀ b version, a = .sendBlock b version → T b.1.key) {pc : Pc}
    (moves : Moves cfg s a pc) : Keeps T pc := by
  cases moves with
  | stay => exact h
  | leave round => trivial
  | take idle => exact enters _ _ rfl
  | giveUp push => exact (h.pushing push).2.2
  | begin idle tail selected =>
    intro row member
    obtain ⟨stored, unacked⟩ := List.mem_filter.mp (selected.2.1 row member)
    simp only [Bool.and_eq_true, beq_iff_eq] at unacked
    exact rows row stored unacked.2
  | next round batch => exact (h.round round batch).2

theorem Keeps.step (h : Keeps T s.pc)
    (rows : ∀ row ∈ s.db.rows, row.remoteId = cfg.remoteId → T row.key)
    (enters : ∀ b version, a = .sendBlock b version → T b.1.key) (st : Step cfg s a s') :
    Keeps T s'.pc := by
  cases st with
  | moved moves => exact h.moves rows enters moves
  | recorded push room => exact (h.pushing push).2.1
  | crashed pop => trivial
  | stable round batch decision => exact (h.round round batch).2
  | changed round batch decision => exact h.round round batch
  | _ => exact h

theorem step_inside (h : Inside T s)
    (rows : ∀ row ∈ s.db.rows, row.remoteId = cfg.remoteId → T row.key)
    (enters : ∀ b version, a = .sendBlock b version → T b.1.key) (st : Step cfg s a s') :
    Inside T s' := by
  have carries := step_carries h.carries (fun b pusher push => (h.position.pushing push).1) st
  have position := h.position.step rows enters st
  refine ⟨carries, fun c' r member ack => ?_, position⟩
  cases st with
  | acked head is_ack => exact h.acks c' r (mem_of_taken head member) ack
  | finished head done => exact h.acks c' r (mem_of_taken head member) ack
  | ignored head => exact h.acks c' r (mem_of_taken head member) ack
  | delivered head good =>
    rcases mem_handled_down.mp member with old | ⟨-, new⟩
    · exact h.acks c' r old ack
    · obtain ⟨b, rfl, key, -⟩ := AckVersion.dispatch_ack new ack
      rw [key]
      exact h.carries.block (head ▸ List.mem_cons_self) good
  | _ => exact h.acks c' r member ack

def withDb (s : Sys) (db : BlockTable) : Sys := { s with db := db }

theorem withDb_pc (s : Sys) (db : BlockTable) : (withDb s db).pc = s.pc := rfl

def Twin (cmd : Command) (remoteId : String) (T : Key → Prop) (s t : Sys) : Prop :=
  ∃ db', t = withDb s db' ∧ Related cmd remoteId T s.db db'

theorem flushOne_withDb (s : Sys) (db' : BlockTable) (outcome : FlushOutcome) :
    flushOne (withDb s db') outcome = withDb (flushOne s outcome) db' ∧
      (flushOne s outcome).db = s.db := by
  simp only [flushOne, withDb]
  split
  · exact ⟨rfl, rfl⟩
  · split <;> exact ⟨rfl, rfl⟩

theorem sendControl_withDb (s : Sys) (db' : BlockTable) (ctl : Control) (outcome : FlushOutcome) :
    sendControl (withDb s db') ctl outcome = (sendControl s ctl outcome).map (withDb · db') ∧
      ∀ t ∈ sendControl s ctl outcome, t.db = s.db := by
  by_cases first : s.ctlEndSent = none
  · cases ctl <;> cases outcome <;> simp [sendControl, withDb, sendFrame, first]
  · cases ctl <;> cases outcome <;> simp [sendControl, withDb, sendFrame, first]

theorem deliver_withDb (s : Sys) (db' : BlockTable) (c : Conn) (io : DiskIo) :
    deliver (withDb s db') c io = (deliver s c io).map (withDb · db') ∧
      ∀ t ∈ deliver s c io, t.db = s.db := by
  simp only [deliver, withDb]
  split
  · simp
  · split <;> simp [handled]

theorem sendBlock_withDb (cfg : Config) {b : ReadBlock}
    (acked : sqliteBlockAcked s.db b.1.key = sqliteBlockAcked db' b.1.key)
    (lookup : sqliteBlockLookup s.db b.1.key = sqliteBlockLookup db' b.1.key) (version : Int) :
    Migration.sendBlock cfg (withDb s db') b version =
        withDb (Migration.sendBlock cfg s b version) db' ∧
      (Migration.sendBlock cfg s b version).db = s.db := by
  simp only [Migration.sendBlock, withDb, ← acked, ← lookup]
  split_ifs <;> exact ⟨rfl, rfl⟩

theorem rel_same (rel : Related cmd remoteId T s.db db') {f : Sys → Option Sys}
    (h : f (withDb s db') = (f s).map (withDb · db') ∧ ∀ t ∈ f s, t.db = s.db) :
    Option.Rel (Twin cmd remoteId T) (f s) (f (withDb s db')) := by
  rw [h.1]
  cases found : f s with
  | none => exact .none
  | some t =>
    have kept := h.2 t found
    exact .some ⟨db', rfl, kept ▸ rel⟩

theorem push_twin (h : Keeps T s.pc) (rel : Related cmd remoteId T s.db db')
    (named : remoteId ≠ "") (malloc : Bool) (now : Int) :
    Option.Rel (Twin cmd remoteId T) (push (cmd.config remoteId) s malloc now)
      (push (cmd.config remoteId) (withDb s db') malloc now) := by
  cases pc : s.pc with
  | pushing b pusher =>
    have recorded := rel.recordPushed named (h.pushing pc).1 now pusher
    simp only [push, withDb, pc]
    by_cases ok : (queueBlock s.queue malloc b.1).1 = .ok
    · rw [if_pos ok, if_pos ok]
      exact .some ⟨_, rfl, recorded⟩
    · rw [if_neg ok, if_neg ok]
      exact .some ⟨db', rfl, rel⟩
  | _ =>
    simp only [push, withDb, pc]
    exact .none

theorem recvAck_twin (rel : Related cmd remoteId T s.db db') (c : Conn) :
    Option.Rel (Twin cmd remoteId T) (recvAck (cmd.config remoteId) s c)
      (recvAck (cmd.config remoteId) (withDb s db') c) := by
  cases head : s.down c with
  | nil =>
    simp only [recvAck, withDb, head]
    exact .none
  | cons r rest =>
    simp only [recvAck, withDb, head, processAck]
    split
    · refine .some ⟨_, rfl, ?_⟩
      simp only
      split
      · exact rel
      · exact rel.markAcked _
    · split <;> exact .some ⟨db', rfl, rel⟩

theorem beginRound_twin (rel : Related cmd remoteId T s.db db') (batch : List Row)
    (now version : Int) :
    Option.Rel (Twin cmd remoteId T) (beginRound (cmd.config remoteId) s batch now version)
      (beginRound (cmd.config remoteId) (withDb s db') batch now version) := by
  have same := rel.batch_iff roundLimit batch
  cases pc : s.pc with
  | idle =>
    simp only [beginRound, withDb, config_remoteId, pc, ← same]
    split
    · exact .some ⟨db', rfl, rel⟩
    · exact .none
  | _ =>
    simp only [beginRound, withDb, pc]
    exact .none

theorem step_twin (h : Keeps T s.pc) (rel : Related cmd remoteId T s.db db')
    (named : remoteId ≠ "") (enters : ∀ b version, a = .sendBlock b version → T b.1.key)
    (no_row : ∀ live, a ≠ .examine live) :
    Option.Rel (Twin cmd remoteId T) (Migration.step (cmd.config remoteId) s a)
      (Migration.step (cmd.config remoteId) (withDb s db') a) := by
  cases a with
  | sendBlock b version =>
    have inside := enters b version rfl
    have same := sendBlock_withDb (cmd.config remoteId) (rel.acked_eq inside)
      (rel.lookup_eq inside) version
    cases pc : s.pc with
    | idle =>
      simp only [Migration.step, withDb_pc, pc]
      exact .some ⟨db', same.1, same.2 ▸ rel⟩
    | _ =>
      simp only [Migration.step, withDb_pc, pc]
      exact .none
  | push malloc now => exact push_twin h rel named malloc now
  | giveUp =>
    cases pc : s.pc with
    | pushing b pusher =>
      simp only [Migration.step, giveUp, withDb_pc, pc]
      exact .some ⟨db', rfl, rel⟩
    | _ =>
      simp only [Migration.step, giveUp, withDb_pc, pc]
      exact .none
  | flushOne outcome =>
    cases pc : s.pc with
    | crashed =>
      simp only [Migration.step, withDb_pc, pc]
      exact .none
    | _ =>
      simp only [Migration.step, withDb_pc, pc]
      have same := flushOne_withDb s db' outcome
      exact .some ⟨db', same.1, same.2 ▸ rel⟩
  | sendControl ctl outcome =>
    cases pc : s.pc with
    | idle =>
      simp only [Migration.step, withDb_pc, pc]
      exact rel_same (f := (sendControl · ctl outcome)) rel (sendControl_withDb s db' ctl outcome)
    | _ =>
      simp only [Migration.step, withDb_pc, pc]
      exact .none
  | recvAck c =>
    cases pc : s.pc with
    | crashed =>
      simp only [Migration.step, withDb_pc, pc]
      exact .none
    | _ =>
      simp only [Migration.step, withDb_pc, pc]
      exact recvAck_twin rel c
  | deliver c io => exact rel_same (f := (deliver · c io)) rel (deliver_withDb s db' c io)
  | beginRound batch now version => exact beginRound_twin rel batch now version
  | examine live => exact absurd rfl (no_row live)
  | endRound =>
    cases pc : s.pc with
    | round p =>
      simp only [Migration.step, withDb_pc, pc]
      exact .some ⟨db', rfl, rel⟩
    | _ =>
      simp only [Migration.step, withDb_pc, pc]
      exact .none

theorem examine_twin (rel : Related cmd remoteId T s.db db') (p : Progress) (row : Row)
    (rest : List Row) (live : Option ReadData) :
    Twin cmd remoteId T (Migration.examine s p row rest live)
      (Migration.examine (withDb s db') p row rest live) := by
  simp only [Migration.examine, withDb]
  split
  · exact ⟨db', rfl, rel⟩
  · exact ⟨db', rfl, rel⟩
  · exact ⟨db', rfl, rel⟩
  · exact ⟨_, rfl, rel.markStable _ _ _⟩
  · exact ⟨_, rfl, rel.updateLastSent _ _⟩

theorem examineNext_twin (rel : Related cmd remoteId T s.db db') (live : Option ReadData) :
    Option.Rel (Twin cmd remoteId T) (examineNext s live) (examineNext (withDb s db') live) := by
  cases pc : s.pc with
  | round p =>
    cases batch : p.batch with
    | nil =>
      simp only [examineNext, withDb_pc, pc, batch]
      exact .none
    | cons row rest =>
      simp only [examineNext, withDb_pc, pc, batch]
      have count : (withDb s db').queue.count = s.queue.count := rfl
      rw [count]
      split
      · exact .some ⟨db', rfl, rel⟩
      · exact .some (examine_twin rel p row rest live)
  | _ =>
    simp only [examineNext, withDb_pc, pc]
    exact .none

theorem examineNext_inside (h : Inside T s)
    (rows : ∀ row ∈ s.db.rows, row.remoteId = cfg.remoteId → T row.key) {live : Option ReadData}
    (hs : examineNext s live = some s') : Inside T s' := by
  unfold examineNext at hs
  split at hs
  next p round =>
    split at hs
    · cases hs
    next row rest batch =>
      split at hs
      · cases hs
        exact h.moved (by simp [Keeps])
      · cases hs
        exact step_inside h rows (by simp) (examine_inv round batch)
  · cases hs

theorem scanBlock_twin (rel : Related cmd remoteId T s.db db') {b : ReadBlock} (inside : T b.1.key)
    (version now : Int) :
    Twin cmd remoteId T (scanBlock s b version now) (scanBlock (withDb s db') b version now) := by
  have lookup := rel.lookup_eq inside
  simp only [scanBlock, withDb, ← lookup]
  split
  · exact ⟨db', rfl, rel⟩
  split
  · exact ⟨_, rfl, (rel.updateLastSent _ _).markVerified _ _⟩
  · exact ⟨db', rfl, rel⟩

theorem scanBlock_inside (h : Inside T s) {b : ReadBlock} (inside : T b.1.key) (version now : Int) :
    Inside T (scanBlock s b version now) := by
  unfold scanBlock
  split
  · exact h
  split
  · exact h.moved h.position
  · exact h.moved inside

end Systems

theorem getUnacked_unnamed {db : BlockTable}
    (unnamed : ∀ row ∈ db.rows, row.ack = false → row.remoteId ≠ "") (rows : List Row) :
    SqliteGetUnacked db "" retransmitLimit rows ↔ rows = [] := by
  have none_found : unackedRows db "" = [] := by
    refine List.filter_eq_nil_iff.mpr fun row member selected => ?_
    simp only [Bool.and_eq_true, Bool.not_eq_true', beq_iff_eq] at selected
    exact unnamed row member selected.1 selected.2
  constructor
  · intro h
    refine List.eq_nil_iff_forall_not_mem.mpr fun row member => ?_
    have found := h.1.2.1 row member
    rw [none_found] at found
    cases found
  · rintro rfl
    simp [SqliteGetUnacked, IsUnackedBatch, none_found]

theorem startVersion_congr {versions versions' : List VersionRow} {remoteId : String}
    (h : ∀ v, v.remoteId = remoteId → (v ∈ versions ↔ v ∈ versions')) :
    startVersion versions remoteId = startVersion versions' remoteId := by
  have newest : ((versions.filter fun v => v.remoteId == remoteId).map VersionRow.version).max? =
      ((versions'.filter fun v => v.remoteId == remoteId).map VersionRow.version).max? := by
    have members : ∀ n, n ∈ (versions.filter fun v => v.remoteId == remoteId).map VersionRow.version ↔
        n ∈ (versions'.filter fun v => v.remoteId == remoteId).map VersionRow.version := by
      intro n
      simp only [List.mem_map, List.mem_filter, beq_iff_eq]
      refine exists_congr fun v => and_congr_left fun _ => and_congr_left fun own => h v own
    apply Option.ext
    intro n
    rw [List.max?_eq_some_iff, List.max?_eq_some_iff]
    simp only [members]
  have next : sqliteGetNextVersion versions remoteId = sqliteGetNextVersion versions' remoteId := by
    rw [sqliteGetNextVersion, newest]
    rfl
  rw [startVersion, next]
  rfl

theorem versionStart_congr {versions versions' : List VersionRow} {remoteId : String}
    (h : ∀ v, v.remoteId = remoteId → (v ∈ versions ↔ v ∈ versions')) (version : Int) :
    ∀ v, v.remoteId = remoteId → (v ∈ sqliteVersionStart versions version remoteId ↔
      v ∈ sqliteVersionStart versions' version remoteId) := by
  intro v own
  simp only [sqliteVersionStart, List.mem_append, h v own]

structure Conform (cmd : Command) (remoteId : String) (T : Key → Prop) (c : Client)
    (db' : BlockTable) (versions' : List VersionRow) : Prop where
  rel : Related cmd remoteId T c.sys.db db'
  inside : Inside T c.sys
  todo : ∀ k ∈ c.todo, T k
  pending : c.pending = []
  versions : ∀ v, v.remoteId = remoteId → (v ∈ c.versions ↔ v ∈ versions')
  looped : c.stage = .loop → cmd = .migrate true

def Client.twin (c : Client) (db' : BlockTable) (versions' : List VersionRow) : Client :=
  { c with sys := withDb c.sys db', versions := versions' }

def Match (cmd : Command) (remoteId : String) (T : Key → Prop) (c c' : Client) : Prop :=
  ∃ db' versions', c' = c.twin db' versions' ∧ Conform cmd remoteId T c db' versions'

section Clients
variable {cmd : Command} {remoteId : String} {T : Key → Prop} {readers : List ReaderEntry}
  {c : Client} {db' : BlockTable} {versions' : List VersionRow}

theorem match_of_twin {o o' : Option Sys} {f f' : Sys → Client}
    (twin : Option.Rel (Twin cmd remoteId T) o o')
    (build : ∀ s db', o = some s → Related cmd remoteId T s.db db' →
      Match cmd remoteId T (f s) (f' (withDb s db'))) :
    Option.Rel (Match cmd remoteId T) (o.map f) (o'.map f') := by
  cases twin with
  | none => exact .none
  | some related =>
    obtain ⟨db', rfl, rel⟩ := related
    exact .some (build _ db' rfl rel)

theorem Conform.rows (h : Conform cmd remoteId T c db' versions') :
    ∀ row ∈ c.sys.db.rows, row.remoteId = (cmd.config remoteId).remoteId → T row.key := by
  rw [config_remoteId]
  exact h.rel.alike.inside

theorem Conform.stepped (h : Conform cmd remoteId T c db' versions') {s : Sys}
    (inside : Inside T s) {db'' : BlockTable} (rel : Related cmd remoteId T s.db db'') :
    Match cmd remoteId T { c with sys := s }
      { c.twin db' versions' with sys := withDb s db'' } :=
  ⟨db'', versions', rfl, rel, inside, h.todo, h.pending, h.versions, h.looped⟩

theorem sendRead_twin {s : Sys} (h : Inside T s) (rel : Related cmd remoteId T s.db db')
    (named : remoteId ≠ "") {k : Key} (key : T k) (version : Int) (read : Option ReadData) :
    Option.Rel (Twin cmd remoteId T) (sendRead (cmd.config remoteId) s k version read)
      (sendRead (cmd.config remoteId) (withDb s db') k version read) := by
  cases read with
  | some data =>
    refine step_twin (a := .sendBlock (readAs k data) version) h.position rel named ?_ (by simp)
    rintro b v ⟨⟩
    exact key
  | none =>
    cases pc : s.pc with
    | idle =>
      simp only [sendRead, withDb_pc, pc]
      exact .some ⟨db', rfl, rel⟩
    | _ =>
      simp only [sendRead, withDb_pc, pc]
      exact .none

theorem sendRead_inside {s s' : Sys} (h : Inside T s)
    (rows : ∀ row ∈ s.db.rows, row.remoteId = (cmd.config remoteId).remoteId → T row.key) {k : Key}
    (key : T k) {version : Int} {read : Option ReadData}
    (hs : sendRead (cmd.config remoteId) s k version read = some s') : Inside T s' := by
  cases read with
  | some data =>
    refine step_inside (a := .sendBlock (readAs k data) version) h rows ?_ (Migration.step_inv hs)
    rintro b v ⟨⟩
    exact key
  | none =>
    rw [FullRun.sendRead_none hs]
    exact h

theorem visitBlock_twin {s : Sys} (h : Inside T s) (rel : Related cmd remoteId T s.db db')
    (named : remoteId ≠ "") {k : Key} (key : T k) (version : Int) (read : Option ReadData) :
    Option.Rel (Twin cmd remoteId T) (visitBlock cmd remoteId s k version read)
      (visitBlock cmd remoteId (withDb s db') k version read) := by
  cases cmd with
  | migrate tailSend => exact sendRead_twin h rel named key version read
  | incsync now =>
    cases pc : s.pc with
    | idle =>
      cases read with
      | some data =>
        simp only [visitBlock, scanRead, withDb_pc, pc]
        exact .some (scanBlock_twin (b := readAs k data) rel key version now)
      | none =>
        simp only [visitBlock, scanRead, withDb_pc, pc]
        exact .some ⟨db', rfl, rel⟩
    | _ =>
      simp only [visitBlock, scanRead, withDb_pc, pc]
      exact .none

theorem visitBlock_inside {s s' : Sys} (h : Inside T s)
    (rows : ∀ row ∈ s.db.rows, row.remoteId = (cmd.config remoteId).remoteId → T row.key) {k : Key}
    (key : T k) {version : Int} {read : Option ReadData}
    (hs : visitBlock cmd remoteId s k version read = some s') : Inside T s' := by
  cases cmd with
  | migrate tailSend => exact sendRead_inside h rows key hs
  | incsync now =>
    simp only [visitBlock, scanRead] at hs
    split at hs
    next data idle =>
      cases hs
      exact scanBlock_inside (b := readAs k data) h key version now
    · cases hs
      exact h
    · cases hs

theorem lock_visit (h : Conform cmd remoteId T c db' versions') (named : remoteId ≠ "")
    (read : Option ReadData) :
    Option.Rel (Match cmd remoteId T) (step cmd remoteId readers c (.visit read))
      (step cmd remoteId readers (c.twin db' versions') (.visit read)) := by
  cases stage : c.stage with
  | transfer =>
    cases todo : c.todo with
    | nil =>
      simp only [step, Client.twin, stage, todo, h.pending]
      exact .none
    | cons k rest =>
      have key : T k := h.todo k (todo ▸ List.mem_cons_self)
      have later : ∀ k' ∈ rest, T k' := fun k' member =>
        h.todo k' (todo ▸ List.mem_cons_of_mem k member)
      simp only [step, Client.twin, stage, todo, h.pending]
      refine match_of_twin (visitBlock_twin h.inside h.rel named key _ read) fun s db'' hs rel => ?_
      exact ⟨db'', versions', rfl, rel, visitBlock_inside h.inside h.rows key hs, later, rfl,
        h.versions, by simp⟩
  | _ =>
    simp only [step, Client.twin, stage]
    exact .none

theorem lock_retransmit (h : Conform cmd remoteId T c db' versions') (rows : List Row) :
    Option.Rel (Match cmd remoteId T) (step cmd remoteId readers c (.retransmit rows))
      (step cmd remoteId readers (c.twin db' versions') (.retransmit rows)) := by
  cases cmd with
  | incsync now =>
    simp only [step]
    exact .none
  | migrate tailSend =>
    have query := getUnacked_unnamed (h.rel.unnamed rfl) rows
    have query' := getUnacked_unnamed (h.rel.unnamed' rfl) rows
    have tracker : (c.twin db' versions').sys.db = db' := rfl
    have pending' : (c.twin db' versions').pending = [] := h.pending
    have twin_pc : (c.twin db' versions').sys.pc = c.sys.pc := rfl
    cases pc : c.sys.pc with
    | idle =>
      have stage' : (c.twin db' versions').stage = c.stage := rfl
      simp only [step, h.pending, pending', twin_pc, pc, stage', tracker, query, query']
      split
      next found =>
        obtain ⟨-, rfl⟩ := found
        exact .some ⟨db', versions', rfl, h.rel, h.inside, h.todo, rfl, h.versions, h.looped⟩
      · exact .none
    | _ =>
      simp only [step, h.pending, pending', twin_pc, pc]
      exact .none

theorem lock_perform (h : Conform cmd remoteId T c db' versions') (named : remoteId ≠ "")
    (a : Migration.Action) :
    Option.Rel (Match cmd remoteId T) (step cmd remoteId readers c (.perform a))
      (step cmd remoteId readers (c.twin db' versions') (.perform a)) := by
  simp only [step]
  split
  next inside =>
    have enters : ∀ b version, a = .sendBlock b version → T b.1.key := by
      rintro b version rfl
      cases inside
    have no_row : ∀ live, a ≠ .examine live := by
      rintro live rfl
      cases inside
    refine match_of_twin (step_twin h.inside.position h.rel named enters no_row)
      fun s db'' hs rel => ?_
    exact h.stepped (step_inside h.inside h.rows enters (Migration.step_inv hs)) rel
  · exact .none

theorem lock_startLoop (h : Conform cmd remoteId T c db' versions') :
    Option.Rel (Match cmd remoteId T) (step cmd remoteId readers c .startLoop)
      (step cmd remoteId readers (c.twin db' versions') .startLoop) := by
  have version := startVersion_congr h.versions
  have twin_pc : (c.twin db' versions').sys.pc = c.sys.pc := rfl
  simp only [step, twin_pc]
  simp only [Client.twin, ← version]
  split
  next stage pending todo pc =>
    split
    next tail =>
      exact .some ⟨db', _, rfl, h.rel, h.inside, h.todo, h.pending, versionStart_congr h.versions _,
        fun _ => tail⟩
    · exact .none
  · exact .none

theorem lock_beginRound (h : Conform cmd remoteId T c db' versions') (named : remoteId ≠ "")
    (batch : List Row) (now : Int) :
    Option.Rel (Match cmd remoteId T) (step cmd remoteId readers c (.beginRound batch now))
      (step cmd remoteId readers (c.twin db' versions') (.beginRound batch now)) := by
  have pending' : (c.twin db' versions').pending = [] := h.pending
  have stage' : (c.twin db' versions').stage = c.stage := rfl
  cases cmd with
  | incsync clock =>
    simp only [step]
    exact .none
  | migrate tailSend =>
    simp only [step, h.pending, pending', stage']
    split
    · exact .none
    · have enters : ∀ b version, Action.beginRound batch now c.incVersion = .sendBlock b version →
          T b.1.key := by simp
      refine match_of_twin (step_twin h.inside.position h.rel named enters (by simp))
        fun s db'' hs rel => ?_
      exact ⟨db'', versions', by rw [Client.twin, Client.twin, h.pending], rel,
        step_inside h.inside h.rows enters (Migration.step_inv hs), h.todo, rfl, h.versions, h.looped⟩

theorem lock_examine (h : Conform cmd remoteId T c db' versions') (live : Option ReadData) :
    Option.Rel (Match cmd remoteId T) (step cmd remoteId readers c (.examine live))
      (step cmd remoteId readers (c.twin db' versions') (.examine live)) := by
  refine match_of_twin (examineNext_twin h.rel live) fun s db'' hs rel => ?_
  exact h.stepped (examineNext_inside h.inside h.rows hs) rel

theorem endRound_twin (h : Conform cmd remoteId T c db' versions') (p : Progress)
    (acquired : Bool) :
    Match cmd remoteId T (endRound remoteId c p acquired)
      (endRound remoteId (c.twin db' versions') p acquired) := by
  have inside : Inside T { c.sys with pc := .idle } := h.inside.moved trivial
  by_cases loop : c.stage = .loop
  · have same := h.rel.shouldFinish_eq (h.looped loop) p.requeued c.incVersion c.zeroChangeRounds
      c.incRound
    have tracker : (c.twin db' versions').sys.db = db' := rfl
    have stage' : (c.twin db' versions').stage = .loop := loop
    simp only [endRound, if_pos loop, if_pos stage', tracker]
    simp only [Client.twin, ← same]
    split
    · refine ⟨db', versions', rfl, h.rel, inside, h.todo, h.pending, h.versions, fun _ => ?_⟩
      exact h.looped loop
    · exact ⟨db', _, rfl, h.rel, inside, h.todo, h.pending, versionStart_congr h.versions _, h.looped⟩
  · have stage' : (c.twin db' versions').stage ≠ .loop := loop
    simp only [endRound, if_neg loop, if_neg stage']
    exact ⟨db', versions', rfl, h.rel, inside, h.todo, h.pending, h.versions, h.looped⟩

theorem lock_endRound (h : Conform cmd remoteId T c db' versions') (acquired : Bool) :
    Option.Rel (Match cmd remoteId T) (step cmd remoteId readers c (.endRound acquired))
      (step cmd remoteId readers (c.twin db' versions') (.endRound acquired)) := by
  have twin_pc : (c.twin db' versions').sys.pc = c.sys.pc := rfl
  cases pc : c.sys.pc with
  | round p =>
    simp only [step, twin_pc, pc]
    split
    · exact .some (endRound_twin h p acquired)
    · exact .none
  | _ =>
    simp only [step, twin_pc, pc]
    exact .none

/-- Two matching clients queue the same block at every event, and go on matching. -/
theorem lock_step (named : remoteId ≠ "") (c c' : Client) (e : Event)
    (h : Match cmd remoteId T c c') : queued c e = queued c' e ∧
      Option.Rel (Match cmd remoteId T) (step cmd remoteId readers c e)
        (step cmd remoteId readers c' e) := by
  obtain ⟨db', versions', rfl, conform⟩ := h
  refine ⟨rfl, ?_⟩
  cases e with
  | visit read => exact lock_visit conform named read
  | retransmit rows => exact lock_retransmit conform rows
  | next read =>
    have pending' : (c.twin db' versions').pending = [] := conform.pending
    simp only [step, Retransmit.step, conform.pending, pending']
    exact .none
  | perform a => exact lock_perform conform named a
  | startLoop => exact lock_startLoop conform
  | beginRound batch now => exact lock_beginRound conform named batch now
  | examine live => exact lock_examine conform live
  | endRound acquired => exact lock_endRound conform acquired

end Clients

/-- The rows of other remotes keep out of the way of a run over `plan`: they have none of
its keys, for do_migrate none of them is unacknowledged and without a remote id, and for
do_migrate with TailSend both trackers have as many. -/
structure Separate (cmd : Command) (remoteId : String) (plan : List Key) (db db' : BlockTable) :
    Prop where
  apart : ∀ row ∈ db.rows ++ db'.rows, row.remoteId ≠ remoteId → row.key ∉ plan
  unnamed : cmd.migrates = true → ∀ row ∈ db.rows ++ db'.rows, row.ack = false → row.remoteId ≠ ""
  total : cmd = .migrate true → db.rows.length = db'.rows.length

def Handled (remoteId : String) (plan : List Key) (db : BlockTable) (k : Key) : Prop :=
  k ∈ plan ∨ ∃ row ∈ db.rows, row.remoteId = remoteId ∧ row.key = k

theorem owned_of_handled {remoteId : String} {plan : List Key} {db table : BlockTable}
    (apart : ∀ row ∈ table.rows, row.remoteId ≠ remoteId → row.key ∉ plan)
    (own : ∀ row ∈ db.rows, row.remoteId = remoteId → row ∈ table.rows) :
    ∀ row ∈ table.rows, Handled remoteId plan db row.key → row.remoteId = remoteId := by
  intro row member handled
  rcases handled with planned | ⟨other, other_member, mine, key⟩
  · by_contra foreign
    exact apart row member foreign planned
  · rwa [← List.inj_on_of_nodup_map table.unique (own other other_member mine) member key]

theorem related_of_separate {cmd : Command} {remoteId : String} {plan : List Key}
    {db db' : BlockTable}
    (own : ∀ row, row.remoteId = remoteId → (row ∈ db.rows ↔ row ∈ db'.rows))
    (separate : Separate cmd remoteId plan db db') :
    Related cmd remoteId (Handled remoteId plan db) db db' where
  alike := by
    refine ⟨own, fun row member mine => .inr ⟨row, member, mine, rfl⟩, ?_, ?_⟩
    · exact owned_of_handled (fun row member => separate.apart row (List.mem_append_left _ member))
        fun _ member _ => member
    · exact owned_of_handled (fun row member => separate.apart row (List.mem_append_right _ member))
        fun other member mine => (own other mine).mp member
  total := separate.total
  unnamed migrates row member := separate.unnamed migrates row (List.mem_append_left _ member)
  unnamed' migrates row member := separate.unnamed migrates row (List.mem_append_right _ member)

theorem match_start {cmd : Command} {remoteId : String} {plan : List Key} {db db' : BlockTable}
    {versions versions' : List VersionRow}
    (rel : Related cmd remoteId (Handled remoteId plan db) db db')
    (own : ∀ v, v.remoteId = remoteId → (v ∈ versions ↔ v ∈ versions')) (w : Writer) :
    Match cmd remoteId (Handled remoteId plan db) (start cmd remoteId db versions w plan)
      (start cmd remoteId db' versions' w plan) := by
  have inside : Inside (Handled remoteId plan db) (resumed db w) :=
    ⟨carries_resumed db w, by simp [resumed, init], trivial⟩
  have version := startVersion_congr own
  cases cmd with
  | migrate tailSend =>
    exact ⟨db', versions', rfl, rel, inside, fun _ => .inl, rfl, own, by simp [start]⟩
  | incsync now =>
    simp only [start, ← version]
    exact ⟨db', _, rfl, rel, inside, fun _ => .inl, rfl, versionStart_congr own _, by simp⟩

/-- do_migrate in both modes and cmd_incsync against one receiver, on two trackers with
the same rows of that receiver in T_BLOCK and T_VERSION: if the rows of the others keep
out of the way, the same events queue the same sequence of blocks. -/
theorem remotes_independent (cmd : Command) (serverIp : String) (serverPort : Nat)
    (readers : List ReaderEntry) (plan : List Key) (w : Writer) (db db' : BlockTable)
    (versions versions' : List VersionRow)
    (own : ∀ row, row.remoteId = remoteIdOf serverIp serverPort → (row ∈ db.rows ↔ row ∈ db'.rows))
    (ownVersions : ∀ v, v.remoteId = remoteIdOf serverIp serverPort →
      (v ∈ versions ↔ v ∈ versions'))
    (separate : Separate cmd (remoteIdOf serverIp serverPort) plan db db') (events : List Event) :
    trace (step cmd (remoteIdOf serverIp serverPort) readers) queued
        (start cmd (remoteIdOf serverIp serverPort) db versions w plan) events =
      trace (step cmd (remoteIdOf serverIp serverPort) readers) queued
        (start cmd (remoteIdOf serverIp serverPort) db' versions' w plan) events := by
  have rel := related_of_separate own separate
  have named := Retransmit.remoteIdOf_ne_empty serverIp serverPort
  exact (lockstep (fun c c' e => lock_step named c c' e) (match_start rel ownVersions w) events).1

def foreignDb (k : Key) : BlockTable :=
  -- a row of another receiver, acknowledged there
  sqliteBlockUpsertV Keyed.empty "10.0.0.2:3400" k 3 0 true 0

def queueEvents : List Event := [.visit (some blockRead), .perform (.push true 0)]

theorem remotes_independent_other_blocks :
    trace (step (.migrate true) (remoteIdOf "10.0.0.1" 3400) []) queued
        (start (.migrate true) (remoteIdOf "10.0.0.1" 3400) (foreignDb (1, 0)) [] blankWriter [(0, 0)])
        queueEvents = [⟨0, 0, [1, 2, 3]⟩] ∧
      trace (step (.migrate true) (remoteIdOf "10.0.0.1" 3400) []) queued
          (start (.migrate true) (remoteIdOf "10.0.0.1" 3400) (foreignDb (1, 0)) [] blankWriter
            [(0, 0)]) queueEvents =
        trace (step (.migrate true) (remoteIdOf "10.0.0.1" 3400) []) queued
          (start (.migrate true) (remoteIdOf "10.0.0.1" 3400) (foreignDb (0, 0x100000))
            [⟨7, "10.0.0.2:3400"⟩] blankWriter [(0, 0)]) queueEvents := by
  have foreign : ∀ row ∈ (foreignDb (1, 0)).rows ++ (foreignDb (0, 0x100000)).rows,
      row.remoteId ≠ remoteIdOf "10.0.0.1" 3400 ∧ row.key ∉ [(0, 0)] ∧ row.ack = true := by
    decide +kernel
  have separate : Separate (.migrate true) (remoteIdOf "10.0.0.1" 3400) [(0, 0)] (foreignDb (1, 0))
      (foreignDb (0, 0x100000)) :=
    ⟨fun row member _ => (foreign row member).2.1, fun _ row member unacked => by
      simp [(foreign row member).2.2] at unacked, fun _ => by decide +kernel⟩
  have version : "10.0.0.2:3400" ≠ remoteIdOf "10.0.0.1" 3400 := by decide +kernel
  refine ⟨by decide +kernel, ?_⟩
  refine remotes_independent (.migrate true) "10.0.0.1" 3400 [] [(0, 0)] blankWriter (foreignDb (1, 0))
    (foreignDb (0, 0x100000)) [] [⟨7, "10.0.0.2:3400"⟩] ?_ ?_ separate queueEvents
  · intro row mine
    constructor
    · exact fun member => absurd mine (foreign row (List.mem_append_left _ member)).1
    · exact fun member => absurd mine (foreign row (List.mem_append_right _ member)).1
  · rintro v mine
    simp only [List.not_mem_nil, List.mem_singleton, false_iff]
    rintro rfl
    exact version mine

/-- The other receiver has acknowledged the block, so a migration to this one skips it:
after the visit the transfer loop is through and nothing is left to push. -/
theorem foreign_row_hides_block :
    (∀ row ∈ (foreignDb (0, 0)).rows, row.remoteId ≠ remoteIdOf "10.0.0.1" 3400) ∧
    trace (step (.migrate false) (remoteIdOf "10.0.0.1" 3400) []) queued
      (start (.migrate false) (remoteIdOf "10.0.0.1" 3400) Keyed.empty [] blankWriter [(0, 0)])
      queueEvents = [⟨0, 0, [1, 2, 3]⟩] ∧
    trace (step (.migrate false) (remoteIdOf "10.0.0.1" 3400) []) queued
      (start (.migrate false) (remoteIdOf "10.0.0.1" 3400) (foreignDb (0, 0)) [] blankWriter [(0, 0)])
      queueEvents = [] ∧
    ∃ c ∈ run (step (.migrate false) (remoteIdOf "10.0.0.1" 3400) [])
        (start (.migrate false) (remoteIdOf "10.0.0.1" 3400) (foreignDb (0, 0)) [] blankWriter [(0, 0)])
        (queueEvents.take 1),
      c.todo = [] ∧ AckVersion.pushedBlock c.sys.pc = none := by
  decide +kernel

end Go2Cloud.Remotes
