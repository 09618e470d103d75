import Go2Cloud.Migration.IncrementalLoop

/-! do_migrate under TailSend as its tracker sees it (client/main.c): send_block in the
transfer loop, the GPT step and do_retransmit, incremental rounds and the end of the
incremental loop, from any tracker and with anything the reads may return. The unacknowledged
rows are a ledger of what was last sent and not verified since. -/
namespace Go2Cloud.TailLoop
open Protocol Reader Tracker Round Transition Keyed
open IncrementalLoop (Phase)

structure State where
  db : BlockTable
  phase : Phase
  version : Int
  zeroChangeRounds : Nat
  incRound : Nat

def start (db : BlockTable) : State := ⟨db, .full, 0, 0, 0⟩

/-- `send` is one call of send_block, `again` in do_retransmit. `pushed` tells whether
the encoding and the push succeed; a round that g_running breaks off acts like one that
meets a long queue. -/
inductive Action where
  | send (again : Bool) (k : Key) (read : Option ReadData) (pushed : Bool)
  | startLoop (version : Int)
  | beginRound (batch : List Row) (now : Int)
  | examine (queueCount : Nat) (live : Option ReadData) (pushed : Bool) (later : Int)
  | endRound (acquired : Bool)

def sentHash (db : BlockTable) (k : Key) (read : Option ReadData) (pushed : Bool) : Option ReadData :=
  -- the hash send_block records, if it gets to the end
  match read with
  | none => none
  | some data =>
    if data.1 = [] then none
    else if sqliteBlockAcked db k = some true then none
    else if sqliteBlockLookup db k = some (blockHash k.2 data.1) then none
    else if pushed then some data
    else none

def sendBlock (remoteId : String) (version : Int) (db : BlockTable) (k : Key)
    (read : Option ReadData) (pushed : Bool) : BlockTable :=
  match sentHash db k read pushed with
  | none => db
  | some data =>
    sqliteBlockUpsertV db remoteId k (Int32.ofInt data.1.length) (blockHash k.2 data.1) false version

/-- do_retransmit looks for rows of the empty remote id, in the full sync and in the loop. -/
def Sends (s : State) (again : Bool) (k : Key) : Prop :=
  match s.phase with
  | .full => again = true → k ∈ (unackedRows s.db "").map Row.key
  | .loop => again = true ∧ k ∈ (unackedRows s.db "").map Row.key
  | _ => False

instance (s : State) (again : Bool) (k : Key) : Decidable (Sends s again k) := by
  unfold Sends
  split <;> infer_instance

def beginRound (remoteId : String) (s : State) (batch : List Row) (now version : Int) :
    Option State :=
  if IsUnackedBatch s.db remoteId roundLimit batch then
    some { s with phase := .round ⟨batch, now, version, 0⟩, incRound := s.incRound + 1 }
  else none

def examineDb (remoteId : String) (db : BlockTable) (p : Progress) (row : Row) (queueCount : Nat)
    (live : Option ReadData) (pushed : Bool) (later : Int) : BlockTable :=
  match examineRow p.now queueCount row live with
  | .unchanged => markStable db row.key p.version p.now
  | .changed data =>
    let touched := sqliteUpdateLastSent db row.key p.now
    if pushed then
      recordResent touched remoteId ⟨row.devno, row.offset, data.1⟩ (blockHash row.offset data.1)
        p.version later
    else touched
  | _ => db

def examineProgress (p : Progress) (row : Row) (rest : List Row) (queueCount : Nat)
    (live : Option ReadData) (pushed : Bool) : Progress :=
  match examineRow p.now queueCount row live with
  | .backpressure => { p with batch := [] }
  | .changed _ => { p with batch := rest, requeued := p.requeued + if pushed then 1 else 0 }
  | _ => { p with batch := rest }

def finishes (remoteId : String) (s : State) : Option Finish :=
  -- what should_finish answers at the end of a round of the loop
  match s.phase with
  | .round p =>
    if p.batch = [] ∧ p.version > 0 then
      (shouldFinish s.db remoteId p.requeued p.version s.zeroChangeRounds s.incRound).1
    else none
  | _ => none

def endRound (remoteId : String) (s : State) (p : Progress) (acquired : Bool) : State :=
  if p.version > 0 then
    match shouldFinish s.db remoteId p.requeued p.version s.zeroChangeRounds s.incRound with
    | (some why, zeroRounds) =>
      { s with phase := if acquired then .done why else .loop, zeroChangeRounds := zeroRounds }
    | (none, zeroRounds) =>
      { s with phase := .loop, zeroChangeRounds := zeroRounds, version := s.version + 1 }
  else { s with phase := .full }

def step (remoteId : String) (s : State) : Action → Option State
  | .send again k read pushed =>
    if Sends s again k then
      some { s with db := sendBlock remoteId s.version s.db k read pushed }
    else none
  | .startLoop version =>
    match s.phase with
    | .full =>
      if 1 ≤ version then some { s with phase := .loop, version := version, zeroChangeRounds := 0 }
      else none
    | _ => none
  | .beginRound batch now =>
    match s.phase with
    | .full => beginRound remoteId s batch now 0
    | .loop => beginRound remoteId s batch now s.version
    | _ => none
  | .examine queueCount live pushed later =>
    match s.phase with
    | .round p =>
      match p.batch with
      | [] => none
      | row :: rest =>
        some { s with
          db := examineDb remoteId s.db p row queueCount live pushed later
          phase := .round (examineProgress p row rest queueCount live pushed) }
    | _ => none
  | .endRound acquired =>
    match s.phase with
    | .round p => if p.batch = [] then some (endRound remoteId s p acquired) else none
    | _ => none

inductive Mark where
  | sent (k : Key) (version : Int)
  | verified (k : Key)
  deriving DecidableEq, Repr

def examineMarks (p : Progress) (row : Row) (queueCount : Nat) (live : Option ReadData)
    (pushed : Bool) : List Mark :=
  match examineRow p.now queueCount row live with
  | .unchanged => [.verified row.key]
  | .changed _ => if pushed then [.sent row.key p.version] else []
  | _ => []

def marks (s : State) : Action → List Mark
  | .send _ k read pushed => if (sentHash s.db k read pushed).isSome then [.sent k s.version] else []
  | .examine queueCount live pushed _ =>
    match s.phase with
    | .round p =>
      match p.batch with
      | [] => []
      | row :: _ => examineMarks p row queueCount live pushed
    | _ => []
  | _ => []

/-- A block's entry in the ledger: the version it was last sent under, while it has not
been verified since. -/
def note (k : Key) (entry : Option Int) : Mark → Option Int
  | .sent k' version => if k' = k then some version else entry
  | .verified k' => if k' = k then none else entry

def unackedVersion (remoteId : String) (db : BlockTable) (k : Key) : Option Int :=
  ((get db k).filter fun row => !row.ack && row.remoteId == remoteId).map Row.version

def ledger (remoteId : String) (db : BlockTable) (actions : List Action) (k : Key) : Option Int :=
  (trace (step remoteId) marks (start db) actions).foldl (note k) (unackedVersion remoteId db k)

inductive Turn (remoteId : String) (s : State) : Action → State → Prop
  | send {again : Bool} {k : Key} {read : Option ReadData} {pushed : Bool} (sends : Sends s again k) :
    Turn remoteId s (.send again k read pushed)
      { s with db := sendBlock remoteId s.version s.db k read pushed }
  | startLoop {version : Int} (phase : s.phase = .full) (positive : 1 ≤ version) :
    Turn remoteId s (.startLoop version)
      { s with phase := .loop, version := version, zeroChangeRounds := 0 }
  | beginRound {batch : List Row} {now version : Int}
    (selected : IsUnackedBatch s.db remoteId roundLimit batch) :
    Turn remoteId s (.beginRound batch now)
      { s with phase := .round ⟨batch, now, version, 0⟩, incRound := s.incRound + 1 }
  | examine {queueCount : Nat} {live : Option ReadData} {pushed : Bool} {later : Int} {p : Progress}
    {row : Row} {rest : List Row} (phase : s.phase = .round p) (batch : p.batch = row :: rest) :
    Turn remoteId s (.examine queueCount live pushed later)
      { s with
        db := examineDb remoteId s.db p row queueCount live pushed later
        phase := .round (examineProgress p row rest queueCount live pushed) }
  | endRound {acquired : Bool} {p : Progress} (phase : s.phase = .round p) (ended : p.batch = []) :
    Turn remoteId s (.endRound acquired) (endRound remoteId s p acquired)

variable {remoteId : String} {s s' : State} {a : Action}

theorem step_turn (h : step remoteId s a = some s') : Turn remoteId s a s' := by
  cases a with
  | send again k read pushed =>
    simp only [step] at h
    split at h
    next sends =>
      cases h
      exact .send sends
    · cases h
  | startLoop version =>
    simp only [step] at h
    split at h
    next phase =>
      split at h
      next positive =>
        cases h
        exact .startLoop phase positive
      · cases h
    · cases h
  | beginRound batch now =>
    have begins : ∀ {version : Int}, beginRound remoteId s batch now version = some s' →
        Turn remoteId s (.beginRound batch now) s' := by
      intro version h
      unfold beginRound at h
      split at h
      next selected =>
        cases h
        exact .beginRound selected
      · cases h
    simp only [step] at h
    split at h
    · exact begins h
    · exact begins h
    · cases h
  | examine queueCount live pushed later =>
    simp only [step] at h
    split at h
    next p phase =>
      split at h
      · cases h
      next row rest batch =>
        cases h
        exact .examine phase batch
    · cases h
  | endRound acquired =>
    simp only [step] at h
    split at h
    next p phase =>
      split at h
      next ended =>
        cases h
        exact .endRound phase ended
      · cases h
    · cases h

theorem endRound_db (remoteId : String) (s : State) (p : Progress) (acquired : Bool) :
    (endRound remoteId s p acquired).db = s.db := by
  unfold endRound
  split
  · split <;> rfl
  · rfl

section Ledger
variable (remoteId) (db : BlockTable) (k k' : Key) (version now : Int)

theorem unackedVersion_markStable :
    unackedVersion remoteId (markStable db k version now) k' =
      note k' (unackedVersion remoteId db k') (.verified k) := by
  rw [unackedVersion, get_markStable, unackedVersion]
  cases found : get db k' with
  | none => simp [note]
  | some r =>
    have key : r.key = k' := ((get_eq_some_iff db).mp found).2
    by_cases same : k = k'
    · simp [note, key, same]
    · simp [note, key, Ne.symm same, same]

theorem unackedVersion_updateLastSent :
    unackedVersion remoteId (sqliteUpdateLastSent db k now) k' = unackedVersion remoteId db k' := by
  rw [unackedVersion, get_updateLastSent, unackedVersion]
  cases get db k' with
  | none => rfl
  | some r =>
    by_cases here : r.key = k
    · simp only [Option.map_some, if_pos here, Option.filter_some]
      split <;> rfl
    · simp only [Option.map_some, if_neg here]

theorem unackedVersion_recordResent (b : Block) (hash : UInt64) :
    unackedVersion remoteId (recordResent db remoteId b hash version now) k' =
      note k' (unackedVersion remoteId db k') (.sent b.key version) := by
  rw [unackedVersion, get_recordResent, note, unackedVersion]
  split
  · simp
  · rfl

theorem unackedVersion_upsert (size : Int32) (hash : UInt64) :
    unackedVersion remoteId (sqliteBlockUpsertV db remoteId k size hash false version) k' =
      note k' (unackedVersion remoteId db k') (.sent k version) := by
  rw [unackedVersion, get_upsert, note, unackedVersion]
  split
  · simp
  · rfl

end Ledger

theorem mem_unackedRows {db : BlockTable} {row : Row} :
    row ∈ unackedRows db remoteId ↔
      get db row.key = some row ∧ row.ack = false ∧ row.remoteId = remoteId := by
  simp [unackedRows, get_eq_some_iff]

theorem unackedVersion_eq_some {db : BlockTable} {k : Key} {version : Int} :
    unackedVersion remoteId db k = some version ↔
      ∃ row ∈ unackedRows db remoteId, row.key = k ∧ row.version = version := by
  simp only [unackedVersion, Option.map_eq_some_iff, Option.filter_eq_some_iff, mem_unackedRows]
  constructor
  · rintro ⟨row, ⟨found, open_row⟩, rfl⟩
    obtain rfl : row.key = k := ((get_eq_some_iff db).mp found).2
    exact ⟨row, ⟨found, by simpa using open_row⟩, rfl, rfl⟩
  · rintro ⟨row, ⟨found, open_row⟩, rfl, rfl⟩
    exact ⟨row, ⟨found, by simpa using open_row⟩, rfl⟩

theorem step_ledger (h : step remoteId s a = some s') (k : Key) :
    unackedVersion remoteId s'.db k =
      (marks s a).foldl (note k) (unackedVersion remoteId s.db k) := by
  cases step_turn h with
  | @send again key read pushed sends =>
    simp only [marks, sendBlock]
    cases sentHash s.db key read pushed with
    | none => rfl
    | some data => exact unackedVersion_upsert ..
  | startLoop phase positive => rfl
  | beginRound selected => rfl
  | @examine queueCount live pushed later p row rest phase batch =>
    simp only [marks, phase, batch, examineDb, examineMarks]
    cases examineRow p.now queueCount row live with
    | unchanged => exact unackedVersion_markStable ..
    | changed data =>
      cases pushed with
      | true =>
        simp only [if_true, List.foldl_cons, List.foldl_nil]
        rw [unackedVersion_recordResent, unackedVersion_updateLastSent]
        rfl
      | false => exact unackedVersion_updateLastSent ..
    | cooldown => rfl
    | backpressure => rfl
    | unread => rfl
  | endRound phase ended => rw [endRound_db]; rfl

def Agrees (remoteId : String) (db : BlockTable) (seen : List Mark) (s : State) : Prop :=
  ∀ k, unackedVersion remoteId s.db k = seen.foldl (note k) (unackedVersion remoteId db k)

/-- Over every run the tracker and the ledger agree on what is unacknowledged. -/
theorem run_ledger {db : BlockTable} {actions : List Action}
    (h : run (step remoteId) (start db) actions = some s) (k : Key) :
    unackedVersion remoteId s.db k = ledger remoteId db actions k := by
  have always : Meets (step remoteId) (fun _ _ => True) (start db) actions :=
    meets_of_forall _ fun _ _ _ => trivial
  have agrees : Agrees remoteId db ([] ++ trace (step remoteId) marks (start db) actions) s := by
    refine run_invariant_trace (fun seen s a s' same _ next k => ?_) h always fun k => rfl
    rw [step_ledger next k, same k, List.foldl_append]
  exact agrees k

theorem finishes_some {why : Finish} (h : finishes remoteId s = some why) :
    ∃ p zeroRounds, s.phase = .round p ∧ p.batch = [] ∧ 0 < p.version ∧
      shouldFinish s.db remoteId p.requeued p.version s.zeroChangeRounds s.incRound =
        (some why, zeroRounds) := by
  unfold finishes at h
  split at h
  next p phase =>
    split at h
    next ended => exact ⟨p, _, phase, ended.1, ended.2, Prod.ext h rfl⟩
    · cases h
  · cases h

def Open (remoteId : String) (s : State) : Prop :=
  ∀ p, s.phase = .round p → (p.batch.map Row.key).Nodup ∧ ∀ row ∈ p.batch, ∃ r,
    get s.db row.key = some r ∧ r.ack = false ∧ r.remoteId = remoteId ∧ r.hash = row.hash

theorem open_start (db : BlockTable) : Open remoteId (start db) := by
  rintro p ⟨⟩

theorem get_examineDb_of_ne {db : BlockTable} {p : Progress} {row : Row} {queueCount : Nat}
    {live : Option ReadData} {pushed : Bool} {later : Int} {k : Key} (other : k ≠ row.key) :
    get (examineDb remoteId db p row queueCount live pushed later) k = get db k := by
  have touched : get (sqliteUpdateLastSent db row.key p.now) k = get db k := by
    rw [get_updateLastSent]
    exact map_get_of_ne db other _
  unfold examineDb
  split
  · rw [get_markStable]
    exact map_get_of_ne db other _
  next data _ =>
    split
    · have resent : ¬ Block.key ⟨row.devno, row.offset, data.1⟩ = k := Ne.symm other
      rw [get_recordResent, if_neg resent, touched]
    · exact touched
  · rfl

theorem examineProgress_batch (p : Progress) (row : Row) (rest : List Row) (queueCount : Nat)
    (live : Option ReadData) (pushed : Bool) :
    (examineProgress p row rest queueCount live pushed).batch <:+ rest := by
  unfold examineProgress
  split
  · exact List.nil_suffix
  · exact List.suffix_refl _
  · exact List.suffix_refl _

theorem endRound_phase (remoteId : String) (s : State) (p q : Progress) (acquired : Bool) :
    (endRound remoteId s p acquired).phase ≠ .round q := by
  unfold endRound
  split
  · split
    · cases acquired <;> simp
    · simp
  · simp

theorem step_open (inv : Open remoteId s) (h : step remoteId s a = some s') :
    Open remoteId s' := by
  cases step_turn h with
  | send sends =>
    intro p phase
    have phase' : s.phase = .round p := phase
    simp only [Sends, phase'] at sends
  | startLoop phase positive => rintro p ⟨⟩
  | beginRound selected =>
    rintro p ⟨⟩
    refine ⟨selected.selected.1, fun row member => ?_⟩
    obtain ⟨found, unacked, remote⟩ := mem_unackedRows.mp (selected.2.1 row member)
    exact ⟨row, found, unacked, remote, rfl⟩
  | @examine queueCount live pushed later p row rest phase batch =>
    rintro q ⟨⟩
    obtain ⟨distinct, rows⟩ := inv p phase
    rw [batch, List.map_cons, List.nodup_cons] at distinct
    have suffix := examineProgress_batch p row rest queueCount live pushed
    refine ⟨distinct.2.sublist (suffix.sublist.map _), fun other member => ?_⟩
    have in_rest := suffix.subset member
    obtain ⟨r, found, unacked, remote, hash⟩ := rows other (by simp [batch, in_rest])
    refine ⟨r, ?_, unacked, remote, hash⟩
    rw [get_examineDb_of_ne, found]
    intro same
    exact distinct.1 (same ▸ List.mem_map_of_mem in_rest)
  | endRound phase ended =>
    intro q phase'
    exact (endRound_phase remoteId s _ q _ phase').elim

theorem acked_sendBlock {db : BlockTable} {version : Int} {k k' : Key} {read : Option ReadData}
    {pushed : Bool} (acked : sqliteBlockAcked db k = some true) :
    sqliteBlockAcked (sendBlock remoteId version db k' read pushed) k = some true := by
  unfold sendBlock
  split
  · exact acked
  next data sent =>
    have other : k' ≠ k := by
      rintro rfl
      unfold sentHash at sent
      split at sent
      · cases sent
      · rw [acked] at sent
        simp at sent
    rw [sqliteBlockAcked, get_upsert, if_neg other]
    exact acked

theorem step_acked (inv : Open remoteId s) (h : step remoteId s a = some s') {k : Key}
    (acked : sqliteBlockAcked s.db k = some true) : sqliteBlockAcked s'.db k = some true := by
  cases step_turn h with
  | send sends => exact acked_sendBlock acked
  | startLoop phase positive => exact acked
  | beginRound selected => exact acked
  | @examine queueCount live pushed later p row rest phase batch =>
    have other : k ≠ row.key := by
      rintro rfl
      obtain ⟨r, found, unacked, -⟩ := (inv p phase).2 row (by simp [batch])
      rw [sqliteBlockAcked, found, Option.map_some, unacked] at acked
      cases acked
    simp only [sqliteBlockAcked, get_examineDb_of_ne other]
    exact acked
  | endRound phase ended =>
    rw [endRound_db]
    exact acked

theorem step_verified (inv : Open remoteId s) (h : step remoteId s a = some s') {k : Key}
    (verified : .verified k ∈ marks s a) : sqliteBlockAcked s'.db k = some true := by
  cases step_turn h with
  | @send again key read pushed sends =>
    simp only [marks] at verified
    split at verified <;> simp at verified
  | startLoop phase positive => cases verified
  | beginRound selected => cases verified
  | @examine queueCount live pushed later p row rest phase batch =>
    obtain ⟨r, found, -⟩ := (inv p phase).2 row (by simp [batch])
    have key : r.key = row.key := ((get_eq_some_iff s.db).mp found).2
    simp only [marks, phase, batch, examineMarks] at verified
    simp only [examineDb]
    cases decision : examineRow p.now queueCount row live with
    | unchanged =>
      rw [decision] at verified
      obtain rfl : k = row.key := by simpa using verified
      simp only [sqliteBlockAcked, get_markStable, found, Option.map_some, if_pos key]
    | changed data =>
      rw [decision] at verified
      cases pushed <;> simp at verified
    | cooldown => simp [decision] at verified
    | backpressure => simp [decision] at verified
    | unread => simp [decision] at verified
  | endRound phase ended => cases verified

section ChangingSource
open IncrementalLoop (readData readBlock)

def tracker (s : IncrementalLoop.State) : State :=
  ⟨s.db, s.phase, s.version, s.zeroChangeRounds, s.incRound⟩

def tracked (s : IncrementalLoop.State) : IncrementalLoop.Action → List Action
  | .sourceWrite _ _ _ => []
  | .sendBlock vss k n => [.send false k (some (readData (if vss then s.snapshot else s.live) k n)) true]
  | .startLoop version => [.startLoop version]
  | .beginRound batch now => [.beginRound batch now]
  | .examine queueCount n later =>
    match s.phase with
    | .round p => p.batch.head?.toList.map fun row =>
        .examine queueCount (n.map (readData s.live row.key)) true later
    | _ => []
  | .endRound acquired => [.endRound acquired]

theorem tracker_sendRead (s : IncrementalLoop.State) (src : Mirror.Source) (k : Key)
    (n : IncrementalLoop.Len) (seen : Nat) :
    tracker (IncrementalLoop.sendRead remoteId s (readBlock src k n) seen) =
      { tracker s with
        db := sendBlock remoteId s.version s.db k (some (readData src k n)) true } := by
  have data : (readBlock src k n).data = (readData src k n).1 := rfl
  have key : (readBlock src k n).key = k := rfl
  have hash : History.hashOf (readBlock src k n) = blockHash k.2 (readData src k n).1 := rfl
  simp only [IncrementalLoop.sendRead, data, key, hash, sendBlock, sentHash]
  split_ifs <;> rfl

theorem tracker_examine (s : IncrementalLoop.State) (p : Progress) (row : Row) (rest : List Row)
    (queueCount : Nat) (n : Option IncrementalLoop.Len) (later : Int) :
    tracker (IncrementalLoop.examine remoteId s p row rest queueCount n later) =
      { tracker s with
        db := examineDb remoteId s.db p row queueCount (n.map (readData s.live row.key)) true later
        phase := .round
          (examineProgress p row rest queueCount (n.map (readData s.live row.key)) true) } := by
  simp only [IncrementalLoop.examine, examineDb, examineProgress]
  cases examineRow p.now queueCount row (n.map (readData s.live row.key)) <;> rfl

theorem tracker_endRound (s : IncrementalLoop.State) (p : Progress) (acquired : Bool) :
    tracker (IncrementalLoop.endRound remoteId s p acquired) =
      endRound remoteId (tracker s) p acquired := by
  simp only [IncrementalLoop.endRound, endRound, tracker]
  split
  · obtain ⟨_ | why, zeroRounds⟩ :=
      shouldFinish s.db remoteId p.requeued p.version s.zeroChangeRounds s.incRound
    · rfl
    · rfl
  · rfl

theorem tracker_beginRound {s s' : IncrementalLoop.State} {batch : List Row} {now version : Int}
    (h : IncrementalLoop.beginRound remoteId s batch now version = some s') :
    beginRound remoteId (tracker s) batch now version = some (tracker s') := by
  unfold IncrementalLoop.beginRound at h
  split at h
  next selected =>
    cases h
    exact if_pos selected
  · cases h

theorem tracker_step {s s' : IncrementalLoop.State} {a : IncrementalLoop.Action}
    (h : IncrementalLoop.step remoteId s a = some s') :
    run (step remoteId) (tracker s) (tracked s a) = some (tracker s') := by
  have same : (tracker s).phase = s.phase := rfl
  cases IncrementalLoop.step_turn h with
  | sourceWrite => rfl
  | @sendBlock vss k n full =>
    have sends : Sends (tracker s) false k := by simp [Sends, same, full]
    simp only [tracked, run, step, if_pos sends, Option.bind_some]
    cases vss <;> exact congrArg some (tracker_sendRead ..).symm
  | startLoop full positive =>
    simp only [tracked, run, step, same, full, if_pos positive, Option.bind_some]
    rfl
  | @beginRound batch now version _ opens begins =>
    rcases opens with ⟨full, rfl⟩ | ⟨loop, rfl⟩
    · simp only [tracked, run, step, same, full, tracker_beginRound begins, Option.bind_some]
    · have begun : beginRound remoteId (tracker s) batch now (tracker s).version = _ :=
        tracker_beginRound begins
      simp only [tracked, run, step, same, loop, begun, Option.bind_some]
  | examine round batch =>
    simp only [tracked, round, batch, List.head?_cons, Option.toList_some, List.map_cons,
      List.map_nil, run, step, same, Option.bind_some]
    exact congrArg some (tracker_examine ..).symm
  | endRound round ended =>
    simp only [tracked, run, step, same, round, if_pos ended, Option.bind_some]
    exact congrArg some (tracker_endRound ..).symm

/-- The runs of the loop, whatever is written to the source, are runs of the tracker. -/
theorem tracker_run {s s' : IncrementalLoop.State} {actions : List IncrementalLoop.Action}
    (h : run (IncrementalLoop.step remoteId) s actions = some s') :
    run (step remoteId) (tracker s)
      (trace (IncrementalLoop.step remoteId) tracked s actions) = some (tracker s') :=
  run_simulates (fun _ _ _ => tracker_step) h

end ChangingSource

end Go2Cloud.TailLoop
