import Go2Cloud.Migration.FullSyncRows

/-! The full sync and the incremental rounds hash the same bytes (send_block and
do_incremental_round in client/main.c): one reads a snapshot from the start of its volume
and stops at its end, the other the drive at the absolute offset. -/
namespace Go2Cloud.NoResend
open Protocol Reader Tracker BlockWriter Round Mirror Transition ReaderTable BlockBounds TailLoop
open FullSyncRows Keyed
open Retransmit (diskOffset)

/-- The live readers are drives, and a snapshot exposes bytes of its disk. -/
structure Live (drives : Drives) (volumes : List (Volume × Opening)) : Prop where
  live : ∀ x ∈ volumes, x.2.live = true
  inside : ∀ x ∈ volumes, ∀ size ∈ x.2.vss,
    x.1.partitionOffset + size ≤ drives.size x.1.devno

variable {drives : Drives} {opens : Fin maxTargetDisks → Bool} {volumes : List (Volume × Opening)}
  {src : Source} {remoteId : String}

theorem data_eq (src : Source) {r : BlockRead} (right : r.Right) :
    r.data src = ByteStore.read (src r.key.1) (diskOffset r.key) (length r) := by
  obtain ⟨device, address⟩ := Prod.mk.inj right
  simp only [BlockRead.data, blockReaderRead, Handle.open, ByteStore.read, length, device, ← address,
    Nat.add_assoc]

theorem Live.entry (h : Live drives volumes) {e : Entry} (member : e ∈ readers drives true volumes) :
    e.live = some (drives.handle e.devno) ∧
      e.reader.base + e.reader.size ≤ drives.size e.devno := by
  obtain ⟨x, listed, opened⟩ := List.mem_filterMap.mp member
  obtain ⟨⟨r, vss⟩, primary, rfl⟩ := Option.map_eq_some_iff.mp opened
  refine ⟨by simp [openLive, h.live x listed], ?_⟩
  rcases openPrimary_spec primary with ⟨-, size, snapshot, rfl⟩ | ⟨-, rfl⟩
  · exact h.inside x listed size snapshot
  · simp [Drives.handle]

theorem Live.read_disk (h : Live drives volumes) {k : Key} {r : BlockRead}
    (read : roundRead (readers drives true volumes) k = some r) :
    r.Right ∧ r.key = k ∧ ∃ d : Fin maxTargetDisks, Int32.ofInt d.val = k.1 ∧
      length r = min blockSize (drives.size d - diskOffset k) := by
  obtain ⟨e, found, rfl⟩ := Option.map_eq_some_iff.mp read
  obtain ⟨entry, device, -⟩ := findEntry_spec found
  have valid : ∀ e ∈ readers drives true volumes, e.Valid drives := fun e => valid_of_mem_readers
  refine ⟨(roundRead_right_iff valid found).mpr ?_, rfl, e.devno, device, ?_⟩
  · rw [(h.entry entry).1]
    rfl
  · rw [(h.entry entry).1, Option.getD_some, length_eq (drives.handle_lt e.devno)]
    rfl

theorem Live.planned (h : Live drives volumes) {r : BlockRead}
    (member : r ∈ plan drives opens (readers drives true volumes)) :
    r.Right ∧ ∃ d : Fin maxTargetDisks, Int32.ofInt d.val = r.key.1 ∧
      length r = min blockSize (drives.size d - diskOffset r.key) := by
  have valid : ∀ e ∈ readers drives true volumes, e.Valid drives := fun e => valid_of_mem_readers
  rcases List.mem_append.mp member with main | gpt
  · obtain ⟨e, entry, read⟩ := List.mem_flatMap.mp main
    have right := mainReads_right (valid e entry) read
    refine ⟨right, ?_⟩
    obtain ⟨blk, hb, rfl⟩ := List.mem_map.mp read
    have fit := transferBlocks_inside (List.mem_range.mp hb)
    have inside := (h.entry entry).2
    have address : e.reader.base + (blockRead e blk).offset = diskOffset (blockRead e blk).key :=
      (Prod.mk.inj right).2
    have size := (valid e entry).reader_size
    have block : 0 < blockSize := by decide
    have tracked : diskOffset (blockRead e blk).key = e.partitionOffset + blk * blockSize :=
      diskOffset_keyAt _ (by omega)
    refine ⟨e.devno, rfl, ?_⟩
    rw [tracked] at address ⊢
    have handle : (blockRead e blk).handle = e.reader := rfl
    rw [length_eq (by rw [handle]; omega), handle, Nat.min_eq_left (by omega),
      Nat.min_eq_left (by omega)]
  · obtain ⟨d, -, read⟩ := (mem_gptReads valid).mp gpt
    have size := drives.size_lt d
    refine ⟨gptBlockReads_right read, d, ?_⟩
    obtain ⟨offset, small, rfl⟩ := mem_gptBlockReads read
    rw [length_eq (drives.handle_lt d), diskOffset_keyAt d (by omega)]
    exact ⟨rfl, rfl⟩

/-- The full sync and a round read the same bytes for a block. -/
theorem Live.same_data (h : Live drives volumes) (src : Source) {r r' : BlockRead}
    (member : r ∈ plan drives opens (readers drives true volumes))
    (read : roundRead (readers drives true volumes) r.key = some r') :
    r.data src = r'.data src := by
  obtain ⟨right, d, device, len⟩ := h.planned member
  obtain ⟨right', key, d', device', len'⟩ := h.read_disk read
  obtain rfl : d = d' := devno_injective (device.trans device'.symm)
  rw [data_eq src right, data_eq src right', key, len, len']

/-- What a step can do to the rows: keep one, with its remote, or send its block. -/
theorem step_rows {s s' : State} {a : Action} (h : step remoteId s a = some s') {row : Row}
    (member : row ∈ s'.db.rows) :
    (∃ old ∈ s.db.rows, row.key = old.key ∧ row.remoteId = old.remoteId ∧
      (row.ack = false → old.ack = false)) ∨
      row.remoteId = remoteId ∧ ∃ version, .sent row.key version ∈ marks s a := by
  have touched : ∀ {k : Key} {now : Int} {row : Row}, row ∈ (sqliteUpdateLastSent s.db k now).rows →
      ∃ old ∈ s.db.rows, row.key = old.key ∧ row.remoteId = old.remoteId ∧
        (row.ack = false → old.ack = false) := by
    intro k now row member
    obtain ⟨old, kept, same, ack, -⟩ := mem_updateLastSent member
    exact ⟨old, kept, same.key, same.remoteId, fun unacked => ack ▸ unacked⟩
  cases step_turn h with
  | @send again k read pushed sends =>
    simp only [sendBlock] at member
    cases sent : sentHash s.db k read pushed with
    | none =>
      rw [sent] at member
      exact .inl ⟨row, member, rfl, rfl, id⟩
    | some data =>
      rw [sent] at member
      rcases mem_upsert member with rfl | ⟨kept, -⟩
      · exact .inr ⟨rfl, s.version, by simp [marks, sent, Row.key]⟩
      · exact .inl ⟨row, kept, rfl, rfl, id⟩
  | startLoop phase positive => exact .inl ⟨row, member, rfl, rfl, id⟩
  | beginRound selected => exact .inl ⟨row, member, rfl, rfl, id⟩
  | @examine queueCount live pushed later p looked rest phase batch =>
    simp only [examineDb] at member
    simp only [marks, phase, batch, examineMarks]
    cases decision : examineRow p.now queueCount looked live with
    | unchanged =>
      rw [decision] at member
      obtain ⟨old, kept, marked⟩ := mem_markStable member
      refine .inl ⟨old, kept, marked.key, marked.remoteId, fun unacked => ?_⟩
      rcases marked.mark with ⟨ack, -⟩ | ⟨-, ack, -⟩
      · exact ack ▸ unacked
      · rw [ack] at unacked
        cases unacked
    | changed data =>
      rw [decision] at member
      cases pushed with
      | false => exact .inl (touched member)
      | true =>
        rcases mem_recordResent member with rfl | ⟨kept, -⟩
        · exact .inr ⟨rfl, p.version, List.mem_singleton_self _⟩
        · exact .inl (touched kept)
    | cooldown => rw [decision] at member; exact .inl ⟨row, member, rfl, rfl, id⟩
    | backpressure => rw [decision] at member; exact .inl ⟨row, member, rfl, rfl, id⟩
    | unread => rw [decision] at member; exact .inl ⟨row, member, rfl, rfl, id⟩
  | endRound phase ended =>
    rw [endRound_db] at member
    exact .inl ⟨row, member, rfl, rfl, id⟩

theorem sends_again {s : State} {k : Key} (h : Sends s true k) :
    k ∈ (unackedRows s.db "").map Row.key := by
  unfold Sends at h
  split at h
  · exact h rfl
  · exact h.2
  · exact h.elim

theorem get_examineDb_self {db : BlockTable} {p : Progress} {looked row : Row} {queueCount : Nat}
    {live : Option ReadData} {pushed : Bool} {later : Int}
    (found : get db looked.key = some row) (remote : row.remoteId = remoteId) :
    ∃ row', get (examineDb remoteId db p looked queueCount live pushed later) looked.key =
      some row' ∧ row'.remoteId = remoteId ∧ (row'.hash = row.hash ∨ ∃ data,
        examineRow p.now queueCount looked live = .changed data ∧
          row'.hash = blockHash looked.offset data.1) := by
  -- the row of a looked-at block keeps its remote, and its hash unless the block is sent again
  have key : row.key = looked.key := ((get_eq_some_iff db).mp found).2
  unfold examineDb
  split
  · rw [get_markStable, found, Option.map_some, if_pos key]
    exact ⟨_, rfl, remote, .inl rfl⟩
  next data decision =>
    split
    · have resent : Block.key ⟨looked.devno, looked.offset, data.1⟩ = looked.key := rfl
      rw [get_recordResent, if_pos resent]
      exact ⟨_, rfl, rfl, .inr ⟨data, decision, rfl⟩⟩
    · rw [get_updateLastSent, found, Option.map_some, if_pos key]
      exact ⟨_, rfl, remote, .inl rfl⟩
  · exact ⟨row, found, remote, .inl rfl⟩

def Unchanging (src : Source) (r : BlockRead) (data : ReadData) : Prop := data = readData src r

def Current (entries : List Entry) (src : Source) (k : Key) (hash : UInt64) : Prop :=
  ∀ r, roundRead entries k = some r → r.data src ≠ [] ∧ hash = blockHash k.2 (r.data src)

def Steady (remoteId : String) (entries : List Entry) (src : Source) (seen : List Key) (s : State) :
    Prop :=
  Open remoteId s ∧ ∀ k ∈ seen, ∃ row, get s.db k = some row ∧ row.remoteId = remoteId ∧
    Current entries src k row.hash

theorem Steady.step (h : Live drives volumes) (named : remoteId ≠ "") {seen : List Key}
    {s s' : State} {a : Action} (inv : Steady remoteId (readers drives true volumes) src seen s)
    (returns : Returns drives opens (readers drives true volumes) (Unchanging src) s a)
    (next : step remoteId s a = some s') :
    Steady remoteId (readers drives true volumes) src (seen ++ inserted s a) s' := by
  refine ⟨step_open inv.1 next, fun k member => ?_⟩
  by_cases new : k ∈ inserted s a
  · -- the row just inserted has the hash of the full sync's read
    obtain ⟨r, planned, rfl, data, rfl, nonempty, pushed, rfl⟩ := inserted_read new returns
    obtain ⟨_, _, data, same, sent⟩ := inserted_eq new
    cases same
    obtain ⟨read, -⟩ := sentHash_eq_some sent
    obtain rfl : readData src r = data := Option.some.inj read
    cases step_turn next with
    | send sends =>
      refine ⟨_, get_sendBlock_sent sent, rfl, fun r' read' => ?_⟩
      rw [← h.same_data src planned read']
      exact ⟨nonempty, congrArg (blockHash r.key.2) (readData_val src r)⟩
  have old : k ∈ seen := (List.mem_append.mp member).resolve_right new
  obtain ⟨row, found, remote, current⟩ := inv.2 k old
  cases step_turn next with
  | @send again k' read pushed sends =>
    refine ⟨row, ?_, remote, current⟩
    by_cases same : k' = k
    · subst same
      cases again with
      | false =>
        -- nothing was inserted
        have unsent : sentHash s.db k' read pushed = none := by
          rw [← Option.not_isSome_iff_eq_none]
          intro sent
          exact new (by simp [inserted, sent])
        simp only [sendBlock, unsent]
        exact found
      | true =>
        -- do_retransmit only looks at rows of another remote
        obtain ⟨other, listed, key⟩ := List.mem_map.mp (sends_again sends)
        obtain ⟨found', -, empty⟩ := mem_unackedRows.mp listed
        rw [key, found] at found'
        cases found'
        exact absurd (remote.symm.trans empty) named
    · rw [get_sendBlock_of_ne same, found]
  | startLoop phase positive => exact ⟨row, found, remote, current⟩
  | beginRound selected => exact ⟨row, found, remote, current⟩
  | @examine queueCount live pushed later p looked rest phase batch =>
    by_cases same : k = looked.key
    · subst same
      obtain ⟨row', found', remote', same | ⟨data, decision, hash⟩⟩ := get_examineDb_self found remote
      · exact ⟨row', found', remote', same ▸ current⟩
      · refine ⟨row', found', remote', fun r read => ?_⟩
        obtain ⟨rfl, nonempty, -⟩ := examineRow_changed decision
        obtain ⟨r', read', rfl⟩ := returns p looked rest phase batch data rfl
        obtain rfl : r = r' := Option.some.inj (read.symm.trans read')
        rw [readData_val] at nonempty hash
        exact ⟨nonempty, hash⟩
    · exact ⟨row, by rw [get_examineDb_of_ne same, found], remote, current⟩
  | endRound phase ended => exact ⟨row, by rw [endRound_db, found], remote, current⟩

def OnlyInserted (remoteId : String) (seen : List Key) (s : State) : Prop :=
  Open remoteId s ∧ unackedRows s.db "" = [] ∧ ∀ row ∈ unackedRows s.db remoteId, row.key ∈ seen

theorem OnlyInserted.step (named : remoteId ≠ "") {seen : List Key} {s s' : State} {a : Action}
    (inv : OnlyInserted remoteId seen s) (next : step remoteId s a = some s') :
    OnlyInserted remoteId (seen ++ inserted s a) s' := by
  obtain ⟨opened, none_left, known⟩ := inv
  have old_rows : ∀ {row : Row}, row ∈ unackedRows s'.db "" → False := by
    intro row member
    obtain ⟨found, unacked, remote⟩ := mem_unackedRows.mp member
    rcases step_rows next ((get_eq_some_iff s'.db).mp found).1 with
      ⟨old, kept, key, same, still⟩ | ⟨sent, -⟩
    · have listed : old ∈ unackedRows s.db "" :=
        mem_unackedRows.mpr ⟨(get_eq_some_iff s.db).mpr ⟨kept, rfl⟩, still unacked,
          same.symm.trans remote⟩
      rw [none_left] at listed
      cases listed
    · exact named (sent.symm.trans remote)
  refine ⟨step_open opened next, List.eq_nil_iff_forall_not_mem.mpr fun row => old_rows,
    fun row member => ?_⟩
  rw [List.mem_append]
  obtain ⟨found, unacked, remote⟩ := mem_unackedRows.mp member
  rcases step_rows next ((get_eq_some_iff s'.db).mp found).1 with
    ⟨old, kept, key, same, still⟩ | ⟨-, version, sent⟩
  · left
    rw [key]
    exact known old (mem_unackedRows.mpr ⟨(get_eq_some_iff s.db).mpr ⟨kept, rfl⟩, still unacked,
      same.symm.trans remote⟩)
  · cases step_turn next with
    | @send again k read pushed sends =>
      simp only [marks] at sent
      split at sent
      next isSent =>
        obtain ⟨key, -⟩ := Mark.sent.inj (List.mem_singleton.mp sent)
        cases again with
        | false => exact .inr (by simp [inserted, isSent, key])
        | true =>
          have listed := sends_again sends
          rw [none_left] at listed
          cases listed
      · cases sent
    | startLoop phase positive => cases sent
    | beginRound selected => cases sent
    | @examine queueCount live pushed later p looked rest phase batch =>
      left
      have key : row.key = looked.key := by
        simp only [marks, phase, batch, examineMarks] at sent
        split at sent
        · simp at sent
        · split at sent
          · exact (Mark.sent.inj (List.mem_singleton.mp sent)).1
          · cases sent
        · cases sent
      obtain ⟨r, found', unacked', remote', -⟩ := (opened p phase).2 looked (by simp [batch])
      have same : r.key = looked.key := ((get_eq_some_iff s.db).mp found').2
      rw [key, ← same]
      exact known r (mem_unackedRows.mpr ⟨by rw [same]; exact found', unacked', remote'⟩)
    | endRound phase ended => cases sent

theorem OnlyInserted.batch {seen : List Key} {s : State} (inv : OnlyInserted remoteId seen s)
    {p : Progress} (phase : s.phase = .round p) {row : Row} (member : row ∈ p.batch) :
    row.key ∈ seen := by
  obtain ⟨r, found, unacked, remote, -⟩ := (inv.1 p phase).2 row member
  have key : r.key = row.key := ((get_eq_some_iff s.db).mp found).2
  rw [← key]
  exact inv.2.2 r (mem_unackedRows.mpr ⟨by rw [key]; exact found, unacked, remote⟩)

theorem examine_current {s s' : State} {p : Progress} {row : Row} {rest : List Row}
    {queueCount : Nat} {read : Option ReadData} {pushed : Bool} {later : Int}
    {entries : List Entry} (opened : Open remoteId s) (phase : s.phase = .round p)
    (batch : p.batch = row :: rest)
    (next : TailLoop.step remoteId s (.examine queueCount read pushed later) = some s')
    (returns : ∀ data, read = some data →
      ∃ r, roundRead entries row.key = some r ∧ Unchanging src r data)
    (current : Current entries src row.key row.hash) :
    (∀ data, examineRow p.now queueCount row read ≠ .changed data) ∧
      (examineRow p.now queueCount row read = .cooldown ∨
        examineRow p.now queueCount row read = .backpressure ∨ read = none ∨
        sqliteBlockAcked s'.db row.key = some true) := by
  have same : ∀ data, read = some data → data.1 ≠ [] ∧ row.hash = blockHash row.offset data.1 := by
    rintro data rfl
    obtain ⟨r, found, rfl⟩ := returns data rfl
    exact current r found
  cases decision : examineRow p.now queueCount row read with
  | cooldown => exact ⟨by simp, .inl rfl⟩
  | backpressure => exact ⟨by simp, .inr (.inl rfl)⟩
  | unread =>
    refine ⟨by simp, .inr (.inr (.inl ?_))⟩
    rw [Option.eq_none_iff_forall_ne_some]
    intro data here
    exact (same data here).1 (examineRow_unread decision data here)
  | unchanged =>
    refine ⟨by simp, .inr (.inr (.inr (step_verified opened next ?_)))⟩
    simp [marks, phase, batch, examineMarks, decision]
  | changed data =>
    obtain ⟨here, -, other⟩ := examineRow_changed decision
    exact absurd (same data here).2.symm other

/-- A round over an unchanged source sends no row that the full sync inserted: a row it
does not pass over, and whose read does not fail, is found unchanged and acknowledged. On
a tracker without unacknowledged rows at the start this holds for all its rows. -/
theorem no_spurious_resend (drives : Drives) (opens : Fin maxTargetDisks → Bool)
    (volumes : List (Volume × Opening)) (live : Live drives volumes) (src : Source)
    (remoteId : String) (named : remoteId ≠ "") (db : BlockTable) (actions : List Action)
    (s s' : State) (p : Progress) (row : Row) (rest : List Row) (queueCount : Nat)
    (read : Option ReadData) (pushed : Bool) (later : Int)
    (migrates : Migrates drives opens (readers drives true volumes) (Unchanging src) remoteId db
      (actions ++ [.examine queueCount read pushed later]))
    (reached : run (step remoteId) (start db) actions = some s)
    (phase : s.phase = .round p) (batch : p.batch = row :: rest)
    (next : step remoteId s (.examine queueCount read pushed later) = some s')
    (of_sync : row.key ∈ trace (step remoteId) inserted (start db) actions ∨
      unackedRows db remoteId = [] ∧ unackedRows db "" = []) :
    (∀ data, examineRow p.now queueCount row read ≠ .changed data) ∧
      (examineRow p.now queueCount row read = .cooldown ∨
        examineRow p.now queueCount row read = .backpressure ∨ read = none ∨
        sqliteBlockAcked s'.db row.key = some true) := by
  obtain ⟨before, here⟩ := meets_append.mp migrates.returns
  have returns := (here s reached).1
  have steady : Steady remoteId (readers drives true volumes) src
      ([] ++ trace (step remoteId) inserted (start db) actions) s :=
    run_invariant_trace (fun _ _ _ _ inv returns next => inv.step live named returns next) reached
      before ⟨open_start db, by simp⟩
  have known : row.key ∈ trace (step remoteId) inserted (start db) actions := by
    rcases of_sync with known | ⟨fresh, none_left⟩
    · exact known
    · have only : OnlyInserted remoteId
          ([] ++ trace (step remoteId) inserted (start db) actions) s :=
        run_invariant_trace (fun _ _ _ _ inv _ next => inv.step named next) reached before
          ⟨open_start db, none_left, by simp [start, fresh]⟩
      exact only.batch phase (by simp [batch])
  obtain ⟨r, found, -, -, hash⟩ := (steady.1 p phase).2 row (by simp [batch])
  obtain ⟨r', found', -, current⟩ := steady.2 row.key known
  obtain rfl : r = r' := Option.some.inj (found.symm.trans found')
  rw [hash] at current
  exact examine_current steady.1 phase batch next (returns p row rest phase batch) current

/-- A disk of four blocks with a partition of two from the second one on, which the full sync
reads from a snapshot. -/
def vssDrives : Drives := ⟨fun _ => 4 * blockSize, fun _ => fourBlocks_lt⟩

theorem twoBlocks_lt : ∀ size ∈ some (2 * blockSize), size < 2 ^ 63 := by decide

def vssVolumes : List (Volume × Opening) :=
  [(⟨0, blockSize, 2 * blockSize, true, blockSize_lt, twoBlocks_lt _ rfl⟩,
    ⟨some (2 * blockSize), true, true, twoBlocks_lt⟩)]

def vssRead : BlockRead := ⟨⟨0, blockSize, 2 * blockSize⟩, 0, keyAt 0 blockSize⟩

def liveRead : BlockRead := ⟨vssDrives.handle 0, blockSize, keyAt 0 blockSize⟩

theorem vss_live : Live vssDrives vssVolumes :=
  ⟨by simp [vssVolumes], by simp [vssVolumes, vssDrives, blockSize]⟩

theorem vssRead_planned :
    vssRead ∈ plan vssDrives (fun _ => true) (readers vssDrives true vssVolumes) := by
  decide +kernel

theorem liveRead_found :
    roundRead (readers vssDrives true vssVolumes) vssRead.key = some liveRead := by
  decide +kernel

def vssRow (data : ReadData) : Row :=
  ⟨0, 1048576, Int32.ofInt data.1.length, blockHash 1048576 data.1, false, 0, 0, "10.0.0.1:3400"⟩

def vssActions (data : ReadData) : List Action :=
  -- the block is sent, and a round begins
  [.send false vssRead.key (some data) true, .beginRound [vssRow data] 0]

def vssState (data : ReadData) : State :=
  ⟨put Keyed.empty (vssRow data), .round ⟨[vssRow data], 0, 0, 0⟩, 0, 0, 1⟩

theorem vssActions_run {data : ReadData} (nonempty : data.1 ≠ []) :
    run (step "10.0.0.1:3400") (start Keyed.empty) (vssActions data) = some (vssState data) ∧
      vssRead.key ∈ trace (step "10.0.0.1:3400") inserted (start Keyed.empty) (vssActions data) := by
  have sent : sentHash Keyed.empty vssRead.key (some data) true = some data :=
    sentHash_fresh nonempty rfl
  have stored : sendBlock "10.0.0.1:3400" 0 Keyed.empty vssRead.key (some data) true =
      put Keyed.empty (vssRow data) := by
    rw [sendBlock, sent]
    rfl
  have unacked : unackedRows (put Keyed.empty (vssRow data)) "10.0.0.1:3400" = [vssRow data] := rfl
  have batch : IsUnackedBatch (put Keyed.empty (vssRow data)) "10.0.0.1:3400" roundLimit
      [vssRow data] := by
    simp [IsUnackedBatch, unacked, roundLimit]
  constructor
  · simp [vssActions, run, step, Sends, start, TailLoop.beginRound, vssState, stored, batch]
  · simp [vssActions, trace, inserted, step, Sends, start, sent]

theorem vss_migrates {src : Source} {data live : ReadData} (read : Unchanging src vssRead data)
    (later : Unchanging src liveRead live) (nonempty : data.1 ≠ []) :
    Migrates vssDrives (fun _ => true) (readers vssDrives true vssVolumes) (Unchanging src)
      "10.0.0.1:3400" Keyed.empty (vssActions data ++ [.examine 0 (some live) true 0]) where
  order := by
    have sent : (vssActions data ++ [Action.examine 0 (some live) true 0]).filterMap transferred =
        [vssRead.key] := rfl
    rw [sent]
    decide +kernel
  returns := by
    refine meets_append.mpr ⟨⟨⟨vssRead, vssRead_planned, rfl, ?_⟩, fun _ _ =>
      ⟨trivial, fun _ _ => trivial⟩⟩, fun t reached => ⟨?_, fun _ _ => trivial⟩⟩
    · rintro _ ⟨⟩
      exact read
    · rw [(vssActions_run nonempty).1] at reached
      cases reached
      rintro p row rest ⟨⟩ ⟨⟩ _ ⟨⟩
      exact ⟨liveRead, liveRead_found, later⟩
  completes := by
    rw [run_append, (vssActions_run nonempty).1]
    rfl

/-- The round reads the drive where the full sync read the snapshot. -/
theorem no_spurious_resend_vss :
    ∃ data live s', Unchanging (fun _ x => UInt8.ofNat x) vssRead data ∧
      Unchanging (fun _ x => UInt8.ofNat x) liveRead live ∧
      step "10.0.0.1:3400" (vssState data) (.examine 0 (some live) true 0) = some s' ∧
      vssRead.key ∈ trace (step "10.0.0.1:3400") inserted (start Keyed.empty) (vssActions data) ∧
      (∀ other, examineRow 0 0 (vssRow data) (some live) ≠ .changed other) ∧
      sqliteBlockAcked s'.db (vssRow data).key = some true := by
  obtain ⟨data, read⟩ : ∃ data, Unchanging (fun _ x => UInt8.ofNat x) vssRead data := ⟨_, rfl⟩
  obtain ⟨live, later⟩ : ∃ live, Unchanging (fun _ x => UInt8.ofNat x) liveRead live := ⟨_, rfl⟩
  have nonempty : data.1 ≠ [] := by
    rw [read, readData_val, data_ne_nil_iff, length_pos_iff (by decide)]
    decide
  obtain ⟨runs, known⟩ := vssActions_run nonempty
  refine ⟨data, live, _, read, later, rfl, known, ?_⟩
  obtain ⟨unchanged, cooling | busy | failed | acked⟩ :=
    no_spurious_resend vssDrives (fun _ => true) vssVolumes vss_live (fun _ x => UInt8.ofNat x)
      "10.0.0.1:3400" (by decide) Keyed.empty (vssActions data) (vssState data) _
      ⟨[vssRow data], 0, 0, 0⟩ (vssRow data) [] 0 (some live) true 0
      (vss_migrates read later nonempty) runs rfl rfl rfl (.inl known)
  · exact absurd ((examineRow_cooldown_iff ..).mp cooling) (not_not.mpr (.inl le_rfl))
  · exact absurd (examineRow_backpressure busy) (by decide)
  · cases failed
  · exact ⟨unchanged, acked⟩

end Go2Cloud.NoResend
