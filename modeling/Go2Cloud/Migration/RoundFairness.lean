import Go2Cloud.Lib.Table
import Go2Cloud.Migration.TailLoop

/-! How long an unacknowledged block waits in the incremental loop. do_incremental_round takes the
4096 rows with the oldest last_sent. A row it reads again is done with or goes to the end of the
line; a row without a reader, or one that cannot be read, keeps its place. Fewer than 4096 such
rows delay a block by a known number of rounds, 4096 of them keep it out for good. -/
namespace Go2Cloud.RoundFairness
open Protocol Reader Tracker Round Transition Keyed TailLoop
open IncrementalLoop (Phase)

def readable (live : Option ReadData) : Bool := live.any fun data => data.1 ≠ []

def Decision.compares : Decision → Bool
  | .unchanged => true
  | .changed _ => true
  | _ => false

inductive Event where
  -- `refused` is an end of the loop for which timer_cb_real got no connection
  | sent
  | began
  | ended
  | refused
  | compared (k : Key)
  deriving DecidableEq, Repr

def events (s : State) : Action → List Event
  | .send .. => [.sent]
  | .beginRound .. => [.began]
  | .endRound acquired => if acquired then [.ended] else [.ended, .refused]
  | .examine queueCount live _ _ =>
    match s.phase with
    | .round p =>
      match p.batch with
      | [] => []
      | row :: _ =>
        if Decision.compares (examineRow p.now queueCount row live) then [.compared row.key] else []
    | _ => []
  | _ => []

def inFront (remoteId : String) (r x : Row) : Bool :=
  !x.ack && x.remoteId == remoteId && x.key != r.key && x.before r

def ahead (remoteId : String) (r : Row) (db : BlockTable) : Nat :=
  db.rows.countP (inFront remoteId r)

def Examinable (dead : List Key) (queueCount : Nat) (live : Option ReadData) (later : Int) :
    Phase → Prop
  | .round p =>
    queueCount ≤ 9 ∧ p.now ≤ later ∧ (readable live = true ∨ ∀ row ∈ p.batch.head?, row.key ∈ dead)
  | _ => True

instance (dead : List Key) (queueCount : Nat) (live : Option ReadData) (later : Int) :
    (phase : Phase) → Decidable (Examinable dead queueCount live later phase)
  | .round _ => inferInstanceAs (Decidable (_ ∧ _ ∧ (_ ∨ _)))
  | .full => isTrue trivial
  | .loop => isTrue trivial
  | .done _ => isTrue trivial

/-- Rounds come after the cooldown of `r`, meet no long queue, and can read all but the blocks
of `dead`. -/
def Undisturbed (r : Row) (dead : List Key) (s : State) : Action → Prop
  | .beginRound _ now => 0 < now ∧ Rested r now
  | .examine queueCount live _ later => Examinable dead queueCount live later s.phase
  | _ => True

instance (r : Row) (dead : List Key) (s : State) : (a : Action) → Decidable (Undisturbed r dead s a)
  | .beginRound _ _ => inferInstanceAs (Decidable (_ ∧ _))
  | .examine queueCount live _ later =>
    inferInstanceAs (Decidable (Examinable dead queueCount live later s.phase))
  | .send .. => isTrue trivial
  | .startLoop _ => isTrue trivial
  | .endRound _ => isTrue trivial

section Line
variable {remoteId : String} {r x row : Row} {db : BlockTable} {p : Progress} {now : Int}

theorem selects_batch {batch : List Row} {limit : Nat} (h : IsUnackedBatch db remoteId limit batch) :
    Selects Row.before limit (unackedRows db remoteId) batch :=
  ⟨h.1, h.2.1, h.2.2.1, h.2.2.2⟩

theorem compares_of_rested (h : Rested row now) {queueCount : Nat} (short : queueCount ≤ 9)
    {live : Option ReadData} (reads : readable live = true) :
    Decision.compares (examineRow now queueCount row live) = true := by
  cases live with
  | none => cases reads
  | some data =>
    have nonempty : data.1 ≠ [] := by simpa [readable] using reads
    have finished : ¬ (row.lastSent > 0 ∧ now - row.lastSent < retransmitMinIntervalSec * 1000) := by
      unfold Rested at h
      omega
    unfold examineRow
    rw [if_neg finished, if_neg (by omega)]
    simp only [if_neg nonempty]
    split <;> rfl

theorem not_compares_of_unreadable {queueCount : Nat} {live : Option ReadData}
    (unread : readable live = false) :
    Decision.compares (examineRow now queueCount row live) = false := by
  have empty : ∀ data, live = some data → data.1 = [] := by
    rintro data rfl
    simpa [readable] using unread
  unfold examineRow
  split
  · rfl
  split
  · rfl
  cases live with
  | none => rfl
  | some data => simp [empty data rfl, Decision.compares]

theorem examineDb_of_not_compares {queueCount : Nat} {live : Option ReadData} {pushed : Bool}
    {later : Int} (h : Decision.compares (examineRow p.now queueCount row live) = false) :
    examineDb remoteId db p row queueCount live pushed later = db := by
  unfold examineDb
  cases decision : examineRow p.now queueCount row live with
  | unchanged => rw [decision] at h; cases h
  | changed data => rw [decision] at h; cases h
  | _ => rfl

theorem get_examineDb_of_compares (remoteId : String) {queueCount : Nat} {live : Option ReadData}
    (pushed : Bool) {later : Int} (h : Decision.compares (examineRow p.now queueCount row live) = true)
    (found : get db row.key = some x) (clock : p.now ≤ later) :
    ∃ y, get (examineDb remoteId db p row queueCount live pushed later) row.key = some y ∧
      (y.ack = true ∨ p.now ≤ y.lastSent) := by
  have key : x.key = row.key := ((get_eq_some_iff db).mp found).2
  unfold examineDb
  cases decision : examineRow p.now queueCount row live with
  | unchanged =>
    rw [get_markStable, found, Option.map_some, if_pos key]
    exact ⟨_, rfl, .inl rfl⟩
  | changed data =>
    cases pushed with
    | true =>
      have here : Block.key ⟨row.devno, row.offset, data.1⟩ = row.key := rfl
      simp only [if_true]
      rw [get_recordResent, if_pos here]
      exact ⟨_, rfl, .inr clock⟩
    | false =>
      simp only [Bool.false_eq_true, if_false]
      rw [get_updateLastSent, found, Option.map_some, if_pos key]
      exact ⟨_, rfl, .inr le_rfl⟩
  | _ => rw [decision] at h; cases h

theorem not_inFront (late : r.lastSent < now) (h : x.ack = true ∨ now ≤ x.lastSent) :
    inFront remoteId r x = false := by
  rcases h with acked | stamped
  · simp [inFront, acked]
  · have behind : x.before r = false := by
      simp only [Row.before, Bool.or_eq_false_iff, Bool.and_eq_false_iff, decide_eq_false_iff_not,
        beq_eq_false_iff_ne]
      omega
    simp [inFront, behind]

/-- Looking at another row never lengthens the line, and a row of the line that is compared
leaves it. -/
theorem ahead_examineDb (remoteId : String) (queueCount : Nat) (live : Option ReadData)
    (pushed : Bool) {later : Int} (late : r.lastSent < p.now) (clock : p.now ≤ later)
    (found : get db row.key = some row) :
    ahead remoteId r (examineDb remoteId db p row queueCount live pushed later) +
        (if Decision.compares (examineRow p.now queueCount row live) ∧ inFront remoteId r row then 1
          else 0) =
      ahead remoteId r db := by
  by_cases compared : Decision.compares (examineRow p.now queueCount row live) = true
  · obtain ⟨y, after, gone⟩ := get_examineDb_of_compares remoteId pushed compared found clock
    have counts := countP_rows db (examineDb remoteId db p row queueCount live pushed later) row.key
      (fun _ other => get_examineDb_of_ne other) (inFront remoteId r)
    rw [found, after] at counts
    simp only [Option.toList_some, List.countP_singleton, not_inFront late gone,
      Bool.false_eq_true, if_false, Nat.add_zero] at counts
    simp only [compared, true_and]
    exact counts
  · rw [examineDb_of_not_compares (Bool.not_eq_true _ ▸ compared), if_neg (fun h => compared h.1)]
    rfl

theorem not_backpressure (now : Int) (row : Row) {queueCount : Nat} (short : queueCount ≤ 9)
    (live : Option ReadData) :
    examineRow now queueCount row live ≠ .backpressure := by
  unfold examineRow
  rw [if_neg (show ¬ queueCount > 9 by omega)]
  split
  · simp
  cases live with
  | none => simp
  | some data =>
    simp only
    split_ifs <;> simp

theorem examineProgress_short (p : Progress) (row : Row) (rest : List Row) {queueCount : Nat}
    (short : queueCount ≤ 9) (live : Option ReadData) (pushed : Bool) :
    ∃ requeued, examineProgress p row rest queueCount live pushed =
      ⟨rest, p.now, p.version, requeued⟩ := by
  have goes_on := not_backpressure p.now row short live
  unfold examineProgress
  cases decision : examineRow p.now queueCount row live with
  | backpressure => exact absurd decision goes_on
  | _ => exact ⟨_, rfl⟩

theorem get_sendBlock_of_ne {version : Int} {j k : Key} {read : Option ReadData} {pushed : Bool}
    (other : j ≠ k) : get (sendBlock remoteId version db k read pushed) j = get db j := by
  unfold sendBlock
  split
  · rfl
  · rw [get_upsert, if_neg (Ne.symm other)]

theorem ahead_sendBlock (remoteId : String) (r : Row) (db : BlockTable) (version : Int) (k : Key)
    (read : Option ReadData) (pushed : Bool) :
    ahead remoteId r (sendBlock remoteId version db k read pushed) ≤ ahead remoteId r db + 1 := by
  have counts := countP_rows db (sendBlock remoteId version db k read pushed) k
    (fun _ other => get_sendBlock_of_ne other) (inFront remoteId r)
  have one : ((get (sendBlock remoteId version db k read pushed) k).toList.countP
      (inFront remoteId r)) ≤ 1 := by
    refine List.countP_le_length.trans ?_
    cases get (sendBlock remoteId version db k read pushed) k <;> simp
  unfold ahead
  omega

end Line

inductive LoopTurn (remoteId : String) (s : State) : Action → State → Prop
  | send {again : Bool} {x : Row} {read : Option ReadData} {pushed : Bool} (phase : s.phase = .loop)
    (unnamed : x ∈ unackedRows s.db "") :
    LoopTurn remoteId s (.send again x.key read pushed)
      { s with db := sendBlock remoteId s.version s.db x.key read pushed }
  | beginRound {batch : List Row} {now : Int} (phase : s.phase = .loop)
    (selected : IsUnackedBatch s.db remoteId roundLimit batch) :
    LoopTurn remoteId s (.beginRound batch now)
      { s with phase := .round ⟨batch, now, s.version, 0⟩, incRound := s.incRound + 1 }
  | examine {queueCount : Nat} {live : Option ReadData} {pushed : Bool} {later : Int} {p : Progress}
    {row : Row} {rest : List Row} (phase : s.phase = .round p) (batch : p.batch = row :: rest) :
    LoopTurn remoteId s (.examine queueCount live pushed later)
      { s with
        db := examineDb remoteId s.db p row queueCount live pushed later
        phase := .round (examineProgress p row rest queueCount live pushed) }
  | endRound {acquired : Bool} {p : Progress} (phase : s.phase = .round p) (finished : p.batch = []) :
    LoopTurn remoteId s (.endRound acquired) (endRound remoteId s p acquired)

theorem loopTurn_of_step {remoteId : String} {s s' : State} {a : Action} (begun : s.phase ≠ .full)
    (next : step remoteId s a = some s') : LoopTurn remoteId s a s' := by
  cases step_turn next with
  | @send again k read pushed sends =>
    unfold Sends at sends
    split at sends
    next phase => exact absurd phase begun
    next phase =>
      obtain ⟨x, unnamed, rfl⟩ := List.mem_map.mp sends.2
      exact .send phase unnamed
    · exact sends.elim
  | startLoop phase positive => exact absurd phase begun
  | @beginRound batch now version selected =>
    simp only [step] at next
    split at next
    next phase => exact absurd phase begun
    next phase =>
      simp only [beginRound, if_pos selected, Option.some.injEq] at next
      rw [← next]
      exact .beginRound phase selected
    · cases next
  | examine phase batch => exact .examine phase batch
  | endRound phase finished => exact .endRound phase finished

theorem key_ne_unnamed {remoteId : String} {db : BlockTable} (named : remoteId ≠ "") {x y : Row}
    (unnamed : x ∈ unackedRows db "") (found : get db y.key = some y) (mine : y.remoteId = remoteId) :
    y.key ≠ x.key := by
  obtain ⟨there, -, none⟩ := mem_unackedRows.mp unnamed
  intro same
  rw [same, there] at found
  exact named (mine.symm.trans (Option.some.inj found ▸ none))

def share (dead : List Key) : Nat := roundLimit - dead.length

/-- A round that has `p` before it: `r` is still to come, or the line is going to be shorter by
the share of the round once the rest of the batch has been looked at. -/
structure UnderWay (remoteId : String) (r : Row) (dead : List Key) (budget ended : Nat)
    (db : BlockTable) (p : Progress) : Prop where
  version : 0 < p.version
  positive : 0 < p.now
  rested : Rested r p.now
  rows : ∀ row ∈ p.batch, row ∈ unackedRows db remoteId
  distinct : (p.batch.map Row.key).Nodup
  line : r ∈ p.batch ∨
    ((∀ row ∈ p.batch, inFront remoteId r row = true) ∧
      ahead remoteId r db + share dead * (ended + 1) ≤
        budget + p.batch.countP fun row => row.key ∉ dead)

structure Waits (remoteId : String) (r : Row) (dead : List Key) (budget ended : Nat) (s : State) :
    Prop where
  -- `r` has not been compared yet, and the rounds that ended have taken their share of the line of
  -- `budget` rows
  row : get s.db r.key = some r
  version : 0 < s.version
  left : ahead remoteId r s.db + share dead * ended ≤ budget
  phase : match s.phase with
    | .full => False
    | .round p => UnderWay remoteId r dead budget ended s.db p
    | _ => True

section Waiting
variable {remoteId : String} {r : Row} {dead : List Key} {budget ended : Nat} {s s' : State}

theorem Waits.begun (h : Waits remoteId r dead budget ended s) : s.phase ≠ .full := by
  intro phase
  have impossible := h.phase
  rw [phase] at impossible
  exact impossible

theorem Waits.send (h : Waits remoteId r dead budget ended s) (phase : s.phase = .loop) {k : Key}
    (other : r.key ≠ k) (read : Option ReadData) (pushed : Bool) :
    Waits remoteId r dead (budget + 1) ended
      { s with db := sendBlock remoteId s.version s.db k read pushed } := by
  have line := ahead_sendBlock remoteId r s.db s.version k read pushed
  refine ⟨(get_sendBlock_of_ne other).trans h.row, h.version, ?_, by simp only [phase]⟩
  exact (Nat.add_le_add_right line _).trans (by have := h.left; omega)

theorem Waits.beginRound (h : Waits remoteId r dead budget ended s) (unacked : r.ack = false)
    (remote : r.remoteId = remoteId) {batch : List Row} {now : Int}
    (selected : IsUnackedBatch s.db remoteId roundLimit batch) (positive : 0 < now)
    (rested : Rested r now) :
    UnderWay remoteId r dead budget ended s.db ⟨batch, now, s.version, 0⟩ := by
  have waiting : r ∈ unackedRows s.db remoteId := mem_unackedRows.mpr ⟨h.row, unacked, remote⟩
  refine ⟨h.version, positive, rested, selected.2.1, selected.selected.1, ?_⟩
  by_cases taken : r ∈ batch
  · exact .inl taken
  obtain ⟨full, first⟩ := (selects_batch selected).passed_over waiting taken
  refine .inr ⟨fun row member => ?_, ?_⟩
  · obtain ⟨found, open_row, named⟩ := mem_unackedRows.mp (selected.2.1 row member)
    have other : row.key ≠ r.key := by
      intro same
      rw [same, h.row] at found
      exact taken (Option.some.inj found ▸ member)
    simp [inFront, open_row, named, other, first row member]
  · -- at most `dead.length` rows of the batch have a key in `dead`
    have unread : (batch.countP fun row => row.key ∈ dead) ≤ dead.length := by
      rw [List.countP_eq_length_filter, ← List.length_map (f := Row.key)]
      refine (List.subperm_of_subset (selected.selected.1.sublist (List.filter_sublist.map _))
        fun k member => ?_).length_le
      obtain ⟨row, kept, rfl⟩ := List.mem_map.mp member
      exact of_decide_eq_true (List.mem_filter.mp kept).2
    have split :=
    List.length_eq_countP_add_countP (fun row : Row => decide (row.key ∈ dead)) (l := batch)
    have left := h.left
    simp only [decide_eq_true_eq] at split
    rw [Nat.mul_add, Nat.mul_one]
    simp only [share] at left ⊢
    omega

theorem Waits.examine (h : Waits remoteId r dead budget ended s) (alive : r.key ∉ dead)
    {p : Progress} {row : Row} {rest : List Row} (phase : s.phase = .round p)
    (batch : p.batch = row :: rest) {queueCount : Nat} {live : Option ReadData} (pushed : Bool)
    {later : Int} (short : queueCount ≤ 9) (clock : p.now ≤ later)
    (reads : readable live = true ∨ row.key ∈ dead) :
    (row.key = r.key ∧ Decision.compares (examineRow p.now queueCount row live) = true) ∨
      Waits remoteId r dead budget ended
        { s with
          db := examineDb remoteId s.db p row queueCount live pushed later
          phase := .round (examineProgress p row rest queueCount live pushed) } := by
  have under := h.phase
  simp only [phase] at under
  have found := (mem_unackedRows.mp (under.rows row (by simp [batch]))).1
  have late : r.lastSent < p.now := under.rested.lt under.positive
  by_cases same : row.key = r.key
  · rw [same, h.row] at found
    obtain rfl : r = row := Option.some.inj found
    exact .inl ⟨same, compares_of_rested under.rested short (reads.resolve_right alive)⟩
  right
  have line := ahead_examineDb remoteId queueCount live pushed late clock found
  have distinct := under.distinct
  rw [batch, List.map_cons, List.nodup_cons] at distinct
  obtain ⟨requeued, goes_on⟩ := examineProgress_short p row rest short live pushed
  refine ⟨?_, h.version, ?_, ?_⟩
  · exact (get_examineDb_of_ne (Ne.symm same)).trans h.row
  · exact (Nat.add_le_add_right (Nat.le.intro line) _).trans h.left
  simp only [goes_on]
  refine ⟨under.version, under.positive, under.rested, fun other member => ?_, distinct.2, ?_⟩
  · obtain ⟨there, waiting⟩ := mem_unackedRows.mp (under.rows other (by simp [batch, member]))
    refine mem_unackedRows.mpr ⟨?_, waiting⟩
    rw [get_examineDb_of_ne, there]
    intro here
    exact distinct.1 (here ▸ List.mem_map_of_mem member)
  rcases under.line with to_come | ⟨front, left⟩
  · left
    rw [batch, List.mem_cons] at to_come
    exact to_come.resolve_left fun here => same (here ▸ rfl)
  · right
    refine ⟨fun other member => front other (by simp [batch, member]), ?_⟩
    have in_line := front row (by simp [batch])
    rw [batch, List.countP_cons] at left
    dsimp only
    by_cases unread : row.key ∈ dead
    · simp only [unread, not_true_eq_false, decide_false, Bool.false_eq_true, if_false] at left
      omega
    · have first : row.before r = true := by
        simp only [inFront, Bool.and_eq_true] at in_line
        exact in_line.2
      have compared := compares_of_rested (under.rested.before first) short
        (reads.resolve_right unread)
      simp only [compared, in_line, and_self, if_true] at line
      simp only [unread, not_false_eq_true, decide_true, if_true] at left
      omega

theorem Waits.endRound (h : Waits remoteId r dead budget ended s) {p : Progress}
    (phase : s.phase = .round p) (finished : p.batch = []) (acquired : Bool) :
    Waits remoteId r dead budget (ended + 1) (TailLoop.endRound remoteId s p acquired) := by
  have under := h.phase
  simp only [phase] at under
  have left : ahead remoteId r s.db + share dead * (ended + 1) ≤ budget := by
    rcases under.line with to_come | ⟨-, left⟩
    · rw [finished] at to_come
      cases to_come
    · simpa [finished] using left
  have positive := under.version
  unfold TailLoop.endRound
  rw [if_pos positive]
  split
  · refine ⟨h.row, h.version, left, ?_⟩
    cases acquired <;> trivial
  · exact ⟨h.row, by have := h.version; dsimp only; omega, left, trivial⟩

/-- A step of an undisturbed run compares `r` or lets it wait on. -/
theorem Waits.step (h : Waits remoteId r dead budget ended s) (named : remoteId ≠ "")
    (unacked : r.ack = false) (remote : r.remoteId = remoteId) (alive : r.key ∉ dead) {a : Action}
    (calm : Undisturbed r dead s a) (next : TailLoop.step remoteId s a = some s') :
    .compared r.key ∈ events s a ∨
      Waits remoteId r dead (budget + (events s a).count .sent)
        (ended + (events s a).count .ended) s' := by
  cases loopTurn_of_step h.begun next with
  | send phase unnamed =>
    exact .inr (h.send phase (key_ne_unnamed named unnamed h.row remote) _ _)
  | beginRound phase selected =>
    exact .inr ⟨h.row, h.version, h.left, h.beginRound unacked remote selected calm.1 calm.2⟩
  | @examine queueCount live pushed later p row rest phase batch =>
    simp only [Undisturbed, Examinable, phase, batch, List.head?_cons, Option.mem_def,
      Option.some.injEq, forall_eq'] at calm
    rcases h.examine alive phase batch pushed calm.1 calm.2.1 calm.2.2 with ⟨same, compared⟩ | waits
    · left
      simp [events, phase, batch, compared, same]
    · right
      have quiet : (events s (.examine queueCount live pushed later)).count .sent = 0 ∧
          (events s (.examine queueCount live pushed later)).count .ended = 0 := by
        simp only [events, phase, batch]
        split <;> simp
      rw [quiet.1, quiet.2]
      exact waits
  | @endRound acquired p phase finished =>
    have one : (events s (.endRound acquired)).count .sent = 0 ∧
        (events s (.endRound acquired)).count .ended = 1 := by
      cases acquired <;> exact ⟨rfl, rfl⟩
    rw [one.1, one.2]
    exact .inr (h.endRound phase finished acquired)

def ComparedOrWaits (remoteId : String) (r : Row) (dead : List Key) (budget : Nat)
    (seen : List Event) (s : State) : Prop :=
  .compared r.key ∈ seen ∨
    Waits remoteId r dead (budget + seen.count .sent) (seen.count .ended) s

end Waiting

/-- In the incremental loop, with rounds that begin after the cooldown of the block, no long queue
and at most `dead.length` blocks that cannot be read, an unacknowledged block is read again and
compared once the rounds have had the time to work off the rows before it, those that send_block
adds included. -/
theorem waiting_row_compared (remoteId : String) (r : Row) (dead : List Key) (s s' : State)
    (actions : List Action) (named : remoteId ≠ "") (phase : s.phase = .loop)
    (version : 0 < s.version) (row : get s.db r.key = some r) (unacked : r.ack = false)
    (remote : r.remoteId = remoteId) (alive : r.key ∉ dead)
    (h : run (step remoteId) s actions = some s')
    (calm : Meets (step remoteId) (Undisturbed r dead) s actions)
    (enough : ahead remoteId r s.db + (trace (step remoteId) events s actions).count .sent <
      (roundLimit - dead.length) * (trace (step remoteId) events s actions).count .ended) :
    .compared r.key ∈ trace (step remoteId) events s actions := by
  have waits : Waits remoteId r dead (ahead remoteId r s.db) 0 s :=
    ⟨row, version, le_rfl, by simp only [phase]⟩
  have outcome : ComparedOrWaits remoteId r dead (ahead remoteId r s.db)
      ([] ++ trace (step remoteId) events s actions) s' := by
    refine run_invariant_trace (fun seen t a t' inv calm next => ?_) h calm (.inr waits)
    unfold ComparedOrWaits
    rw [List.mem_append, List.count_append, List.count_append, ← Nat.add_assoc]
    rcases inv with compared | waits
    · exact .inl (.inl compared)
    · exact (waits.step named unacked remote alive calm next).imp .inr id
  rw [List.nil_append] at outcome
  refine outcome.resolve_right fun waits => ?_
  have left := waits.left
  unfold share at left
  omega

section Rounds
variable (remoteId : String) (r : Row) (dead : List Key)

theorem before_trans (x y z : Row) (xy : x.before y = true) (yz : y.before z = true) :
    x.before z = true := by
  simp only [Row.before, Bool.or_eq_true, Bool.and_eq_true, decide_eq_true_eq, beq_iff_eq] at *
  rcases xy with lt | ⟨eq, le⟩
  · rcases yz with lt' | ⟨eq', -⟩
    · exact .inl (lt.trans lt')
    · exact .inl (eq' ▸ lt)
  · rcases yz with lt' | ⟨eq', le'⟩
    · exact .inl (eq ▸ lt')
    · exact .inr ⟨eq.trans eq', Int64.le_trans le le'⟩

theorem before_total (x y : Row) : (x.before y || y.before x) = true := by
  simp only [Row.before, Bool.or_eq_true, Bool.and_eq_true, decide_eq_true_eq, beq_iff_eq]
  rcases lt_trichotomy x.lastSent y.lastSent with lt | eq | gt
  · exact .inl (.inl lt)
  · rcases Int64.le_total x.offset y.offset with le | ge
    · exact .inl (.inr ⟨eq, le⟩)
    · exact .inr (.inr ⟨eq.symm, ge⟩)
  · exact .inr (.inl gt)

theorem exists_batch (db : BlockTable) (limit : Nat) :
    ∃ batch, IsUnackedBatch db remoteId limit batch := by
  obtain ⟨batch, selects⟩ := exists_selects before_trans before_total
    (db.unique.of_map.filter (fun r => !r.ack && r.remoteId == remoteId)) limit
  exact ⟨batch, selects.nodup, selects.within, selects.length, selects.first⟩

def oneByte : ReadData := ⟨[7], by decide⟩

theorem round_finishes (s : State) (p : Progress) (phase : s.phase = .round p) :
    ∃ actions s' p', run (step remoteId) s actions = some s' ∧ s'.phase = .round p' ∧
      p'.batch = [] ∧ p'.version = p.version ∧ s'.version = s.version ∧
      Meets (step remoteId) (Undisturbed r dead) s actions ∧
      ∀ e ∈ trace (step remoteId) events s actions, ∃ k, e = .compared k := by
  generalize rows : p.batch.length = n
  induction n using Nat.strong_induction_on generalizing s p with
  | _ n ih =>
    cases batch : p.batch with
    | nil => exact ⟨[], s, p, rfl, phase, batch, rfl, rfl, trivial, by simp [trace]⟩
    | cons row rest =>
      obtain ⟨next, p', moves, phase', shorter, version, same⟩ : ∃ next p',
          step remoteId s (.examine 0 (some oneByte) true p.now) = some next ∧
            next.phase = .round p' ∧ p'.batch.length < n ∧ p'.version = p.version ∧
            next.version = s.version := by
        simp only [step, phase, batch]
        refine ⟨_, _, rfl, rfl, ?_, ?_, rfl⟩
        · have suffix := examineProgress_batch p row rest 0 (some oneByte) true
          rw [← rows, batch]
          exact Nat.lt_succ_of_le suffix.length_le
        · unfold examineProgress
          split <;> rfl
      obtain ⟨actions, s', q, runs, ends, none_left, versions, kept, meets, compared⟩ :=
        ih _ shorter next p' phase' rfl
      have seen : ∀ e ∈ events s (.examine 0 (some oneByte) true p.now), ∃ k, e = .compared k := by
        simp only [events, phase, batch]
        split
        · exact fun e member => ⟨_, List.mem_singleton.mp member⟩
        · simp
      refine ⟨.examine 0 (some oneByte) true p.now :: actions, s', q, ?_, ends, none_left,
        versions.trans version, kept.trans same, ⟨?_, fun t moved => ?_⟩, ?_⟩
      · rw [run, moves]
        exact runs
      · simp only [Undisturbed, phase, Examinable]
        exact ⟨by omega, le_rfl, .inl rfl⟩
      · cases Option.some.inj (moves.symm.trans moved)
        exact meets
      · rw [trace, moves, Option.elim_some]
        exact List.forall_mem_append.mpr ⟨seen, compared⟩

structure OneRound (seen : List Event) (acquired : Bool) : Prop where
  began : seen.count .began = 1
  ended : seen.count .ended = 1
  refused : seen.count .refused = if acquired then 0 else 1
  sent : seen.count .sent = 0

theorem oneRound_of_compared {compared : List Event} (h : ∀ e ∈ compared, ∃ k, e = .compared k)
    (s : State) (acquired : Bool) :
    OneRound (.began :: (compared ++ events s (.endRound acquired))) acquired := by
  have none_of (e : Event) (other : ∀ k, e ≠ .compared k) : compared.count e = 0 := by
    refine List.count_eq_zero.mpr fun member => ?_
    obtain ⟨k, same⟩ := h e member
    exact other k same
  constructor
  all_goals
    rw [List.count_cons, List.count_append, none_of _ fun _ same => by cases same]
    cases acquired <;> rfl

theorem round_exists {s : State} (phase : s.phase = .loop) (version : 0 < s.version) {now : Int}
    (positive : 0 < now) (rested : Rested r now) (acquired : Bool) :
    ∃ actions s', run (step remoteId) s actions = some s' ∧
      (acquired = false → s'.phase = .loop) ∧ 0 < s'.version ∧
      Meets (step remoteId) (Undisturbed r dead) s actions ∧
      OneRound (trace (step remoteId) events s actions) acquired := by
  obtain ⟨batch, selected⟩ := exists_batch remoteId s.db roundLimit
  have begins : step remoteId s (.beginRound batch now) =
      some { s with
        phase := .round ⟨batch, now, s.version, 0⟩
        incRound := s.incRound + 1 } := by
    simp only [step, phase]
    rw [beginRound, if_pos selected]
  obtain ⟨actions, s', p, runs, round, none_left, versions, kept, meets, compared⟩ :=
    round_finishes remoteId r dead { s with
      phase := .round ⟨batch, now, s.version, 0⟩
      incRound := s.incRound + 1 } _ rfl
  have ends : step remoteId s' (.endRound acquired) = some (endRound remoteId s' p acquired) := by
    simp only [step, round]
    rw [if_pos none_left]
  have counted : 0 < p.version := versions ▸ version
  have finished : (acquired = false → (endRound remoteId s' p acquired).phase = .loop) ∧
      0 < (endRound remoteId s' p acquired).version := by
    unfold endRound
    rw [if_pos counted]
    split
    · exact ⟨fun refused => by simp [refused], kept ▸ version⟩
    · refine ⟨fun _ => rfl, ?_⟩
      dsimp only at kept ⊢
      omega
  refine ⟨.beginRound batch now :: (actions ++ [.endRound acquired]), _, ?_, finished.1, finished.2,
    ⟨⟨positive, rested⟩, fun t begun => ?_⟩, ?_⟩
  · rw [run, begins, Option.bind_some, run_append, runs, Option.bind_some, run, ends]
    rfl
  · cases Option.some.inj (begins.symm.trans begun)
    exact meets_append.mpr ⟨meets, fun t _ => ⟨trivial, fun _ _ => trivial⟩⟩
  · have whole := oneRound_of_compared compared s' acquired
    rw [trace, begins, Option.elim_some, trace_append runs]
    simpa [trace, ends, events] using whole

end Rounds

def frontRow (i : Nat) : Row := ⟨0, Int64.ofNat i, 64, 1, false, 0, 0, "10.0.0.1:3400"⟩

def frontRows : List Row := (List.range roundLimit).map frontRow

def lastRow : Row := ⟨1, 0, 64, 1, false, 1, 0, "10.0.0.1:3400"⟩

theorem frontRows_distinct : (frontRows.map Row.key).Nodup := by
  rw [frontRows, List.map_map]
  refine List.nodup_range.map_on fun i hi j hj same => ?_
  have offsets : Int64.ofNat i = Int64.ofNat j := (Prod.mk.inj same).2
  have bound_i := List.mem_range.mp hi
  have bound_j := List.mem_range.mp hj
  unfold roundLimit at bound_i bound_j
  have values := congrArg Int64.toInt offsets
  rw [Int64.toInt_ofNat_of_lt (by omega), Int64.toInt_ofNat_of_lt (by omega)] at values
  exact Int.ofNat.inj values

theorem crowdedRows_distinct : ((frontRows ++ [lastRow]).map Row.key).Nodup := by
  rw [List.map_append, List.nodup_append]
  refine ⟨frontRows_distinct, by simp, fun k member k' member' same => ?_⟩
  obtain ⟨row, listed, rfl⟩ := List.mem_map.mp member
  obtain ⟨i, -, rfl⟩ := List.mem_map.mp listed
  simp only [List.map_cons, List.map_nil, List.mem_singleton] at member'
  rw [member'] at same
  exact absurd (Prod.mk.inj same).1 (show ¬ (0 : Int32) = 1 by decide)

def crowdedState : State := ⟨⟨frontRows ++ [lastRow], crowdedRows_distinct⟩, .loop, 1, 0, 0⟩

theorem crowdedState_unacked :
    unackedRows crowdedState.db "10.0.0.1:3400" = frontRows ++ [lastRow] := by
  refine List.filter_eq_self.mpr fun row member => ?_
  rcases List.mem_append.mp member with listed | last
  · obtain ⟨i, -, rfl⟩ := List.mem_map.mp listed
    rfl
  · rw [List.mem_singleton.mp last]
    rfl

theorem crowdedState_batch :
    IsUnackedBatch crowdedState.db "10.0.0.1:3400" roundLimit frontRows := by
  unfold IsUnackedBatch
  rw [crowdedState_unacked]
  refine ⟨frontRows_distinct.of_map, fun row member => List.mem_append_left _ member, ?_, ?_⟩
  · simp [frontRows]
  · intro row member other listed out
    obtain ⟨i, -, rfl⟩ := List.mem_map.mp member
    have last := (List.mem_append.mp listed).resolve_left out
    rw [List.mem_singleton.mp last]
    rfl

theorem lastRow_out : lastRow ∉ frontRows := by
  intro member
  obtain ⟨i, -, same⟩ := List.mem_map.mp member
  exact absurd (congrArg Row.devno same) (show ¬ (0 : Int32) = 1 by decide)

theorem crowdedState_ahead : ahead "10.0.0.1:3400" lastRow crowdedState.db = roundLimit := by
  have front : frontRows.countP (inFront "10.0.0.1:3400" lastRow) = frontRows.length := by
    refine List.countP_eq_length.mpr fun row member => ?_
    obtain ⟨i, -, rfl⟩ := List.mem_map.mp member
    simp only [inFront, frontRow, lastRow, Row.key, Row.before]
    simp
  have last : [lastRow].countP (inFront "10.0.0.1:3400" lastRow) = 0 := by decide
  rw [ahead, crowdedState, List.countP_append, front, last]
  simp [frontRows]

/-- 4096 rows stand before the last one, so that a batch has no room for it. It is compared all
the same when the loop has had two rounds. -/
theorem waiting_row_compared_crowded :
    ∃ actions s', run (step "10.0.0.1:3400") crowdedState actions = some s' ∧
      (trace (step "10.0.0.1:3400") events crowdedState actions).count .ended = 2 ∧
      .compared lastRow.key ∈ trace (step "10.0.0.1:3400") events crowdedState actions := by
  have rested : Rested lastRow 200000 := by decide
  have begun : crowdedState.phase = .loop := rfl
  obtain ⟨first, s, runs, loop, version, meets, round⟩ :=
    round_exists "10.0.0.1:3400" lastRow [] begun (by decide) (by decide) rested false
  obtain ⟨second, s', runs', -, -, meets', round'⟩ :=
    round_exists "10.0.0.1:3400" lastRow [] (loop rfl) version (by decide) rested true
  have whole : run (step "10.0.0.1:3400") crowdedState (first ++ second) = some s' := by
    rw [run_append, runs]
    exact runs'
  have calm : Meets (step "10.0.0.1:3400") (Undisturbed lastRow []) crowdedState
      (first ++ second) := by
    refine meets_append.mpr ⟨meets, fun t there => ?_⟩
    cases Option.some.inj (runs.symm.trans there)
    exact meets'
  have ended : (trace (step "10.0.0.1:3400") events crowdedState (first ++ second)).count .ended =
      2 := by
    rw [trace_append runs, List.count_append, round.ended, round'.ended]
  have unsent : (trace (step "10.0.0.1:3400") events crowdedState (first ++ second)).count .sent =
      0 := by
    rw [trace_append runs, List.count_append, round.sent, round'.sent]
  refine ⟨first ++ second, s', whole, ended, waiting_row_compared "10.0.0.1:3400" lastRow []
    crowdedState s' _ (by decide) rfl (by decide) ?_ rfl rfl (by simp) whole calm ?_⟩
  · exact (get_eq_some_iff _).mpr ⟨by simp [crowdedState], rfl⟩
  · rw [ended, unsent, crowdedState_ahead]
    decide

def Unread (front : List Row) (s : State) : Action → Prop
  | .examine _ live _ _ =>
    match s.phase with
    | .round p =>
      (∃ row ∈ p.batch.head?, row.key ∈ front.map Row.key) → readable live = false
    | _ => True
  | _ => True

structure Behind (remoteId : String) (r : Row) (front : List Row) (s : State) : Prop where
  row : get s.db r.key = some r
  version : 0 < s.version
  ahead : ∀ x ∈ front, x ∈ unackedRows s.db remoteId ∧ r.before x = false
  phase : match s.phase with
    | .full => False
    | .round p => 0 < p.version ∧ r.key ∉ p.batch.map Row.key
    | _ => True

section Starving
variable {remoteId : String} {r : Row} {front : List Row} {s s' : State}

theorem Behind.passed_over (h : Behind remoteId r front s) (distinct : front.Nodup)
    (out : r ∉ front) (many : roundLimit ≤ front.length) {batch : List Row}
    (selected : IsUnackedBatch s.db remoteId roundLimit batch) : r.key ∉ batch.map Row.key := by
  intro taken
  obtain ⟨row, member, same⟩ := List.mem_map.mp taken
  have found := (mem_unackedRows.mp (selected.2.1 row member)).1
  rw [same, h.row] at found
  obtain rfl : r = row := Option.some.inj found
  exact (selects_batch selected).starves distinct h.ahead out many member

theorem Behind.elsewhere (h : Behind remoteId r front s) {db : BlockTable} {k : Key}
    (others : ∀ j, j ≠ k → get db j = get s.db j) (out : k ≠ r.key)
    (away : ∀ x ∈ front, x.key ≠ k) :
    get db r.key = some r ∧ ∀ x ∈ front, x ∈ unackedRows db remoteId ∧ r.before x = false := by
  refine ⟨(others _ (Ne.symm out)).trans h.row, fun x member => ?_⟩
  obtain ⟨waiting, first⟩ := h.ahead x member
  obtain ⟨found, open_row⟩ := mem_unackedRows.mp waiting
  exact ⟨mem_unackedRows.mpr ⟨(others _ (away x member)).trans found, open_row⟩, first⟩

theorem Behind.begun (h : Behind remoteId r front s) : s.phase ≠ .full := by
  intro phase
  have impossible := h.phase
  rw [phase] at impossible
  exact impossible

theorem Behind.examine (h : Behind remoteId r front s) {p : Progress} {row : Row} {rest : List Row}
    (phase : s.phase = .round p) (batch : p.batch = row :: rest) {queueCount : Nat}
    {live : Option ReadData} (pushed : Bool) (later : Int)
    (unread : row.key ∈ front.map Row.key → readable live = false) :
    row.key ≠ r.key ∧ Behind remoteId r front
      { s with
        db := examineDb remoteId s.db p row queueCount live pushed later
        phase := .round (examineProgress p row rest queueCount live pushed) } := by
  obtain ⟨version, out⟩ : 0 < p.version ∧ r.key ∉ p.batch.map Row.key := by
    have here := h.phase
    rw [phase] at here
    exact here
  rw [batch, List.map_cons, List.mem_cons, not_or] at out
  refine ⟨Ne.symm out.1, ?_⟩
  have still : get (examineDb remoteId s.db p row queueCount live pushed later) r.key = some r ∧
      ∀ x ∈ front, x ∈ unackedRows (examineDb remoteId s.db p row queueCount live pushed later)
        remoteId ∧ r.before x = false := by
    by_cases here : row.key ∈ front.map Row.key
    · rw [examineDb_of_not_compares (not_compares_of_unreadable (unread here))]
      exact ⟨h.row, h.ahead⟩
    · refine h.elsewhere (fun j other => get_examineDb_of_ne other) (Ne.symm out.1) ?_
      rintro x member same
      exact here (same ▸ List.mem_map_of_mem member)
  have suffix := examineProgress_batch p row rest queueCount live pushed
  refine ⟨still.1, h.version, still.2, ?_, fun taken => out.2 (suffix.sublist.map _ |>.subset taken)⟩
  unfold examineProgress
  split <;> exact version

theorem Behind.endRound (h : Behind remoteId r front s) {p : Progress} (phase : s.phase = .round p)
    (acquired : Bool) : Behind remoteId r front (TailLoop.endRound remoteId s p acquired) := by
  have version : 0 < p.version := by
    have here := h.phase
    rw [phase] at here
    exact here.1
  unfold TailLoop.endRound
  rw [if_pos version]
  split
  · refine ⟨h.row, h.version, h.ahead, ?_⟩
    cases acquired <;> trivial
  · exact ⟨h.row, by have := h.version; dsimp only; omega, h.ahead, trivial⟩

theorem Behind.step (h : Behind remoteId r front s) (named : remoteId ≠ "")
    (remote : r.remoteId = remoteId) (distinct : front.Nodup) (out : r ∉ front)
    (many : roundLimit ≤ front.length) {a : Action} (unread : Unread front s a)
    (next : TailLoop.step remoteId s a = some s') :
    .compared r.key ∉ events s a ∧ Behind remoteId r front s' := by
  cases loopTurn_of_step h.begun next with
  | @send again x read pushed phase unnamed =>
    have others : ∀ j, j ≠ x.key →
        get (sendBlock remoteId s.version s.db x.key read pushed) j = get s.db j :=
      fun j other => get_sendBlock_of_ne other
    have kept := h.elsewhere others
      (Ne.symm (key_ne_unnamed named unnamed h.row remote)) fun y there => by
        obtain ⟨found, -, mine⟩ := mem_unackedRows.mp (h.ahead y there).1
        exact key_ne_unnamed named unnamed found mine
    exact ⟨by simp [events], kept.1, h.version, kept.2, by simp only [phase]⟩
  | beginRound phase selected =>
    exact ⟨by simp [events], h.row, h.version, h.ahead, h.version,
      h.passed_over distinct out many selected⟩
  | @examine queueCount live pushed later p row rest phase batch =>
    simp only [Unread, phase, batch, List.head?_cons, Option.mem_def, Option.some.injEq,
      exists_eq_left'] at unread
    obtain ⟨other, behind⟩ := h.examine phase batch pushed later unread
    refine ⟨?_, behind⟩
    simp only [events, phase, batch]
    split
    · simpa using Ne.symm other
    · simp
  | @endRound acquired p phase finished =>
    exact ⟨by cases acquired <;> simp [events], h.endRound phase acquired⟩

end Starving

/-- A full batch of unacknowledged rows that come first and cannot be read keeps every block behind
them from ever being compared, in any run of the incremental loop. -/
theorem unread_rows_starve (remoteId : String) (r : Row) (front : List Row) (s s' : State)
    (actions : List Action) (named : remoteId ≠ "") (phase : s.phase = .loop)
    (version : 0 < s.version) (row : get s.db r.key = some r) (remote : r.remoteId = remoteId)
    (distinct : front.Nodup) (out : r ∉ front) (many : roundLimit ≤ front.length)
    (first : ∀ x ∈ front, x ∈ unackedRows s.db remoteId ∧ r.before x = false)
    (h : run (step remoteId) s actions = some s')
    (unread : Meets (step remoteId) (Unread front) s actions) :
    .compared r.key ∉ trace (step remoteId) events s actions := by
  have behind : Behind remoteId r front s := ⟨row, version, first, by simp only [phase]⟩
  have outcome : .compared r.key ∉ [] ++ trace (step remoteId) events s actions ∧
      Behind remoteId r front s' :=
    run_invariant_trace (P := fun seen t => Event.compared r.key ∉ seen ∧ Behind remoteId r front t)
      (fun seen t a t' inv unread next => by
        obtain ⟨quiet, still⟩ := inv.2.step named remote distinct out many unread next
        exact ⟨fun seen_now => (List.mem_append.mp seen_now).elim inv.1 quiet, still⟩)
      h unread ⟨by simp, behind⟩
  exact outcome.1

def starvedActions : List Action := [.beginRound frontRows 1000, .examine 0 none true 1000]

theorem starvedActions_runs :
    ∃ s', run (step "10.0.0.1:3400") crowdedState starvedActions = some s' := by
  obtain ⟨row, rest, batch⟩ : ∃ row rest, frontRows = row :: rest :=
    List.exists_cons_of_ne_nil (by simp [frontRows, roundLimit])
  have begins : step "10.0.0.1:3400" crowdedState (.beginRound frontRows 1000) =
      some { crowdedState with phase := .round ⟨frontRows, 1000, 1, 0⟩, incRound := 1 } := by
    change beginRound _ _ _ _ _ = _
    rw [beginRound, if_pos crowdedState_batch]
    rfl
  rw [starvedActions, run, begins, Option.bind_some, run, step]
  simp only [batch]
  exact ⟨_, rfl⟩

theorem unread_rows_starve_batch :
    ∃ s', run (step "10.0.0.1:3400") crowdedState starvedActions = some s' ∧
      .compared lastRow.key ∉
        trace (step "10.0.0.1:3400") events crowdedState starvedActions := by
  obtain ⟨s', runs⟩ := starvedActions_runs
  refine ⟨s', runs, unread_rows_starve "10.0.0.1:3400" lastRow frontRows crowdedState s' _
    (by decide) rfl (by decide) ?_ rfl frontRows_distinct.of_map lastRow_out
    (by simp [frontRows]) ?_ runs ?_⟩
  · exact (get_eq_some_iff _).mpr ⟨by simp [crowdedState], rfl⟩
  · intro x member
    rw [crowdedState_unacked]
    refine ⟨List.mem_append_left _ member, ?_⟩
    obtain ⟨i, -, rfl⟩ := List.mem_map.mp member
    rfl
  · refine meets_of_forall _ fun a member s => ?_
    simp only [starvedActions, List.mem_cons, List.not_mem_nil, or_false] at member
    rcases member with rfl | rfl
    · trivial
    · cases phase : s.phase <;> simp [Unread, phase, readable]

end Go2Cloud.RoundFairness
