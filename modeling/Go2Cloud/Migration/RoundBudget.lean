import Go2Cloud.Migration.RoundFairness

/-! How much the incremental loop can check before it ends. inc_round counts the rounds of the full
sync too, and from MAX_INCREMENTAL_ROUNDS on every round is the last one unless timer_cb_real gets
no connection. A round reads 4096 blocks at most, so that what goes beyond stays unverified. -/
namespace Go2Cloud.RoundBudget
open Protocol Reader Tracker Round Transition Keyed TailLoop RoundFairness

def Event.isCompared : Event → Bool
  | .compared _ => true
  | _ => false

-- the rounds left to a loop that begins after `done` rounds
def roundsLeft (done : Nat) : Nat := max 1 (maxIncrementalRounds - done)

def openRow (remoteId : String) (x : Row) : Bool := !x.ack && x.remoteId == remoteId

theorem unacked_length (db : BlockTable) (remoteId : String) :
    (unackedRows db remoteId).length = db.rows.countP (openRow remoteId) :=
  (List.countP_eq_length_filter ..).symm

section Steps
variable {remoteId : String} {db : BlockTable}

theorem openRow_sendBlock (named : remoteId ≠ "") {x : Row} (unnamed : x ∈ unackedRows db "")
    (version : Int) (read : Option ReadData) (pushed : Bool) :
    db.rows.countP (openRow remoteId) ≤
      (sendBlock remoteId version db x.key read pushed).rows.countP (openRow remoteId) := by
  have counts := countP_rows db (sendBlock remoteId version db x.key read pushed) x.key
    (fun _ other => get_sendBlock_of_ne other) (openRow remoteId)
  obtain ⟨found, -, none⟩ := mem_unackedRows.mp unnamed
  have foreign : openRow remoteId x = false := by simp [openRow, none, Ne.symm named]
  rw [found] at counts
  simp only [Option.toList_some, List.countP_singleton, foreign, Bool.false_eq_true, if_false,
    Nat.add_zero] at counts
  omega

theorem openRow_examineDb (remoteId : String) (db : BlockTable) (p : Progress) (row : Row)
    (queueCount : Nat) (live : Option ReadData) (pushed : Bool) (later : Int) :
    db.rows.countP (openRow remoteId) ≤
      (examineDb remoteId db p row queueCount live pushed later).rows.countP (openRow remoteId) +
        (if Decision.compares (examineRow p.now queueCount row live) then 1 else 0) := by
  by_cases compared : Decision.compares (examineRow p.now queueCount row live) = true
  · have counts := countP_rows db (examineDb remoteId db p row queueCount live pushed later) row.key
      (fun _ other => get_examineDb_of_ne other) (openRow remoteId)
    have one : (get db row.key).toList.countP (openRow remoteId) ≤ 1 := by
      refine List.countP_le_length.trans ?_
      cases get db row.key <;> simp
    rw [if_pos compared]
    omega
  · rw [examineDb_of_not_compares (Bool.not_eq_true _ ▸ compared)]
    omega

end Steps

theorem shouldFinish_none {db : BlockTable} {remoteId : String} {requeued : Nat} {version : Int}
    {zeroChangeRounds incRound zeroRounds : Nat}
    (h : shouldFinish db remoteId requeued version zeroChangeRounds incRound = (none, zeroRounds)) :
    incRound < maxIncrementalRounds := by
  unfold shouldFinish at h
  by_contra finished
  simp only at h
  split_ifs at h with perfect stable at_most
  all_goals simp at h
  all_goals omega

/-- The loop after `began` rounds, `compared` comparisons and `refused` attempts to end. `done`
rounds came before it, and it found `total` rows unacknowledged. -/
structure Spent (remoteId : String) (done total began refused compared : Nat) (s : State) :
    Prop where
  version : 0 < s.version
  rounds : s.incRound = done + began
  unacked : total ≤ s.db.rows.countP (openRow remoteId) + compared
  phase : match s.phase with
    | .full => False
    | .loop => began < roundsLeft done + refused ∧ compared ≤ roundLimit * began
    | .round p => 0 < p.version ∧ began ≤ roundsLeft done + refused ∧
        compared + p.batch.length ≤ roundLimit * began
    | .done _ => began ≤ roundsLeft done + refused ∧ compared ≤ roundLimit * began

section Spending
variable {remoteId : String} {done total began refused compared : Nat} {s s' : State}

theorem Spent.begun (h : Spent remoteId done total began refused compared s) : s.phase ≠ .full := by
  intro phase
  have impossible := h.phase
  rw [phase] at impossible
  exact impossible

theorem Spent.beginRound (h : Spent remoteId done total began refused compared s)
    (phase : s.phase = .loop) {batch : List Row} (now : Int)
    (selected : IsUnackedBatch s.db remoteId roundLimit batch) :
    Spent remoteId done total (began + 1) refused compared
      { s with phase := .round ⟨batch, now, s.version, 0⟩, incRound := s.incRound + 1 } := by
  have here := h.phase
  simp only [phase] at here
  have length := selected.2.2.1
  refine ⟨h.version, by rw [h.rounds, Nat.add_assoc], h.unacked, h.version, here.1, ?_⟩
  rw [Nat.mul_add, Nat.mul_one]
  dsimp only
  omega

theorem Spent.examine (h : Spent remoteId done total began refused compared s) {p : Progress}
    {row : Row} {rest : List Row} (phase : s.phase = .round p) (batch : p.batch = row :: rest)
    (queueCount : Nat) (live : Option ReadData) (pushed : Bool) (later : Int) :
    Spent remoteId done total began refused
      (compared + if Decision.compares (examineRow p.now queueCount row live) then 1 else 0)
      { s with
        db := examineDb remoteId s.db p row queueCount live pushed later
        phase := .round (examineProgress p row rest queueCount live pushed) } := by
  obtain ⟨version, rounds, unacked, here⟩ := h
  simp only [phase, batch, List.length_cons] at here
  have closes := openRow_examineDb remoteId s.db p row queueCount live pushed later
  have shorter := (examineProgress_batch p row rest queueCount live pushed).length_le
  have same_version : (examineProgress p row rest queueCount live pushed).version = p.version := by
    unfold examineProgress
    split <;> rfl
  refine ⟨version, rounds, ?_, ?_, here.2.1, ?_⟩
  · dsimp only
    omega
  · rw [same_version]
    exact here.1
  · split <;> omega

theorem Spent.endRound (h : Spent remoteId done total began refused compared s) {p : Progress}
    (phase : s.phase = .round p) (acquired : Bool) :
    Spent remoteId done total began (refused + if acquired then 0 else 1) compared
      (TailLoop.endRound remoteId s p acquired) := by
  obtain ⟨version, rounds, unacked, here⟩ := h
  simp only [phase] at here
  have checked : compared ≤ roundLimit * began := by omega
  unfold TailLoop.endRound
  rw [if_pos here.1]
  rcases decision : shouldFinish s.db remoteId p.requeued p.version s.zeroChangeRounds s.incRound
    with ⟨_ | why, zeroRounds⟩
  · have early := shouldFinish_none decision
    refine ⟨by dsimp only; omega, rounds, unacked, ?_, checked⟩
    unfold roundsLeft
    omega
  · cases acquired with
    | true => exact ⟨version, rounds, unacked, here.2.1, checked⟩
    | false => exact ⟨version, rounds, unacked, Nat.lt_succ_of_le here.2.1, checked⟩

theorem Spent.step (h : Spent remoteId done total began refused compared s) (named : remoteId ≠ "")
    {a : Action} (next : TailLoop.step remoteId s a = some s') :
    Spent remoteId done total (began + (events s a).count .began)
      (refused + (events s a).count .refused)
      (compared + (events s a).countP Event.isCompared) s' := by
  cases loopTurn_of_step h.begun next with
  | @send again x read pushed phase unnamed =>
    have kept := openRow_sendBlock named unnamed s.version read pushed
    obtain ⟨version, rounds, unacked, here⟩ := h
    exact ⟨version, rounds, unacked.trans (Nat.add_le_add_right kept _), here⟩
  | beginRound phase selected => exact h.beginRound phase _ selected
  | @examine queueCount live pushed later p row rest phase batch =>
    have spent := h.examine phase batch queueCount live pushed later
    simp only [events, phase, batch]
    split
    next compares =>
      rw [if_pos compares] at spent
      exact spent
    next skips =>
      rw [if_neg skips] at spent
      exact spent
  | @endRound acquired p phase finished =>
    have spent := h.endRound phase acquired
    cases acquired <;> exact spent

theorem Spent.bounds (h : Spent remoteId done total began refused compared s) :
    began ≤ roundsLeft done + refused ∧ compared ≤ roundLimit * began := by
  have here := h.phase
  cases phase : s.phase with
  | full => exact absurd phase h.begun
  | loop =>
    simp only [phase] at here
    omega
  | round p =>
    simp only [phase] at here
    omega
  | done why =>
    simp only [phase] at here
    exact here

theorem get_of_not_compared (begun : s.phase ≠ .full) (named : remoteId ≠ "") {a : Action}
    (next : TailLoop.step remoteId s a = some s') {row : Row} (found : get s.db row.key = some row)
    (mine : row.remoteId = remoteId) (passed : .compared row.key ∉ events s a) :
    get s'.db row.key = some row := by
  cases loopTurn_of_step begun next with
  | @send again x read pushed phase unnamed =>
    have other := key_ne_unnamed named unnamed found mine
    exact (get_sendBlock_of_ne other).trans found
  | beginRound phase selected => exact found
  | @examine queueCount live pushed later p x rest phase batch =>
    simp only [events, phase, batch] at passed
    split at passed
    next compares =>
      have other : row.key ≠ x.key := fun same => passed (by simp [same])
      exact (get_examineDb_of_ne other).trans found
    next skips =>
      rw [examineDb_of_not_compares (Bool.not_eq_true _ ▸ skips)]
      exact found
  | endRound phase finished =>
    rw [endRound_db]
    exact found

structure SpentIn (remoteId : String) (first : State) (seen : List Event) (s : State) : Prop where
  spent : Spent remoteId first.incRound (first.db.rows.countP (openRow remoteId))
    (seen.count .began) (seen.count .refused) (seen.countP Event.isCompared) s
  kept : ∀ row ∈ first.db.rows, row.remoteId = remoteId → .compared row.key ∉ seen →
    get s.db row.key = some row

theorem SpentIn.step {first : State} {seen : List Event} (h : SpentIn remoteId first seen s)
    (named : remoteId ≠ "") {a : Action} (next : TailLoop.step remoteId s a = some s') :
    SpentIn remoteId first (seen ++ events s a) s' where
  spent := by
    rw [List.count_append, List.count_append, List.countP_append]
    exact h.spent.step named next
  kept row member mine passed := by
    rw [List.mem_append, not_or] at passed
    exact get_of_not_compared h.spent.begun named next (h.kept row member mine passed.1) mine
      passed.2

end Spending

/-- An incremental loop that begins after `s.incRound` rounds has at most 60 rounds in all, though
always one, and one more for every end that timer_cb_real refused. It compares at most 4096 blocks
a round, and the row of a block it does not compare stays as it was. -/
theorem loop_leaves_unverified (remoteId : String) (s s' : State) (actions : List Action)
    (named : remoteId ≠ "") (phase : s.phase = .loop) (version : 0 < s.version)
    (h : run (step remoteId) s actions = some s') :
    (trace (step remoteId) events s actions).count .began ≤
        max 1 (maxIncrementalRounds - s.incRound) +
          (trace (step remoteId) events s actions).count .refused ∧
      sqliteCountUnacked s.db remoteId ≤ sqliteCountUnacked s'.db remoteId +
        roundLimit * (trace (step remoteId) events s actions).count .began ∧
      (trace (step remoteId) events s actions).countP Event.isCompared ≤
        roundLimit * (trace (step remoteId) events s actions).count .began ∧
      ∀ row ∈ s.db.rows, row.remoteId = remoteId →
        .compared row.key ∉ trace (step remoteId) events s actions → row ∈ s'.db.rows := by
  have start : SpentIn remoteId s [] s := by
    refine ⟨⟨version, rfl, le_rfl, ?_⟩, fun row member _ _ => ?_⟩
    · simp only [phase, roundsLeft]
      simp
    · exact (get_eq_some_iff _).mpr ⟨member, rfl⟩
  have always : Meets (step remoteId) (fun _ _ => True) s actions :=
    meets_of_forall s fun _ _ _ => trivial
  have spent : SpentIn remoteId s ([] ++ trace (step remoteId) events s actions) s' :=
    run_invariant_trace (fun seen t a t' inv _ next => inv.step named next) h always start
  rw [List.nil_append] at spent
  have bounds := spent.spent.bounds
  refine ⟨bounds.1, ?_, bounds.2, fun row member mine passed => ?_⟩
  · unfold sqliteCountUnacked
    rw [unacked_length, unacked_length]
    exact spent.spent.unacked.trans (Nat.add_le_add_left bounds.2 _)
  · exact ((get_eq_some_iff _).mp (spent.kept row member mine passed)).1

/-- A full sync of 60 rounds leaves the loop one, which is not enough for 4097 rows. -/
theorem loop_leaves_unverified_late :
    ∃ actions s', run (step "10.0.0.1:3400") { crowdedState with incRound := 60 } actions =
        some s' ∧
      (trace (step "10.0.0.1:3400") events { crowdedState with incRound := 60 }
        actions).count .began = 1 ∧
      1 ≤ sqliteCountUnacked s'.db "10.0.0.1:3400" := by
  have begun : { crowdedState with incRound := 60 }.phase = .loop := rfl
  obtain ⟨actions, s', runs, -, -, -, round⟩ :=
    round_exists "10.0.0.1:3400" lastRow [] begun (by decide) (by decide)
      (show Rested lastRow 200000 by decide) true
  have late := loop_leaves_unverified "10.0.0.1:3400" { crowdedState with incRound := 60 } s' actions
    (by decide) rfl (by decide) runs
  have all : sqliteCountUnacked crowdedState.db "10.0.0.1:3400" = roundLimit + 1 := by
    rw [sqliteCountUnacked, crowdedState_unacked]
    simp [frontRows]
  have left := late.2.1
  rw [round.began, Nat.mul_one] at left
  refine ⟨actions, s', runs, round.began, ?_⟩
  have more : roundLimit + 1 ≤ sqliteCountUnacked s'.db "10.0.0.1:3400" + roundLimit :=
    all ▸ left
  omega

end Go2Cloud.RoundBudget
