import Go2Cloud.Migration.TailLoop

/-! What the two convergence conditions of should_finish say about the blocks
(client/main.c). The first counts only rows of earlier versions, the second only rounds
without a re-sent block. -/
namespace Go2Cloud.Finishing
open Protocol Reader Tracker Round Transition TailLoop
open IncrementalLoop (Phase)

variable {remoteId : String} {s s' : State} {a : Action}

/-- At a perfect finish nothing is unacknowledged, exactly when no block was last sent
under the version of the round or a later one. -/
theorem perfect_finish_iff (remoteId : String) (db : BlockTable) (actions : List Action)
    (s : State) (p : Progress) (h : run (step remoteId) (start db) actions = some s)
    (phase : s.phase = .round p) (perfect : finishes remoteId s = some .perfect) :
    unackedRows s.db remoteId = [] ↔
      ∀ k version, ledger remoteId db actions k = some version → version < p.version := by
  obtain ⟨q, zeroRounds, phase', -, positive, decided⟩ := finishes_some perfect
  obtain rfl : p = q := Phase.round.inj (phase.symm.trans phase')
  have counted := shouldFinish_perfect positive decided
  constructor
  · intro none_left k version entry
    rw [← run_ledger h, unackedVersion_eq_some, none_left] at entry
    obtain ⟨row, member, -⟩ := entry
    cases member
  · intro earlier
    rw [List.eq_nil_iff_forall_not_mem]
    intro row member
    obtain ⟨found, unacked, remote⟩ := mem_unackedRows.mp member
    have current := version_of_countUnackedV counted ((Keyed.get_eq_some_iff s.db).mp found).1
      remote unacked
    have entry : ledger remoteId db actions row.key = some row.version := by
      rw [← run_ledger h]
      exact unackedVersion_eq_some.mpr ⟨row, member, rfl, rfl⟩
    exact absurd (earlier row.key row.version entry) (by omega)

theorem shouldFinish_stable {db : BlockTable} {requeued : Nat} {version : Int}
    {zeroChangeRounds incRound zeroRounds : Nat} (positive : 0 < version)
    (h : shouldFinish db remoteId requeued version zeroChangeRounds incRound =
      (some .stable, zeroRounds)) : ∃ row, row ∈ unackedRows db remoteId := by
  unfold shouldFinish at h
  simp only [gt_iff_lt, if_pos positive] at h
  by_cases left : sqliteCountUnackedV db remoteId version = 0
  · rw [if_pos left] at h
    simp at h
  · obtain ⟨row, member, -⟩ := List.countP_pos_iff.mp (Nat.pos_of_ne_zero left)
    exact ⟨row, member⟩

def Kept (remoteId : String) (seen : List Mark) (s : State) : Prop :=
  Open remoteId s ∧ ∀ k, .verified k ∈ seen → sqliteBlockAcked s.db k = some true

theorem run_verified {actions : List Action} (h : run (step remoteId) s actions = some s')
    (inv : Open remoteId s) :
    Kept remoteId ([] ++ trace (step remoteId) marks s actions) s' := by
  have always : Meets (step remoteId) (fun _ _ => True) s actions :=
    meets_of_forall _ fun _ _ _ => trivial
  refine run_invariant_trace (fun seen s a s' kept _ next => ?_) h always ⟨inv, by simp⟩
  refine ⟨step_open kept.1 next, fun k member => ?_⟩
  rcases List.mem_append.mp member with before | here
  · exact step_acked kept.1 next (kept.2 k before)
  · exact step_verified kept.1 next here

/-- Every row left unacknowledged was re-read and found unchanged in the part `rounds` of
a run exactly when the run does not end by the stable condition there: a row that is found
unchanged is acknowledged, and a stable finish leaves some row that is not. -/
theorem stable_finish_iff (remoteId : String) (db : BlockTable) (before rounds : List Action)
    (s₁ s : State) (h₁ : run (step remoteId) (start db) before = some s₁)
    (h : run (step remoteId) s₁ rounds = some s) :
    (finishes remoteId s = some .stable → ∀ row ∈ unackedRows s.db remoteId,
      .verified row.key ∈ trace (step remoteId) marks s₁ rounds) ↔
      finishes remoteId s ≠ some .stable := by
  refine ⟨fun checked stable => ?_, fun other stable => absurd stable other⟩
  obtain ⟨p, zeroRounds, -, -, positive, decided⟩ := finishes_some stable
  obtain ⟨row, member⟩ := shouldFinish_stable positive decided
  have inv := (run_verified h₁ (open_start db)).1
  have acked := (run_verified h inv).2 row.key (checked stable row member)
  obtain ⟨found, unacked, -⟩ := mem_unackedRows.mp member
  rw [sqliteBlockAcked, found, Option.map_some, unacked] at acked
  cases acked

def byteRead (b : UInt8) : ReadData := ⟨List.replicate 64 b, Nat.le_of_ble_eq_true rfl⟩

def sentRow (b : UInt8) (lastSent version : Int) : Row :=
  ⟨0, 0, 64, blockHash 0 (List.replicate 64 b), false, lastSent, version, "10.0.0.1:3400"⟩

def resentActions : List Action :=
  -- the full sync sends a block, and the first round finds it changed and sends it again
  [.send false (0, 0) (some (byteRead 3)) true, .startLoop 1, .beginRound [sentRow 3 0 0] 200000,
    .examine 0 (some (byteRead 5)) true 200000]

/-- The block sent again in the last round counts as version 1, not as an earlier one. -/
theorem resentActions_perfect :
    ∃ s, run (step "10.0.0.1:3400") (start Keyed.empty) resentActions = some s ∧
      finishes "10.0.0.1:3400" s = some .perfect ∧
      unackedRows s.db "10.0.0.1:3400" = [sentRow 5 200000 1] :=
  ⟨(run (step "10.0.0.1:3400") (start Keyed.empty) resentActions).get (by decide +kernel),
    (Option.some_get _).symm, by decide +kernel, by decide +kernel⟩

theorem perfect_finish_iff_resent :
    ∃ s p, run (step "10.0.0.1:3400") (start Keyed.empty) resentActions = some s ∧
      s.phase = .round p ∧ finishes "10.0.0.1:3400" s = some .perfect ∧
      (unackedRows s.db "10.0.0.1:3400" = [] ↔ ∀ k version,
        ledger "10.0.0.1:3400" Keyed.empty resentActions k = some version → version < p.version) := by
  obtain ⟨s, p, completes, phase, perfect⟩ : ∃ s p,
      run (step "10.0.0.1:3400") (start Keyed.empty) resentActions = some s ∧
        s.phase = .round p ∧ finishes "10.0.0.1:3400" s = some .perfect :=
    ⟨(run (step "10.0.0.1:3400") (start Keyed.empty) resentActions).get (by decide +kernel),
      ⟨[], 200000, 1, 1⟩, (Option.some_get _).symm, by decide +kernel, by decide +kernel⟩
  exact ⟨s, p, completes, phase, perfect, perfect_finish_iff "10.0.0.1:3400" Keyed.empty
    resentActions s p completes phase perfect⟩

def beforeLoop : List Action :=
  -- a block sent in the full sync is sent again by a round in it, 18 s before the loop
  [.send false (0, 0) (some (byteRead 3)) true, .beginRound [sentRow 3 0 0] 1000000,
    .examine 0 (some (byteRead 5)) true 1000000, .endRound true, .startLoop 1]

/-- Three rounds, 18 s apart, while the block has changed once more. -/
def coolingRounds : List Action :=
  [.beginRound [sentRow 5 1000000 0] 1018000, .examine 0 (some (byteRead 9)) true 1018000,
    .endRound true,
    .beginRound [sentRow 5 1000000 0] 1036000, .examine 0 (some (byteRead 9)) true 1036000,
    .endRound true,
    .beginRound [sentRow 5 1000000 0] 1054000, .examine 0 (some (byteRead 9)) true 1054000]

def loopStart : State :=
  (run (step "10.0.0.1:3400") (start Keyed.empty) beforeLoop).getD (start Keyed.empty)

theorem loopStart_run :
    run (step "10.0.0.1:3400") (start Keyed.empty) beforeLoop = some loopStart := by
  have completes : (run (step "10.0.0.1:3400") (start Keyed.empty) beforeLoop).isSome := by
    decide +kernel
  obtain ⟨s, hs⟩ := Option.isSome_iff_exists.mp completes
  rw [loopStart, hs, Option.getD_some]

/-- The loop ends by the stable condition, and the block was not looked at in any of the
three rounds. -/
theorem coolingRounds_stable :
    run (step "10.0.0.1:3400") (start Keyed.empty) beforeLoop = some loopStart ∧
      ∃ s, run (step "10.0.0.1:3400") loopStart coolingRounds = some s ∧
        finishes "10.0.0.1:3400" s = some .stable ∧
        unackedRows s.db "10.0.0.1:3400" = [sentRow 5 1000000 0] ∧
        trace (step "10.0.0.1:3400") marks loopStart coolingRounds = [] :=
  ⟨loopStart_run,
    (run (step "10.0.0.1:3400") loopStart coolingRounds).get (by decide +kernel),
    (Option.some_get _).symm, by decide +kernel, by decide +kernel, by decide +kernel⟩

theorem stable_finish_iff_cooling :
    ∃ s, run (step "10.0.0.1:3400") loopStart coolingRounds = some s ∧
      ((finishes "10.0.0.1:3400" s = some .stable → ∀ row ∈ unackedRows s.db "10.0.0.1:3400",
        .verified row.key ∈ trace (step "10.0.0.1:3400") marks loopStart coolingRounds) ↔
        finishes "10.0.0.1:3400" s ≠ some .stable) := by
  obtain ⟨s, completes⟩ : ∃ s, run (step "10.0.0.1:3400") loopStart coolingRounds = some s :=
    Option.isSome_iff_exists.mp (by decide +kernel)
  exact ⟨s, completes, stable_finish_iff "10.0.0.1:3400" Keyed.empty beforeLoop coolingRounds
    loopStart s loopStart_run completes⟩

end Go2Cloud.Finishing
