import Go2Cloud.Client.Hash
import Go2Cloud.Client.Reader
import Go2Cloud.Client.Tracker

/-! One row of an incremental round and the end of the incremental loop
(do_incremental_round and should_finish in client/main.c). -/
namespace Go2Cloud.Round
open Protocol Hash Reader Tracker

def roundLimit : Nat := 4096

structure Progress where
  batch : List Row
  now : Int
  version : Int
  requeued : Nat
  deriving DecidableEq, Repr

inductive Decision where
  | cooldown
  | backpressure
  | unread
  | unchanged
  | changed (data : ReadData)
  deriving DecidableEq

def blockHash (offset : Int64) (data : List UInt8) : UInt64 := hashBlock data (blockSeed offset)

/-- What the loop body decides about a row; `live` is what the live reader
returned, `none` without a reader or after a failed read. -/
def examineRow (now : Int) (queueCount : Nat) (row : Row) (live : Option ReadData) : Decision :=
  if row.lastSent > 0 ∧ now - row.lastSent < retransmitMinIntervalSec * 1000 then .cooldown
  else if queueCount > 9 then .backpressure
  else
    match live with
    | none => .unread
    | some data =>
      if data.1 = [] then .unread
      else if blockHash row.offset data.1 = row.hash then .unchanged
      else .changed data

def Rested (r : Row) (now : Int) : Prop :=
  r.lastSent ≤ 0 ∨ retransmitMinIntervalSec * 1000 ≤ now - r.lastSent

instance (r : Row) (now : Int) : Decidable (Rested r now) := inferInstanceAs (Decidable (_ ∨ _))

theorem Rested.lt {r : Row} {now : Int} (h : Rested r now) (positive : 0 < now) : r.lastSent < now := by
  unfold Rested retransmitMinIntervalSec at h
  omega

theorem Rested.before {r x : Row} {now : Int} (h : Rested r now) (first : x.before r = true) : Rested x now := by
  unfold Row.before at first
  unfold Rested at h ⊢
  simp only [Bool.or_eq_true, Bool.and_eq_true, decide_eq_true_eq, beq_iff_eq] at first
  omega

theorem examineRow_cooldown_iff (now : Int) (queueCount : Nat) (row : Row) (live : Option ReadData) :
    examineRow now queueCount row live = .cooldown ↔ ¬ Rested row now := by
  unfold examineRow Rested
  split
  next cooling => exact ⟨fun _ => by omega, fun _ => rfl⟩
  next rested =>
    refine ⟨fun h => ?_, fun cooling => absurd cooling (by omega)⟩
    split at h
    · cases h
    · split at h
      · cases h
      · split at h
        · cases h
        · split at h <;> cases h

theorem examineRow_backpressure {now : Int} {queueCount : Nat} {row : Row} {live : Option ReadData}
    (h : examineRow now queueCount row live = .backpressure) : 9 < queueCount := by
  unfold examineRow at h
  split at h
  · cases h
  split at h
  next long => exact long
  · split at h
    · cases h
    · split at h
      · cases h
      · split at h <;> cases h

def markStable (db : BlockTable) (k : Key) (version now : Int) : BlockTable :=
  sqliteUpdateLastSent
    (if version > 0 then sqliteBlockMarkVerified db k version else sqliteBlockMarkAcked db k) k now

theorem mem_markStable {db : BlockTable} {k : Key} {version now : Int} {row : Row}
    (h : row ∈ (markStable db k version now).rows) :
    ∃ old ∈ db.rows, Row.Marked k version old row := by
  obtain ⟨mid, member, same, ack, ver⟩ := mem_updateLastSent h
  have marked : ∃ old ∈ db.rows, Row.Marked k version old mid := by
    split at member
    · exact mem_markVerified member
    · exact mem_markAcked member version
  obtain ⟨old, member, marked⟩ := marked
  refine ⟨old, member, marked.toSame.trans same, ?_⟩
  rw [ack, ver]
  exact marked.mark

@[simp] theorem lookup_markStable (db : BlockTable) (k : Key) (version now : Int) (k' : Key) :
    sqliteBlockLookup (markStable db k version now) k' = sqliteBlockLookup db k' := by
  unfold markStable
  split <;> simp

theorem get_markStable (db : BlockTable) (k k' : Key) (version now : Int) :
    Keyed.get (markStable db k version now) k' = (Keyed.get db k').map fun r =>
      if r.key = k then
        { r with ack := true, version := if version > 0 then version else r.version, lastSent := now }
      else r := by
  rw [markStable, get_updateLastSent]
  split
  · rw [get_markVerified, Option.map_map]
    refine Option.map_congr fun r _ => ?_
    by_cases here : r.key = k
    · subst here
      simp [Row.key]
    · simp [here]
  · rw [get_markAcked, Option.map_map]
    refine Option.map_congr fun r _ => ?_
    by_cases here : r.key = k
    · subst here
      simp [Row.key]
    · simp [here]

def recordResent (db : BlockTable) (remoteId : String) (b : Block) (hash : UInt64)
    (version now : Int) : BlockTable :=
  sqliteUpdateLastSent
    (sqliteBlockUpsertV db remoteId b.key (Int32.ofInt b.data.length) hash false version) b.key now

theorem lookup_recordResent (db : BlockTable) (remoteId : String) (b : Block) (hash : UInt64)
    (version now : Int) (k : Key) :
    sqliteBlockLookup (recordResent db remoteId b hash version now) k =
      if b.key = k then some hash else sqliteBlockLookup db k := by
  rw [recordResent, lookup_updateLastSent, lookup_upsert]

theorem get_recordResent (db : BlockTable) (remoteId : String) (b : Block) (hash : UInt64)
    (version now : Int) (k : Key) :
    Keyed.get (recordResent db remoteId b hash version now) k =
      if b.key = k then
        some ⟨b.devno, b.offset, Int32.ofInt b.data.length, hash, false, now, version, remoteId⟩
      else Keyed.get db k := by
  rw [recordResent, get_updateLastSent, get_upsert]
  by_cases here : b.key = k
  · rw [if_pos here, if_pos here, Option.map_some]
    exact congrArg some (if_pos rfl)
  · rw [if_neg here, if_neg here]
    have others : (Keyed.get db k).map
        (fun r => if r.key = b.key then { r with lastSent := now } else r) =
          (Keyed.get db k).map id := by
      refine Option.map_congr fun r found => ?_
      have key := ((Keyed.get_eq_some_iff db).mp found).2
      exact if_neg fun same => here (same.symm.trans key)
    rw [others, Option.map_id_fun, id]

theorem mem_recordResent {db : BlockTable} {remoteId : String} {b : Block} {hash : UInt64}
    {version now : Int} {row : Row}
    (h : row ∈ (recordResent db remoteId b hash version now).rows) :
    row = ⟨b.devno, b.offset, Int32.ofInt b.data.length, hash, false, now, version, remoteId⟩ ∨
      (row ∈ db.rows ∧ row.key ≠ b.key) := by
  unfold recordResent sqliteUpdateLastSent at h
  rcases (Keyed.mem_modify _).mp h with ⟨member, other⟩ | ⟨old, member, key, rfl⟩
  · rcases mem_upsert member with rfl | kept
    · exact absurd rfl other
    · exact .inr kept
  · rcases mem_upsert member with rfl | ⟨-, other⟩
    · exact .inl rfl
    · exact absurd key other

theorem examineRow_unchanged {now : Int} {queueCount : Nat} {row : Row} {live : Option ReadData}
    (h : examineRow now queueCount row live = .unchanged) :
    ∃ data, live = some data ∧ data.1 ≠ [] ∧ blockHash row.offset data.1 = row.hash := by
  unfold examineRow at h
  split at h
  · cases h
  split at h
  · cases h
  cases live with
  | none => cases h
  | some data =>
    simp only at h
    split at h
    · cases h
    next nonempty =>
      split at h
      next same => exact ⟨data, rfl, nonempty, same⟩
      · cases h

theorem examineRow_changed {now : Int} {queueCount : Nat} {row : Row} {live : Option ReadData}
    {data : ReadData} (h : examineRow now queueCount row live = .changed data) :
    live = some data ∧ data.1 ≠ [] ∧ blockHash row.offset data.1 ≠ row.hash := by
  unfold examineRow at h
  split at h
  · cases h
  split at h
  · cases h
  cases live with
  | none => cases h
  | some read =>
    simp only at h
    split at h
    · cases h
    next nonempty =>
      split at h
      · cases h
      next other =>
        cases h
        exact ⟨rfl, nonempty, other⟩

theorem examineRow_unread {now : Int} {queueCount : Nat} {row : Row} {live : Option ReadData}
    (h : examineRow now queueCount row live = .unread) : ∀ data, live = some data → data.1 = [] := by
  rintro data rfl
  unfold examineRow at h
  split_ifs at h with cooling long
  simp only at h
  split_ifs at h with empty
  exact empty

inductive Finish where
  | perfect
  | stable
  | maxRounds
  deriving DecidableEq, Repr

/-- should_finish: the reason to end, if any, and the new zero_change_rounds. -/
def shouldFinish (db : BlockTable) (remoteId : String) (requeued : Nat) (version : Int)
    (zeroChangeRounds incRound : Nat) : Option Finish × Nat :=
  let unacked :=
    if version > 0 then sqliteCountUnackedV db remoteId version else sqliteCountUnacked db remoteId
  let total := sqliteCountBlocks db
  if unacked = 0 then (some .perfect, zeroChangeRounds)
  else
    let rounds := if requeued = 0 then zeroChangeRounds + 1 else 0
    if requeued = 0 ∧ rounds ≥ convergenceZeroRounds ∧ unacked ≤ max (total / 20) 512 then
      (some .stable, rounds)
    else if incRound ≥ maxIncrementalRounds then (some .maxRounds, rounds)
    else (none, rounds)

theorem shouldFinish_perfect {db : BlockTable} {remoteId : String} {requeued : Nat} {version : Int}
    {zeroChangeRounds incRound zeroRounds : Nat} (positive : 0 < version)
    (h : shouldFinish db remoteId requeued version zeroChangeRounds incRound =
      (some .perfect, zeroRounds)) : sqliteCountUnackedV db remoteId version = 0 := by
  unfold shouldFinish at h
  simp only [gt_iff_lt, if_pos positive] at h
  by_contra left
  rw [if_neg left] at h
  split_ifs at h <;> simp at h

end Go2Cloud.Round
