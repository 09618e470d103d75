import Go2Cloud.Migration.BlockBounds
import Go2Cloud.Migration.TailLoop

/-! The rows that the full sync inserts into T_BLOCK, found again by the lookup of the
incremental rounds (do_migrate and do_incremental_round in client/main.c). -/
namespace Go2Cloud.FullSyncRows
open Protocol Reader Tracker BlockWriter Round Mirror Transition ReaderTable BlockBounds TailLoop
open Retransmit (diskOffset)

def plan (drives : Drives) (opens : Fin maxTargetDisks → Bool) (entries : List Entry) :
    List BlockRead :=
  entries.flatMap mainReads ++ gptReads drives opens entries

theorem length_le (r : BlockRead) : length r ≤ blockSize :=
  (Nat.min_le_left _ _).trans (Nat.min_le_left _ _)

def readData (src : Source) (r : BlockRead) : ReadData :=
  ⟨r.data src, (data_length src r).trans_le (length_le r)⟩

theorem readData_val (src : Source) (r : BlockRead) : (readData src r).1 = r.data src := rfl

-- whatever the disk has there at the time
def WholeRead (r : BlockRead) (data : ReadData) : Prop := data.1.length = length r

/-- The reads of the plan, of do_retransmit and of the rounds, where they succeed, and what
they may return. -/
def Returns (drives : Drives) (opens : Fin maxTargetDisks → Bool) (entries : List Entry)
    (gives : BlockRead → ReadData → Prop) (s : State) : Action → Prop
  | .send false k read _ =>
    ∃ r ∈ plan drives opens entries, r.key = k ∧ ∀ data, read = some data → gives r data
  | .send true k read _ =>
    ∀ data, read = some data → ∃ r, retransmitRead entries k = some r ∧ gives r data
  | .examine _ live _ _ => ∀ p row rest, s.phase = .round p → p.batch = row :: rest →
    ∀ data, live = some data → ∃ r, roundRead entries row.key = some r ∧ gives r data
  | _ => True

def inserted (s : State) : Action → List Key
  | .send false k read pushed => if (sentHash s.db k read pushed).isSome then [k] else []
  | _ => []

def transferred : Action → Option Key
  | .send false k _ _ => some k
  | _ => none

/-- A run of do_migrate from a tracker: the blocks of the plan in its order, with retransmissions
and rounds in between. -/
structure Migrates (drives : Drives) (opens : Fin maxTargetDisks → Bool) (entries : List Entry)
    (gives : BlockRead → ReadData → Prop) (remoteId : String) (db : BlockTable)
    (actions : List Action) : Prop where
  order : actions.filterMap transferred <+: (plan drives opens entries).map BlockRead.key
  returns : Meets (step remoteId) (Returns drives opens entries gives) (start db) actions
  completes : (run (step remoteId) (start db) actions).isSome

def Served (opens : Fin maxTargetDisks → Bool) (entries : List Entry) (d : Fin maxTargetDisks) :
    Prop :=
  ∃ e, entries.find? (fun e => e.devno = d) = some e ∧ (!e.isVss || opens d) = true

variable {drives : Drives} {opens : Fin maxTargetDisks → Bool} {entries : List Entry}
  {gives : BlockRead → ReadData → Prop} {remoteId : String}

theorem mem_gptReads (valid : ∀ e ∈ entries, e.Valid drives) {r : BlockRead} :
    r ∈ gptReads drives opens entries ↔
      ∃ d, Served opens entries d ∧ r ∈ gptBlockReads (drives.handle d) := by
  have disk : ∀ e ∈ entries,
      (if e.isVss then drives.handle e.devno else e.reader) = drives.handle e.devno := by
    intro e member
    split
    · rfl
    next drive => exact (valid e member).drive (by simpa using drive)
  simp only [gptReads, List.mem_flatMap, Keyed.mem_once, true_and]
  constructor
  · rintro ⟨e, first, member⟩
    unfold gptEntryReads at member
    split at member
    · cases member
    next sends =>
      rw [disk e (List.mem_of_find?_eq_some first)] at member
      exact ⟨e.devno, ⟨e, first, by cases h : e.isVss <;> simp_all⟩, member⟩
  · rintro ⟨d, ⟨e, first, sends⟩, member⟩
    obtain rfl : e.devno = d := by simpa using List.find?_some first
    refine ⟨e, first, ?_⟩
    rw [gptEntryReads, if_neg (by cases h : e.isVss <;> simp_all),
      disk e (List.mem_of_find?_eq_some first)]
    exact member

theorem matched_iff (valid : ∀ e ∈ entries, e.Valid drives) (d : Fin maxTargetDisks) {off : Nat}
    (small : off < 2 ^ 63) :
    (∃ e, findEntry entries (keyAt d off) = some e) ↔
      ∃ e ∈ entries, e.devno = d ∧ e.partitionOffset ≤ off ∧
        off < e.partitionOffset + e.reader.size := by
  rw [← Option.isSome_iff_exists, findEntry, List.find?_isSome]
  refine exists_congr fun e => and_congr_right fun member => ?_
  have v := valid e member
  have offset := v.offset_lt
  have size := v.reader_size
  have device : Int32.ofInt e.devno.val = Int32.ofInt d.val ↔ e.devno = d :=
    ⟨devno_injective, fun same => by rw [same]⟩
  simp only [decide_eq_true_eq, Retransmit.ReaderEntry.Covers, Entry.range,
    diskOffset_keyAt d (show off < 2 ^ 64 by omega)]
  rw [Nat.mod_eq_of_lt (by omega)]
  exact and_congr_left fun _ => device

theorem length_pos_iff {r : BlockRead} (size : r.handle.size < 2 ^ 64) :
    0 < length r ↔ r.offset < r.handle.size := by
  have block : 0 < blockSize := by decide
  rw [length_eq size]
  omega

theorem data_ne_nil_iff (src : Source) {r : BlockRead} : r.data src ≠ [] ↔ 0 < length r := by
  rw [← List.length_pos_iff, data_length]

theorem mainReads_matched (valid : ∀ e ∈ entries, e.Valid drives) {e : Entry} (member : e ∈ entries)
    {r : BlockRead} (h : r ∈ mainReads e) : ∃ e, findEntry entries r.key = some e := by
  obtain ⟨blk, hb, rfl⟩ := List.mem_map.mp h
  have fit := transferBlocks_inside (List.mem_range.mp hb)
  have block : 0 < blockSize := by decide
  have size := (valid e member).reader_size
  exact (matched_iff valid e.devno (by omega)).mpr
    ⟨e, member, rfl, Nat.le_add_right _ _, by omega⟩

/-- The offsets of the GPT step have a partition around them: one starts the disk, and the
last two whole blocks begin inside one. -/
def GptMatched (drives : Drives) (entries : List Entry) (d : Fin maxTargetDisks) : Prop :=
  let alignedEnd := drives.size d / blockSize * blockSize
  (∃ e ∈ entries, e.devno = d ∧ e.partitionOffset = 0 ∧ 0 < e.reader.size) ∧
    (alignedEnd ≥ 2 * blockSize → ∀ t ∈ [2, 1], ∃ e ∈ entries, e.devno = d ∧
      e.partitionOffset ≤ alignedEnd - t * blockSize ∧
      alignedEnd - t * blockSize < e.partitionOffset + e.reader.size)

theorem gptBlockReads_matched_iff (valid : ∀ e ∈ entries, e.Valid drives)
    (d : Fin maxTargetDisks) :
    (∀ r ∈ gptBlockReads (drives.handle d), 0 < length r →
      ∃ e, findEntry entries r.key = some e) ↔
      (0 < drives.size d → GptMatched drives entries d) := by
  have size := drives.size_lt d
  have below := Nat.div_mul_le_self (drives.size d) blockSize
  have block : 0 < blockSize := by decide
  have read : ∀ off, 0 < length ⟨drives.handle d, off, keyAt d off⟩ ↔ off < drives.size d :=
    fun off => length_pos_iff (drives.handle_lt d)
  have first : (∃ e, findEntry entries (keyAt d 0) = some e) ↔
      ∃ e ∈ entries, e.devno = d ∧ e.partitionOffset = 0 ∧ 0 < e.reader.size := by
    rw [matched_iff valid d (by decide)]
    refine exists_congr fun e => and_congr_right fun _ => and_congr_right fun _ => ?_
    omega
  have device : (drives.handle d).devno = d := rfl
  have total : (drives.handle d).size = drives.size d := rfl
  simp only [gptBlockReads, GptMatched]
  rw [List.forall_mem_cons, device, total, read, first]
  by_cases two : drives.size d / blockSize * blockSize ≥ 2 * blockSize
  · have positive : 0 < drives.size d := by omega
    rw [if_pos two, List.forall_mem_map]
    simp only [positive, two, true_imp_iff]
    refine and_congr_right fun _ => forall₂_congr fun t ht => ?_
    have inside : drives.size d / blockSize * blockSize - t * blockSize < drives.size d := by
      simp only [List.mem_cons, List.not_mem_nil, or_false] at ht
      rcases ht with rfl | rfl <;> omega
    rw [read, matched_iff valid d (by omega)]
    exact ⟨fun matched => matched inside, fun matched _ => matched⟩
  · simp [two]

def planRun (src : Source) (reads : List BlockRead) : List Action :=
  reads.map fun r => .send false r.key (some (readData src r)) true

theorem sentHash_fresh {db : BlockTable} {k : Key} {data : ReadData} (nonempty : data.1 ≠ [])
    (absent : Keyed.get db k = none) : sentHash db k (some data) true = some data := by
  simp [sentHash, nonempty, sqliteBlockAcked, sqliteBlockLookup, absent]

theorem get_sendBlock_sent {version : Int} {db : BlockTable} {k : Key} {read : Option ReadData}
    {pushed : Bool} {data : ReadData} (sent : sentHash db k read pushed = some data) :
    Keyed.get (sendBlock remoteId version db k read pushed) k = some ⟨k.1, k.2,
      Int32.ofInt data.1.length, blockHash k.2 data.1, false, 0, version, remoteId⟩ := by
  rw [sendBlock, sent, get_upsert, if_pos rfl]

theorem get_sendBlock_of_ne {version : Int} {db : BlockTable} {k k' : Key} {read : Option ReadData}
    {pushed : Bool} (other : k' ≠ k) :
    Keyed.get (sendBlock remoteId version db k' read pushed) k = Keyed.get db k := by
  unfold sendBlock
  split
  · rfl
  · rw [get_upsert, if_neg other]

/-- From a tracker without a row of the key, the first read of it that returns bytes
inserts one. -/
theorem planRun_inserts (remoteId : String) (src : Source) (reads : List BlockRead) {s : State}
    (full : s.phase = .full) :
    (run (step remoteId) s (planRun src reads)).isSome ∧
      ∀ r ∈ reads, 0 < length r → Keyed.get s.db r.key = none →
        r.key ∈ trace (step remoteId) inserted s (planRun src reads) := by
  induction reads generalizing s with
  | nil => exact ⟨rfl, by simp⟩
  | cons x reads ih =>
    obtain ⟨s', next, same, full'⟩ : ∃ s',
        step remoteId s (.send false x.key (some (readData src x)) true) = some s' ∧
          s'.db = sendBlock remoteId s.version s.db x.key (some (readData src x)) true ∧
          s'.phase = .full :=
      ⟨_, if_pos (by simp [Sends, full]), rfl, full⟩
    obtain ⟨completes, inserts⟩ := ih full'
    have unfolded : trace (step remoteId) inserted s (planRun src (x :: reads)) =
        inserted s (.send false x.key (some (readData src x)) true) ++
          trace (step remoteId) inserted s' (planRun src reads) := by
      simp only [planRun, List.map_cons, trace, next, Option.elim_some]
    refine ⟨by simpa [planRun, run, next] using completes, fun r member nonempty absent => ?_⟩
    rw [unfolded, List.mem_append]
    by_cases here : x.key = r.key
    · cases found : sentHash s.db x.key (some (readData src x)) true with
      | some data =>
        left
        rw [← here]
        simp [inserted, found]
      | none =>
        -- the read returned nothing, so the block comes later
        right
        have later : r ∈ reads := by
          rcases List.mem_cons.mp member with rfl | later
          · rw [sentHash_fresh ((data_ne_nil_iff src).mpr nonempty) absent] at found
            cases found
          · exact later
        refine inserts r later nonempty ?_
        rw [same, sendBlock, found]
        exact absent
    · right
      have later : r ∈ reads := by
        rcases List.mem_cons.mp member with rfl | later
        · exact absurd rfl here
        · exact later
      refine inserts r later nonempty ?_
      rw [same, get_sendBlock_of_ne here]
      exact absent

theorem planRun_migrates (drives : Drives) (opens : Fin maxTargetDisks → Bool)
    (entries : List Entry) (src : Source) (remoteId : String) (db : BlockTable) :
    Migrates drives opens entries WholeRead remoteId db
      (planRun src (plan drives opens entries)) where
  order := by
    have keys : (planRun src (plan drives opens entries)).filterMap transferred =
        (plan drives opens entries).map BlockRead.key := by
      rw [planRun, List.filterMap_map, ← List.filterMap_eq_map]
      rfl
    rw [keys]
  returns := by
    refine meets_of_forall _ fun a member s => ?_
    obtain ⟨r, planned, rfl⟩ := List.mem_map.mp member
    refine ⟨r, planned, rfl, ?_⟩
    rintro data ⟨⟩
    exact data_length src r
  completes := (planRun_inserts remoteId src _ rfl).1

def Planned (drives : Drives) (opens : Fin maxTargetDisks → Bool) (entries : List Entry)
    (seen : List Key) : Prop :=
  ∀ k ∈ seen, ∃ r ∈ plan drives opens entries, r.key = k ∧ 0 < length r

theorem sentHash_eq_some {db : BlockTable} {k : Key} {read : Option ReadData} {pushed : Bool}
    {data : ReadData} (h : sentHash db k read pushed = some data) :
    read = some data ∧ data.1 ≠ [] := by
  unfold sentHash at h
  split at h
  · cases h
  · split_ifs at h with empty
    cases h
    exact ⟨rfl, empty⟩

theorem inserted_eq {s : State} {a : Action} {k : Key} (h : k ∈ inserted s a) :
    ∃ read pushed data, a = .send false k read pushed ∧ sentHash s.db k read pushed = some data := by
  unfold inserted at h
  split at h
  next read pushed =>
    split at h
    next sent =>
      obtain ⟨data, found⟩ := Option.isSome_iff_exists.mp sent
      obtain rfl := List.mem_singleton.mp h
      exact ⟨read, pushed, data, rfl, found⟩
    · cases h
  · cases h

theorem inserted_read {s : State} {a : Action} {k : Key} (h : k ∈ inserted s a)
    (returns : Returns drives opens entries gives s a) :
    ∃ r ∈ plan drives opens entries, r.key = k ∧ ∃ data : ReadData, gives r data ∧ data.1 ≠ [] ∧
      ∃ pushed, a = .send false k (some data) pushed := by
  obtain ⟨read, pushed, data, rfl, found⟩ := inserted_eq h
  obtain ⟨rfl, nonempty⟩ := sentHash_eq_some found
  obtain ⟨r, planned, key, given⟩ := returns
  exact ⟨r, planned, key, data, given data rfl, nonempty, pushed, rfl⟩

theorem inserted_planned {db : BlockTable} {actions : List Action}
    (h : Migrates drives opens entries WholeRead remoteId db actions) :
    Planned drives opens entries (trace (step remoteId) inserted (start db) actions) := by
  obtain ⟨s, completes⟩ := Option.isSome_iff_exists.mp h.completes
  have start : Planned drives opens entries [] := by rintro k ⟨⟩
  refine run_invariant_trace (P := fun seen _ => Planned drives opens entries seen)
    (fun seen s a s' planned returns _ k member => ?_) completes h.returns start
  rcases List.mem_append.mp member with before | here
  · exact planned k before
  · obtain ⟨r, member, key, data, whole, nonempty, -⟩ := inserted_read here returns
    exact ⟨r, member, key, whole ▸ List.length_pos_iff.mpr nonempty⟩

/-- Every row the full sync inserts is found again by the rounds, exactly when on every
disk the GPT step serves the blocks of the GPT step lie in partitions. -/
theorem inserted_matched_iff (drives : Drives) (opens : Fin maxTargetDisks → Bool)
    (volumes : List (Volume × Opening)) (remoteId : String) :
    (∀ db actions,
      Migrates drives opens (readers drives true volumes) WholeRead remoteId db actions →
        ∀ k ∈ trace (step remoteId) inserted (start db) actions,
          ∃ e, findEntry (readers drives true volumes) k = some e) ↔
      ∀ d, Served opens (readers drives true volumes) d → 0 < drives.size d →
        GptMatched drives (readers drives true volumes) d := by
  have valid : ∀ e ∈ readers drives true volumes, e.Valid drives := fun e => valid_of_mem_readers
  constructor
  · intro matched d served
    refine (gptBlockReads_matched_iff valid d).mp fun r member nonempty => ?_
    have planned : r ∈ plan drives opens (readers drives true volumes) :=
      List.mem_append_right _ ((mem_gptReads valid).mpr ⟨d, served, member⟩)
    -- a full sync of an empty disk is enough
    exact matched Keyed.empty _ (planRun_migrates drives opens _ (fun _ _ => 0) remoteId _) r.key
      ((planRun_inserts remoteId _ _ rfl).2 r planned nonempty rfl)
  · intro covered db actions migrates k member
    obtain ⟨r, planned, rfl, nonempty⟩ := inserted_planned migrates k member
    rcases List.mem_append.mp planned with main | gpt
    · obtain ⟨e, entry, read⟩ := List.mem_flatMap.mp main
      exact mainReads_matched valid entry read
    · obtain ⟨d, served, read⟩ := (mem_gptReads valid).mp gpt
      exact (gptBlockReads_matched_iff valid d).mpr (covered d served) r read nonempty

-- one partition behind the first block of a disk of eight blocks, read from the drive
def usualDrives : Drives := ⟨fun _ => 8 * blockSize, fun _ => eightBlocks_lt⟩

def usualVolumes : List (Volume × Opening) :=
  [(⟨0, blockSize, 4 * blockSize, false, blockSize_lt, fourBlocks_lt⟩, .fromDrive)]

def usualEntries : List Entry := readers usualDrives true usualVolumes

def primaryGpt : BlockRead := ⟨usualDrives.handle 0, 0, keyAt 0 0⟩

/-- The row of the primary GPT is inserted, and no reader entry has its offset. -/
theorem primaryGpt_unmatched :
    Migrates usualDrives (fun _ => true) usualEntries WholeRead "10.0.0.1:3400" Keyed.empty
        (planRun (fun _ _ => 0) (plan usualDrives (fun _ => true) usualEntries)) ∧
      keyAt 0 0 ∈ trace (step "10.0.0.1:3400") inserted (start Keyed.empty)
        (planRun (fun _ _ => 0) (plan usualDrives (fun _ => true) usualEntries)) ∧
      findEntry usualEntries (keyAt 0 0) = none := by
  have planned : primaryGpt ∈ plan usualDrives (fun _ => true) usualEntries := by decide +kernel
  have nonempty : 0 < length primaryGpt := (length_pos_iff (by decide)).mpr (by decide)
  exact ⟨planRun_migrates .., (planRun_inserts "10.0.0.1:3400" _ _ rfl).2 primaryGpt planned nonempty
    rfl, by decide +kernel⟩

end Go2Cloud.FullSyncRows
