import Go2Cloud.Migration.IncrementalLoop

/-! What the target holds when the incremental loop ends: the tracker's rows say
which content was last sent for a block and in which rounds it was read. -/
namespace Go2Cloud.Convergence
open Protocol Reader Tracker Round Mirror History Transition IncrementalLoop

variable {remoteId : String} {s s' : State}

def Selected (db : BlockTable) (batch : List Row) : Prop :=
  (batch.map Row.key).Nodup ∧ ∀ r ∈ batch, sqliteBlockLookup db r.key = some r.hash

def ReadUnderVersion (s : State) (k : Key) : Prop :=
  ∃ t, (s.version, t) ∈ s.rounds ∧ t ≤ s.checked k

/-- What a row says: its block's length, and with the current version that it was
verified or sent again in a round of this version. -/
structure RowInv (remoteId : String) (s : State) (row : Row) : Prop where
  remote : row.remoteId = remoteId
  size : ∀ b, latest s.frames row.key = some b → row.size.toInt = b.data.length
  version_le : row.version ≤ s.version
  current : 0 < s.version →
    row.version < s.version ∨ row.ack = true ∨ ReadUnderVersion s row.key

def PhaseInv (s : State) : Prop :=
  match s.phase with
  | .full => s.version = 0
  | .loop => 0 < s.version
  | .round p => Selected s.db p.batch ∧ p.version = s.version ∧ 0 ≤ s.version ∧
    ∃ t, (s.version, t) ∈ s.rounds ∧ t ≤ s.writes
  | .done why => 0 < s.version ∧
    (why = .perfect → ∀ row ∈ s.db.rows, row.ack = false → s.version ≤ row.version)

structure Inv (remoteId : String) (s : State) : Prop where
  images : Images s.toDisks
  tracks : Tracks s.db s.frames
  rows : ∀ row ∈ s.db.rows, RowInv remoteId s row
  phase : PhaseInv s

theorem inv_init (live target : Source) : Inv remoteId (init live target) where
  images :=
    { lastWrite_le := fun _ _ => le_rfl
      checked_le := fun _ => le_rfl
      snapshot := fun _ _ _ => rfl
      copies := fun _ _ found => by cases found
      target := fun _ _ _ found => by cases found }
  tracks := tracks_empty
  rows := by simp [init, Keyed.empty]
  phase := rfl

theorem Inv.latest_of_lookup (h : Inv remoteId s) (b : Block)
    (found : sqliteBlockLookup s.db b.key = some (hashOf b))
    (no_collision : NoCollision s.frames [b]) : latest s.frames b.key = some b := by
  rw [h.tracks b.key, Option.map_eq_some_iff] at found
  obtain ⟨old, is_latest, same⟩ := found
  obtain ⟨member, key⟩ := latest_some is_latest
  rw [is_latest, no_collision old member b List.mem_cons_self key same]

theorem RowInv.mono {row : Row} (h : RowInv remoteId s row) (frames : s'.frames = s.frames)
    (version : s'.version = s.version) (rounds : s.rounds ⊆ s'.rounds)
    (checked : s.checked row.key ≤ s'.checked row.key) : RowInv remoteId s' row where
  remote := h.remote
  size := by
    rw [frames]
    exact h.size
  version_le := by
    rw [version]
    exact h.version_le
  current positive := by
    rw [version] at positive ⊢
    refine (h.current positive).imp_right (.imp_right ?_)
    rintro ⟨t, begun, before⟩
    exact ⟨t, version ▸ rounds begun, before.trans checked⟩

theorem checked_le_confirm (s : State) (k k' : Key) (seen : Nat) :
    s.checked k' ≤ (confirm s k seen).checked k' := by
  simp only [confirm]
  by_cases here : k' = k
  · rw [here, Function.update_self]
    exact le_max_left _ _
  · rw [Function.update_of_ne here]

theorem RowInv.transmit {row : Row} (h : RowInv remoteId s row) {b : Block} (other : row.key ≠ b.key)
    (seen : Nat) (db : BlockTable) : RowInv remoteId (transmit s b seen db) row where
  remote := h.remote
  size b' found := by
    refine h.size b' ?_
    simp only [IncrementalLoop.transmit] at found
    rwa [latest_cons, if_neg (Ne.symm other)] at found
  version_le := h.version_le
  current positive := by
    refine (h.current positive).imp_right (.imp_right ?_)
    rintro ⟨t, begun, before⟩
    refine ⟨t, begun, ?_⟩
    simp only [IncrementalLoop.transmit]
    rwa [Function.update_of_ne other]

theorem rowInv_sent {b : Block} (fits : b.data.length ≤ blockSize) {seen : Nat} {db : BlockTable}
    {row : Row} (remote : row.remoteId = remoteId) (key : row.key = b.key)
    (size : row.size = Int32.ofInt b.data.length) (version : row.version = s.version)
    (current : 0 < s.version → ∃ t, (s.version, t) ∈ s.rounds ∧ t ≤ seen) :
    RowInv remoteId (transmit s b seen db) row where
  remote := remote
  size b' found := by
    simp only [IncrementalLoop.transmit] at found
    rw [key, latest_cons, if_pos rfl] at found
    cases found
    have cap : blockSize = 0x100000 := rfl
    rw [size, Int32.toInt_ofInt_of_le (by omega) (by omega)]
  version_le := le_of_eq version
  current positive := by
    obtain ⟨t, begun, before⟩ := current positive
    refine .inr (.inr ⟨t, begun, ?_⟩)
    simp only [IncrementalLoop.transmit]
    rwa [key, Function.update_self]

theorem RowInv.marked {old row : Row} (h : RowInv remoteId s old) {k : Key}
    (marked : Row.Marked k s.version old row) : RowInv remoteId s row := by
  refine ⟨marked.remoteId.trans h.remote, fun b found => ?_, ?_, fun positive => ?_⟩
  · rw [marked.size]
    exact h.size b (marked.key ▸ found)
  · have before := h.version_le
    rcases marked.mark with ⟨-, ver⟩ | ⟨-, -, ver | ver⟩ <;> omega
  · rw [marked.key]
    rcases marked.mark with ⟨ack, ver⟩ | ⟨-, ack, -⟩
    · rw [ack, ver]
      exact h.current positive
    · exact .inr (.inl ack)

theorem Inv.sourceWrite (h : Inv remoteId s) (devno : Int32) (pos : Nat) (bytes : List UInt8) :
    Inv remoteId (sourceWrite s devno pos bytes) where
  images := h.images.sourceWrite devno pos bytes
  tracks := h.tracks
  rows row member := (h.rows row member).mono rfl rfl (List.Subset.refl _) le_rfl
  phase := by
    have here := h.phase
    simp only [PhaseInv, IncrementalLoop.sourceWrite] at here ⊢
    split at here
    · exact here
    · exact here
    · obtain ⟨selected, version, nonneg, t, begun, before⟩ := here
      exact ⟨selected, version, nonneg, t, begun, Nat.le_succ_of_le before⟩
    · exact here

theorem Inv.sendRead (h : Inv remoteId s) (full : s.phase = .full) {b : Block}
    (fits : b.data.length ≤ blockSize) {seen : Nat} (past : seen ≤ s.writes)
    (content : ∀ a, Covers b b.devno a → s.lastWrite b.devno a ≤ seen →
      byteAt b a = some (s.live b.devno a))
    (no_collision : NoCollision s.frames [b]) : Inv remoteId (sendRead remoteId s b seen) := by
  have zero : s.version = 0 := by simpa only [PhaseInv, full] using h.phase
  unfold IncrementalLoop.sendRead
  split
  · exact h
  split
  · exact h
  split
  next found =>
    exact
      { images := h.images.confirm past content (h.latest_of_lookup b found no_collision)
        tracks := h.tracks
        rows := fun row member =>
          (h.rows row member).mono rfl rfl (List.Subset.refl _) (checked_le_confirm s b.key _ seen)
        phase := by simpa only [PhaseInv, confirm, full] using zero }
  · refine ⟨h.images.transmit past content _, h.tracks.sent fun k => lookup_upsert .., ?_, ?_⟩
    · intro row member
      rcases mem_upsert member with rfl | ⟨old, other⟩
      · exact rowInv_sent fits rfl rfl rfl rfl (by simp [zero])
      · exact (h.rows row old).transmit other _ _
    · simpa only [PhaseInv, transmit, full] using zero

theorem readBlock_fits (src : Source) (k : Key) (n : Len) :
    (readBlock src k n).data.length ≤ blockSize := (readData src k n).2

theorem Inv.sendBlock (h : Inv remoteId s) (full : s.phase = .full) (vss : Bool) (k : Key) (n : Len)
    (no_collision : NoCollision s.frames [readBlock (if vss then s.snapshot else s.live) k n]) :
    Inv remoteId (sendBlock remoteId s vss k n) := by
  cases vss with
  | false =>
    exact h.sendRead full (readBlock_fits ..) le_rfl
      (fun a covers _ => byteAt_read s.live k n covers) no_collision
  | true =>
    refine h.sendRead full (readBlock_fits ..) (Nat.zero_le _) (fun a covers seen => ?_) no_collision
    -- a snapshot has the live value of every byte that was never written
    have byte := byteAt_read s.snapshot k n covers
    rw [h.images.snapshot _ a (Nat.le_zero.mp seen)] at byte
    exact byte

theorem Inv.startLoop (h : Inv remoteId s) (full : s.phase = .full) {version : Int}
    (positive : 1 ≤ version) :
    Inv remoteId { s with phase := .loop, version := version, zeroChangeRounds := 0 } where
  images := h.images
  tracks := h.tracks
  rows row member := by
    have zero : s.version = 0 := by simpa only [PhaseInv, full] using h.phase
    have r := h.rows row member
    have low := r.version_le
    exact ⟨r.remote, r.size, by simp only; omega, fun _ => .inl (by simp only; omega)⟩
  phase := by
    simp only [PhaseInv]
    omega

theorem Inv.beginRound (h : Inv remoteId s) (nonneg : 0 ≤ s.version) {batch : List Row} {now : Int}
    (hs : beginRound remoteId s batch now s.version = some s') : Inv remoteId s' := by
  unfold IncrementalLoop.beginRound at hs
  split at hs
  next selected =>
    cases hs
    refine ⟨h.images, h.tracks, ?_, ?_⟩
    · exact fun row member =>
        (h.rows row member).mono rfl rfl (List.subset_cons_self _ _) le_rfl
    · exact ⟨selected.selected, rfl, nonneg, s.writes, List.mem_cons_self, le_rfl⟩
  · cases hs

theorem Selected.rest {db db' : BlockTable} {row : Row} {rest : List Row}
    (h : Selected db (row :: rest))
    (others : ∀ k, k ≠ row.key → sqliteBlockLookup db' k = sqliteBlockLookup db k) :
    Selected db' rest := by
  have distinct := List.nodup_cons.mp h.1
  refine ⟨distinct.2, fun r member => ?_⟩
  rw [others]
  · exact h.2 r (List.mem_cons_of_mem _ member)
  · intro same
    exact distinct.1 (same ▸ List.mem_map_of_mem member)

theorem lookup_resent (db : BlockTable) (remoteId : String) (k : Key) (m : Len) (src : Source)
    (version now later : Int) (k' : Key) :
    sqliteBlockLookup (recordResent (sqliteUpdateLastSent db k now) remoteId (readBlock src k m)
        (hashOf (readBlock src k m)) version later) k' =
      if k = k' then some (hashOf (readBlock src k m)) else sqliteBlockLookup db k' := by
  rw [lookup_recordResent, lookup_updateLastSent]
  rfl

theorem Inv.rows_resent (h : Inv remoteId s) {k : Key} {m : Len} {now later : Int} {row : Row}
    (begun : ∃ t, (s.version, t) ∈ s.rounds ∧ t ≤ s.writes)
    (member : row ∈ (recordResent (sqliteUpdateLastSent s.db k now) remoteId
      (readBlock s.live k m) (hashOf (readBlock s.live k m)) s.version later).rows) :
    RowInv remoteId (transmit s (readBlock s.live k m) s.writes s.db) row := by
  rcases mem_recordResent member with rfl | ⟨kept, other⟩
  · exact rowInv_sent (readBlock_fits ..) rfl rfl rfl rfl fun _ => begun
  · obtain ⟨old, old_member, same, ack, ver⟩ := mem_updateLastSent kept
    have marked : Row.Marked k s.version old row := ⟨same, .inl ⟨ack, ver⟩⟩
    exact ((h.rows old old_member).marked marked).transmit other _ _

theorem Inv.examine (h : Inv remoteId s) {p : Progress} {row : Row} {rest : List Row}
    (round : s.phase = .round p) (batch : p.batch = row :: rest) (queueCount : Nat)
    (n : Option Len) (later : Int)
    (no_collision : ∀ m ∈ n, NoCollision s.frames [readBlock s.live row.key m]) :
    Inv remoteId (examine remoteId s p row rest queueCount n later) := by
  have here := h.phase
  simp only [PhaseInv, round] at here
  obtain ⟨selected, version, nonneg, t, begun, before⟩ := here
  rw [batch] at selected
  have moved : ∀ batch', Selected s.db batch' →
      Inv remoteId { s with phase := .round { p with batch := batch' } } := fun batch' still =>
    { images := h.images
      tracks := h.tracks
      rows := fun row member => (h.rows row member).mono rfl rfl (List.Subset.refl _) le_rfl
      phase := ⟨still, version, nonneg, t, begun, before⟩ }
  unfold IncrementalLoop.examine
  simp only
  split
  · exact moved rest (selected.rest fun _ _ => rfl)
  · exact moved [] ⟨List.nodup_nil, by simp⟩
  · exact moved rest (selected.rest fun _ _ => rfl)
  next decision =>
    obtain ⟨data, read, -, same_hash⟩ := examineRow_unchanged decision
    obtain ⟨m, rfl, rfl⟩ := Option.map_eq_some_iff.mp read
    -- the batch has the tracker's hash, so the content read is the latest sent
    have recorded : sqliteBlockLookup s.db row.key = some (hashOf (readBlock s.live row.key m)) :=
      (selected.2 row List.mem_cons_self).trans (congrArg some same_hash.symm)
    have same := h.latest_of_lookup (readBlock s.live row.key m) recorded (no_collision m rfl)
    refine ⟨h.images.confirm le_rfl
      (fun a covers _ => byteAt_read s.live row.key m covers) same, ?_, ?_, ?_⟩
    · intro k
      rw [lookup_markStable]
      exact h.tracks k
    · intro r member
      obtain ⟨old, old_member, marked⟩ := mem_markStable member
      rw [version] at marked
      exact ((h.rows old old_member).marked marked).mono rfl rfl (List.Subset.refl _)
        (checked_le_confirm s row.key _ s.writes)
    · exact ⟨selected.rest fun k _ => lookup_markStable .., version, nonneg, t, begun, before⟩
  next data decision =>
    obtain ⟨read, -, -⟩ := examineRow_changed decision
    obtain ⟨m, rfl, rfl⟩ := Option.map_eq_some_iff.mp read
    have recorded := fun k => lookup_resent s.db remoteId row.key m s.live p.version p.now later k
    have images := h.images.transmit (b := readBlock s.live row.key m) le_rfl
      (fun a covers _ => byteAt_read s.live row.key m covers) s.db
    refine ⟨images, h.tracks.sent recorded, ?_, ?_⟩
    · intro r member
      rw [version] at member
      exact (h.rows_resent ⟨t, begun, before⟩ member).mono rfl rfl (List.Subset.refl _) le_rfl
    · refine ⟨selected.rest fun k other => ?_, version, nonneg, t, begun, before⟩
      exact (recorded k).trans (if_neg (Ne.symm other))

theorem Inv.endRound (h : Inv remoteId s) {p : Progress} (round : s.phase = .round p)
    (acquired : Bool) : Inv remoteId (endRound remoteId s p acquired) := by
  have here := h.phase
  simp only [PhaseInv, round] at here
  obtain ⟨-, version, nonneg, -⟩ := here
  have rows : ∀ (phase : Phase) (zeroRounds : Nat), ∀ row ∈ s.db.rows,
      RowInv remoteId { s with
        phase := phase
        zeroChangeRounds := zeroRounds } row := fun _ _ row member =>
    (h.rows row member).mono rfl rfl (List.Subset.refl _) le_rfl
  unfold IncrementalLoop.endRound
  split
  next positive =>
    have positive' : 0 < s.version := version ▸ positive
    split
    next why zeroRounds finish =>
      refine ⟨h.images, h.tracks, rows _ _, ?_⟩
      cases acquired with
      | false => exact positive'
      | true =>
        refine ⟨positive', fun perfect row member unacked => ?_⟩
        subst perfect
        have none_left := shouldFinish_perfect positive finish
        rw [← version]
        exact version_of_countUnackedV none_left member (h.rows row member).remote unacked
    next zeroRounds _ =>
      refine ⟨h.images, h.tracks, fun row member => ?_, ?_⟩
      · have r := h.rows row member
        have low := r.version_le
        exact ⟨r.remote, r.size, by simp only; omega, fun _ => .inl (by simp only; omega)⟩
      · simp only [PhaseInv]
        omega
  next not_positive =>
    refine ⟨h.images, h.tracks, rows _ _, ?_⟩
    simp only [PhaseInv]
    omega

theorem step_inv {a : Action} (h : Inv remoteId s) (free : CollisionFree s a)
    (hs : step remoteId s a = some s') : Inv remoteId s' := by
  cases step_turn hs with
  | sourceWrite => exact h.sourceWrite ..
  | sendBlock full => exact h.sendBlock full _ _ _ free
  | startLoop full positive => exact h.startLoop full positive
  | beginRound opens begins =>
    have here := h.phase
    rcases opens with ⟨full, rfl⟩ | ⟨loop, rfl⟩
    · have zero : s.version = 0 := by simpa only [PhaseInv, full] using here
      rw [← zero] at begins
      exact h.beginRound (by omega) begins
    · have positive : 0 < s.version := by simpa only [PhaseInv, loop] using here
      exact h.beginRound (by omega) begins
  | @examine queueCount n later p row rest round batch =>
    refine h.examine round batch queueCount n later ?_
    rintro m rfl
    simp only [CollisionFree, round, batch] at free
    exact free row rfl
  | endRound round ended => exact h.endRound round _

/-- No source write happened during or after the last CONVERGENCE_ZERO_ROUNDS rounds. -/
def Quiet (s : State) : Prop := ∀ r ∈ s.rounds.take convergenceZeroRounds, r.2 = s.writes

instance (s : State) : Decidable (Quiet s) := inferInstanceAs (Decidable (∀ r ∈ _, _))

theorem Inv.row_block (h : Inv remoteId s) {row : Row} (member : row ∈ s.db.rows) :
    ∃ b, latest s.frames row.key = some b ∧ row.size.toInt = b.data.length := by
  have recorded : sqliteBlockLookup s.db row.key = some row.hash := by
    rw [sqliteBlockLookup, (Keyed.get_eq_some_iff s.db).mpr ⟨member, rfl⟩]
    rfl
  rw [h.tracks row.key, Option.map_eq_some_iff] at recorded
  obtain ⟨b, found, -⟩ := recorded
  exact ⟨b, found, (h.rows row member).size b found⟩

/-- At perfect convergence an unacknowledged row was read in a round of the last version. -/
theorem Inv.read_of_perfect (h : Inv remoteId s) (ended : s.phase = .done .perfect) {row : Row}
    (member : row ∈ s.db.rows) (unacked : row.ack = false) : ReadUnderVersion s row.key := by
  have here := h.phase
  simp only [PhaseInv, ended] at here
  have current := here.2 trivial row member unacked
  rcases (h.rows row member).current here.1 with older | acked | read
  · omega
  · rw [unacked] at acked
    cases acked
  · exact read

end Go2Cloud.Convergence
