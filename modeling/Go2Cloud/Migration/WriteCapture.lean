import Go2Cloud.Migration.Convergence

/-! Which source writes the TailSend loop carries over to the target. A write leaves the rows it
touches dirty until a round reads them again; a round reads neither a verified row nor one in its
cooldown, so the loop can end with a dirty row. -/
namespace Go2Cloud.WriteCapture
open Protocol Reader Tracker Round Mirror History Transition IncrementalLoop Convergence Keyed

/-- Some byte of the row's block was written after its content was last read. -/
def Dirty (s : State) (row : Row) : Prop :=
  ∃ n < row.size.toInt.toNat,
    s.checked row.key < s.lastWrite row.devno (row.offset.toInt.toNat + n)

instance (s : State) (row : Row) : Decidable (Dirty s row) :=
  inferInstanceAs (Decidable (∃ n < _, _))

def Touches (row : Row) (devno : Int32) (pos : Nat) (bytes : List UInt8) : Prop :=
  row.devno = devno ∧ ∃ n < row.size.toInt.toNat,
    pos ≤ row.offset.toInt.toNat + n ∧ row.offset.toInt.toNat + n < pos + bytes.length

instance (row : Row) (devno : Int32) (pos : Nat) (bytes : List UInt8) :
    Decidable (Touches row devno pos bytes) :=
  inferInstanceAs (Decidable (_ ∧ ∃ n < _, _))

/-- Every read succeeds and returns as many bytes as the first one of its block. -/
def WholeRead (s : State) : Action → Prop
  | .sendBlock _ k n => ∀ row ∈ s.db.rows, row.key = k → row.size.toInt = n.val
  | .examine _ n _ =>
    match s.phase with
    | .round p => ∀ row ∈ p.batch.head?, n.map (fun m => (m.val : Int)) = some row.size.toInt
    | _ => True
  | _ => True

instance (s : State) : (a : Action) → Decidable (WholeRead s a)
  | .sendBlock _ k n =>
    inferInstanceAs (Decidable (∀ row ∈ s.db.rows, row.key = k → row.size.toInt = n.val))
  | .examine _ n _ =>
    match h : s.phase with
    | .round p => decidable_of_iff
        (∀ row ∈ p.batch.head?, n.map (fun m => (m.val : Int)) = some row.size.toInt)
        (by simp [WholeRead, h])
    | .full | .loop | .done _ => .isTrue (by simp [WholeRead, h])
  | .sourceWrite _ _ _ | .startLoop _ | .beginRound _ _ | .endRound _ => .isTrue trivial

/-- A source write touches only rows in `Q`, and blocks without a row. -/
def Spares (Q : Row → Prop) (s : State) : Action → Prop
  | .sourceWrite devno pos bytes => ∀ row ∈ s.db.rows, Touches row devno pos bytes → Q row
  | _ => True

instance (Q : Row → Prop) [DecidablePred Q] (s : State) : (a : Action) → Decidable (Spares Q s a)
  | .sourceWrite devno pos bytes =>
    inferInstanceAs (Decidable (∀ row ∈ s.db.rows, Touches row devno pos bytes → Q row))
  | .sendBlock _ _ _ | .startLoop _ | .beginRound _ _ | .examine _ _ _ | .endRound _ =>
    .isTrue trivial

/-- The dirty rows are in `Q`, the rows have the length of all frames of their block, and
those a round has yet to visit are as the round has loaded them. -/
structure Watched (Q : Row → Prop) (s : State) : Prop where
  dirty : ∀ row ∈ s.db.rows, Dirty s row → Q row
  sizes : ∀ f ∈ s.frames, ∃ row ∈ s.db.rows, row.key = f.key ∧ row.size.toInt = f.data.length
  batch : ∀ p, s.phase = .round p → ∀ row ∈ p.batch, row ∈ s.db.rows

section
variable {remoteId : String} {s s' : State} {Q : Row → Prop}

theorem watched_init (live target : Source) : Watched Q (init live target) where
  dirty := by simp [init, Keyed.empty]
  sizes := by simp [init]
  batch := by simp [init]

theorem not_dirty {row : Row} (read : ∀ d a, s.lastWrite d a ≤ s.checked row.key) : ¬ Dirty s row := by
  rintro ⟨n, -, written⟩
  exact absurd (read row.devno (row.offset.toInt.toNat + n)) (by omega)

theorem dirty_confirm {row : Row} {k : Key} {seen : Nat} (h : Dirty (confirm s k seen) row) :
    Dirty s row := by
  obtain ⟨n, inside, written⟩ := h
  exact ⟨n, inside, (checked_le_confirm s k row.key seen).trans_lt written⟩

theorem dirty_transmit {row : Row} {b : Block} {seen : Nat} (db : BlockTable)
    (other : row.key ≠ b.key) (h : Dirty (transmit s b seen db) row) : Dirty s row := by
  obtain ⟨n, inside, written⟩ := h
  simp only [transmit, Function.update_of_ne other] at written
  exact ⟨n, inside, written⟩

def OnlyRow (k : Key) (db db' : BlockTable) : Prop := ∀ k', k' ≠ k → get db' k' = get db k'

theorem OnlyRow.mem_iff {db db' : BlockTable} {k : Key} (h : OnlyRow k db db') {row : Row}
    (other : row.key ≠ k) : row ∈ db'.rows ↔ row ∈ db.rows := by
  have same := h row.key other
  constructor
  · intro member
    exact ((get_eq_some_iff db).mp (same ▸ (get_eq_some_iff db').mpr ⟨member, rfl⟩)).1
  · intro member
    exact ((get_eq_some_iff db').mp (same ▸ (get_eq_some_iff db).mpr ⟨member, rfl⟩)).1

theorem onlyRow_upsert (db : BlockTable) (k : Key) (size : Int32) (hash : UInt64) (ack : Bool)
    (version : Int) : OnlyRow k db (sqliteBlockUpsertV db remoteId k size hash ack version) := by
  intro k' other
  rw [get_upsert, if_neg (Ne.symm other)]

theorem onlyRow_updateLastSent (db : BlockTable) (k : Key) (now : Int) :
    OnlyRow k db (sqliteUpdateLastSent db k now) := by
  intro k' other
  rw [get_updateLastSent]
  exact map_get_of_ne db other _

theorem onlyRow_markStable (db : BlockTable) (k : Key) (version now : Int) :
    OnlyRow k db (markStable db k version now) := by
  intro k' other
  rw [get_markStable]
  exact map_get_of_ne db other _

theorem onlyRow_resent (db : BlockTable) (b : Block) (hash : UInt64) (version now later : Int) :
    OnlyRow b.key db
      (recordResent (sqliteUpdateLastSent db b.key now) remoteId b hash version later) := by
  intro k' other
  rw [get_recordResent, if_neg (Ne.symm other)]
  exact onlyRow_updateLastSent db b.key now k' other

structure Renews (R : Row → Prop) (k : Key) (s s' : State) : Prop where
  only : OnlyRow k s.db s'.db
  others : ∀ row, row.key ≠ k → Dirty s' row → Dirty s row
  here : ∀ row ∈ s'.db.rows, row.key = k → Dirty s' row → R row
  frames : ∀ f ∈ s'.frames, f.key ≠ k → f ∈ s.frames
  sizes : ∀ f ∈ s'.frames, f.key = k →
    ∃ row ∈ s'.db.rows, row.key = k ∧ row.size.toInt = f.data.length

theorem Renews.dirty {R : Row → Prop} {k : Key} (h : Renews R k s s') {row : Row}
    (member : row ∈ s'.db.rows) (dirty : Dirty s' row) :
    row ∈ s.db.rows ∧ Dirty s row ∧ row.key ≠ k ∨ R row := by
  by_cases here : row.key = k
  · exact .inr (h.here row member here dirty)
  · exact .inl ⟨(h.only.mem_iff here).mp member, h.others row here dirty, here⟩

theorem Renews.watched {R : Row → Prop} {k : Key} (h : Renews R k s s') (w : Watched Q s)
    (renewed : ∀ row, R row → Q row)
    (batch : ∀ p, s'.phase = .round p → ∀ row ∈ p.batch, row ∈ s.db.rows ∧ row.key ≠ k) :
    Watched Q s' where
  dirty row member dirty := by
    rcases h.dirty member dirty with ⟨old, was, -⟩ | new
    · exact w.dirty row old was
    · exact renewed row new
  sizes f sent := by
    by_cases here : f.key = k
    · obtain ⟨row, member, key, size⟩ := h.sizes f sent here
      exact ⟨row, member, key.trans here.symm, size⟩
    · obtain ⟨row, member, key, size⟩ := w.sizes f (h.frames f sent here)
      exact ⟨row, (h.only.mem_iff (key ▸ here)).mpr member, key, size⟩
  batch p phase row member := by
    obtain ⟨old, other⟩ := batch p phase row member
    exact (h.only.mem_iff other).mpr old

theorem toInt_size {b : Block} (fits : b.data.length ≤ blockSize) :
    (Int32.ofInt b.data.length).toInt = b.data.length := by
  have cap : blockSize = 0x100000 := rfl
  rw [Int32.toInt_ofInt_of_le (by omega) (by omega)]

theorem Watched.transmit_sizes (w : Watched Q s) {b : Block} (fits : b.data.length ≤ blockSize)
    (whole : ∀ row ∈ s.db.rows, row.key = b.key → row.size.toInt = b.data.length) {row : Row}
    (size : row.size = Int32.ofInt b.data.length) {f : Block} (sent : f ∈ b :: s.frames)
    (key : f.key = b.key) : row.size.toInt = f.data.length := by
  rw [size, toInt_size fits]
  rcases List.mem_cons.mp sent with rfl | old
  · rfl
  · obtain ⟨r, member, same, length⟩ := w.sizes f old
    exact (whole r member (same.trans key)).symm.trans length

theorem Watched.sourceWrite (w : Watched Q s) {devno : Int32} {pos : Nat} {bytes : List UInt8}
    (spares : ∀ row ∈ s.db.rows, Touches row devno pos bytes → Q row) :
    Watched Q (sourceWrite s devno pos bytes) where
  dirty row member dirty := by
    obtain ⟨n, inside, written⟩ := dirty
    simp only [IncrementalLoop.sourceWrite] at written
    split at written
    next touched => exact spares row member ⟨touched.1, n, inside, touched.2⟩
    next => exact w.dirty row member ⟨n, inside, written⟩
  sizes := w.sizes
  batch := w.batch

theorem sendRead_renews (w : Watched Q s) {b : Block} (fits : b.data.length ≤ blockSize)
    (whole : ∀ row ∈ s.db.rows, row.key = b.key → row.size.toInt = b.data.length) (seen : Nat) :
    Renews (fun row => Q row ∨ row.ack = false ∧ row.lastSent = 0) b.key s
      (sendRead remoteId s b seen) := by
  have stays (s' : State) (db : s'.db = s.db) (frames : s'.frames = s.frames)
      (less : ∀ row, Dirty s' row → Dirty s row) :
      Renews (fun row => Q row ∨ row.ack = false ∧ row.lastSent = 0) b.key s s' :=
    { only := fun k' _ => by rw [db]
      others := fun row _ dirty => less row dirty
      here := fun row member _ dirty => .inl (w.dirty row (db ▸ member) (less row dirty))
      frames := fun f sent _ => frames ▸ sent
      sizes := fun f sent key => by
        rw [db]
        obtain ⟨row, member, same, size⟩ := w.sizes f (frames ▸ sent)
        exact ⟨row, member, same.trans key, size⟩ }
  unfold sendRead
  split
  · exact stays s rfl rfl fun _ dirty => dirty
  split
  · exact stays s rfl rfl fun _ dirty => dirty
  split
  · exact stays _ rfl rfl fun _ dirty => dirty_confirm dirty
  · have found : get (sqliteBlockUpsertV s.db remoteId b.key (Int32.ofInt b.data.length) (hashOf b)
        false s.version) b.key = some ⟨b.devno, b.offset, Int32.ofInt b.data.length, hashOf b, false,
          0, s.version, remoteId⟩ := by
      rw [get_upsert, if_pos rfl]
      rfl
    have new := (get_eq_some_iff _).mp found
    exact
      { only := onlyRow_upsert s.db b.key _ _ _ _
        others := fun row other dirty => dirty_transmit _ other dirty
        here := fun row member key _ => by
          obtain rfl := List.inj_on_of_nodup_map (Keyed.Table.unique _) member new.1 key
          exact .inr ⟨rfl, rfl⟩
        frames := fun f sent other =>
          (List.mem_cons.mp sent).resolve_left fun same => other (congrArg Block.key same)
        sizes := fun f sent key => ⟨_, new.1, rfl, w.transmit_sizes fits whole rfl sent key⟩ }

/-- A row whose hashes are compared is clean afterwards. -/
theorem examine_renews (h : Inv remoteId s) (w : Watched Q s) {p : Progress} {row : Row}
    {rest : List Row} (round : s.phase = .round p) (batch : p.batch = row :: rest) {queueCount : Nat}
    {n : Option Len} {later : Int}
    (whole : n.map (fun m => (m.val : Int)) = some row.size.toInt)
    (compared : examineRow p.now queueCount row (n.map (readData s.live row.key)) = .unchanged ∨
      ∃ data, examineRow p.now queueCount row (n.map (readData s.live row.key)) = .changed data) :
    Renews (fun _ => False) row.key s (examine remoteId s p row rest queueCount n later) := by
  have member : row ∈ s.db.rows := w.batch p round row (by rw [batch]; exact List.mem_cons_self)
  unfold IncrementalLoop.examine
  rcases compared with decision | ⟨data, decision⟩
  · simp only [decision]
    exact
      { only := onlyRow_markStable s.db row.key _ _
        others := fun r other dirty => dirty_confirm dirty
        here := fun r there key dirty => by
          refine not_dirty (fun d a => ?_) dirty
          simp only [confirm, key, Function.update_self]
          exact (h.images.lastWrite_le d a).trans (le_max_right _ _)
        frames := fun f sent _ => sent
        sizes := fun f sent key => by
          obtain ⟨r, there, same, size⟩ := w.sizes f sent
          have found := (get_eq_some_iff s.db).mpr ⟨there, same.trans key⟩
          have marked := get_markStable s.db row.key row.key p.version p.now
          rw [found, Option.map_some, if_pos (same.trans key)] at marked
          exact ⟨_, ((get_eq_some_iff _).mp marked).1, same.trans key, size⟩ }
  · obtain ⟨read, -, -⟩ := examineRow_changed decision
    obtain ⟨m, rfl, rfl⟩ := Option.map_eq_some_iff.mp read
    let b : Block := ⟨row.devno, row.offset, (readData s.live row.key m).1⟩
    have length : b.data.length = m.val := ByteStore.read_length ..
    have fits : b.data.length ≤ blockSize := (readData s.live row.key m).2
    have size : row.size.toInt = b.data.length := by
      rw [length]
      exact (Option.some.inj whole).symm
    have same_size (r : Row) (there : r ∈ s.db.rows) (key : r.key = b.key) :
        r.size.toInt = b.data.length := by
      obtain rfl := List.inj_on_of_nodup_map s.db.unique there member key
      exact size
    have found := get_recordResent (sqliteUpdateLastSent s.db row.key p.now) remoteId b (hashOf b)
      p.version later b.key
    rw [if_pos rfl] at found
    have new := (get_eq_some_iff _).mp found
    simp only [decision]
    exact
      { only := onlyRow_resent s.db b _ _ _ _
        others := fun r other dirty => dirty_transmit (b := b) s.db other dirty
        here := fun r there key dirty => by
          refine not_dirty (fun d a => ?_) dirty
          have checked : (transmit s b s.writes s.db).checked r.key = s.writes := by
            rw [key]
            exact Function.update_self ..
          exact (h.images.lastWrite_le d a).trans_eq checked.symm
        frames := fun f sent other =>
          (List.mem_cons.mp sent).resolve_left fun same => other (congrArg Block.key same)
        sizes := fun f sent key =>
          ⟨_, new.1, rfl, w.transmit_sizes fits same_size rfl sent key⟩ }

variable (remoteId s) in
theorem examine_cases (p : Progress) (row : Row) (rest : List Row) (queueCount : Nat)
    (n : Option Len) (later : Int) :
    (examineRow p.now queueCount row (n.map (readData s.live row.key)) = .unchanged ∨
      ∃ data, examineRow p.now queueCount row (n.map (readData s.live row.key)) = .changed data) ∨
    ∃ batch, batch <:+ rest ∧ examine remoteId s p row rest queueCount n later =
      { s with phase := .round { p with batch := batch } } := by
  unfold IncrementalLoop.examine
  split
  · exact .inr ⟨rest, List.suffix_refl rest, rfl⟩
  · exact .inr ⟨[], List.nil_suffix, rfl⟩
  · exact .inr ⟨rest, List.suffix_refl rest, rfl⟩
  next decision => exact .inl (.inl decision)
  next data decision => exact .inl (.inr ⟨data, decision⟩)

variable (remoteId s) in
theorem examine_phase (p : Progress) (row : Row) (rest : List Row) (queueCount : Nat)
    (n : Option Len) (later : Int) :
    ∃ p', (examine remoteId s p row rest queueCount n later).phase = .round p' ∧
      p'.now = p.now ∧ (p'.batch = rest ∨ 9 < queueCount ∧ p'.batch = []) := by
  unfold IncrementalLoop.examine
  split
  · exact ⟨_, rfl, rfl, .inl rfl⟩
  next decision => exact ⟨_, rfl, rfl, .inr ⟨examineRow_backpressure decision, rfl⟩⟩
  · exact ⟨_, rfl, rfl, .inl rfl⟩
  · exact ⟨_, rfl, rfl, .inl rfl⟩
  · exact ⟨_, rfl, rfl, .inl rfl⟩

theorem Watched.examine (h : Inv remoteId s) (w : Watched Q s) {p : Progress} {row : Row}
    {rest : List Row} (round : s.phase = .round p) (batch : p.batch = row :: rest) {queueCount : Nat}
    {n : Option Len} {later : Int}
    (whole : n.map (fun m => (m.val : Int)) = some row.size.toInt) :
    Watched Q (examine remoteId s p row rest queueCount n later) := by
  have selected := h.phase
  simp only [PhaseInv, round, batch] at selected
  have distinct := List.nodup_cons.mp selected.1.1
  have listed (r : Row) (member : r ∈ rest) : r ∈ s.db.rows ∧ r.key ≠ row.key :=
    ⟨w.batch p round r (by rw [batch]; exact List.mem_cons_of_mem _ member), fun same =>
      distinct.1 (same ▸ List.mem_map_of_mem member)⟩
  rcases examine_cases remoteId s p row rest queueCount n later with
    compared | ⟨batch', suffix, same⟩
  · refine (examine_renews h w round batch whole compared).watched w (fun _ => False.elim) ?_
    intro q phase r member
    obtain ⟨p', phase', -, rest_or⟩ := examine_phase remoteId s p row rest queueCount n later
    cases phase.symm.trans phase'
    rcases rest_or with all | ⟨-, none_left⟩
    · exact listed r (all ▸ member)
    · rw [none_left] at member
      cases member
  · rw [same]
    refine ⟨w.dirty, w.sizes, fun q phase r member => ?_⟩
    cases phase
    exact (listed r (suffix.subset member)).1

theorem sendRead_phase (b : Block) (seen : Nat) : (sendRead remoteId s b seen).phase = s.phase := by
  unfold sendRead
  split
  · rfl
  split
  · rfl
  split
  · rfl
  · rfl

theorem Watched.beginRound (w : Watched Q s) {batch : List Row} {now version : Int}
    (hs : beginRound remoteId s batch now version = some s') : Watched Q s' := by
  unfold IncrementalLoop.beginRound at hs
  split at hs
  next selected =>
    cases hs
    refine ⟨w.dirty, w.sizes, fun p phase row member => ?_⟩
    cases phase
    exact (List.mem_filter.mp (selected.2.1 row member)).1
  next => cases hs

theorem Watched.endRound (w : Watched Q s) (p : Progress) (acquired : Bool) :
    Watched Q (endRound remoteId s p acquired) := by
  unfold IncrementalLoop.endRound
  split
  · split
    · refine ⟨w.dirty, w.sizes, fun q phase => ?_⟩
      cases acquired <;> cases phase
    · exact ⟨w.dirty, w.sizes, fun q phase => (by cases phase)⟩
  · exact ⟨w.dirty, w.sizes, fun q phase => (by cases phase)⟩

theorem step_watched {a : Action} (fresh : ∀ row : Row, row.ack = false → row.lastSent = 0 → Q row)
    (h : Inv remoteId s) (w : Watched Q s) (whole : WholeRead s a) (spares : Spares Q s a)
    (hs : step remoteId s a = some s') : Watched Q s' := by
  cases step_turn hs with
  | sourceWrite => exact w.sourceWrite spares
  | @sendBlock vss k n full =>
    have read (src : Source) (seen : Nat) : Watched Q (sendRead remoteId s (readBlock src k n) seen) := by
      have length : (readBlock src k n).data.length = n.val := ByteStore.read_length ..
      refine (sendRead_renews w (readBlock_fits ..) (fun row member key => ?_) seen).watched w
        (fun row new => new.elim id fun new => fresh row new.1 new.2) fun p phase => ?_
      · rw [length]
        exact whole row member key
      · rw [sendRead_phase, full] at phase
        cases phase
    unfold IncrementalLoop.sendBlock
    split
    · exact read _ _
    · exact read _ _
  | startLoop full positive => exact ⟨w.dirty, w.sizes, fun p phase => (by cases phase)⟩
  | beginRound opens begins => exact w.beginRound begins
  | @examine _ _ _ p row rest round batch =>
    simp only [WholeRead, round, batch] at whole
    exact w.examine h round batch (whole row rfl)
  | endRound round ended => exact w.endRound _ _

theorem compared_of_dirty {row : Row} (dirty : Dirty s row) {now : Int} (rested : Rested row now)
    {queueCount : Nat} (short : queueCount ≤ 9) {n : Option Len}
    (whole : n.map (fun m => (m.val : Int)) = some row.size.toInt) :
    examineRow now queueCount row (n.map (readData s.live row.key)) = .unchanged ∨
      ∃ data, examineRow now queueCount row (n.map (readData s.live row.key)) = .changed data := by
  cases decision : examineRow now queueCount row (n.map (readData s.live row.key)) with
  | unchanged => exact .inl rfl
  | changed data => exact .inr ⟨data, rfl⟩
  | cooldown => exact absurd rested ((examineRow_cooldown_iff ..).mp decision)
  | backpressure => exact absurd (examineRow_backpressure decision) (by omega)
  | unread =>
    obtain ⟨m, rfl, length⟩ := Option.map_eq_some_iff.mp whole
    obtain ⟨i, inside, -⟩ := dirty
    have empty := examineRow_unread decision (readData s.live row.key m) rfl
    have read : (readData s.live row.key m).1.length = m.val := ByteStore.read_length ..
    rw [empty, List.length_nil] at read
    omega

/-- In the round that begins at `now`, no dirty row is left out of the batch or behind the
queue limit. -/
def Reaches (now : Int) (s : State) : Action → Prop
  | .beginRound batch t => t = now → ∀ row ∈ s.db.rows, Dirty s row → row ∈ batch
  | .examine queueCount _ _ =>
    match s.phase with
    | .round p => p.now = now → (∃ row ∈ p.batch, Dirty s row) → queueCount ≤ 9
    | _ => True
  | _ => True

instance (now : Int) (s : State) : (a : Action) → Decidable (Reaches now s a)
  | .beginRound batch t =>
    inferInstanceAs (Decidable (t = now → ∀ row ∈ s.db.rows, Dirty s row → row ∈ batch))
  | .examine queueCount _ _ =>
    match h : s.phase with
    | .round p => decidable_of_iff
        (p.now = now → (∃ row ∈ p.batch, Dirty s row) → queueCount ≤ 9) (by simp [Reaches, h])
    | .full | .loop | .done _ => .isTrue (by simp [Reaches, h])
  | .sourceWrite _ _ _ | .sendBlock _ _ _ | .startLoop _ | .endRound _ => .isTrue trivial

def Closing (now : Int) (s : State) : Prop :=
  match s.phase with
  | .round p => p.now = now ∧ ∀ row ∈ s.db.rows, Dirty s row → row ∈ p.batch
  | .done _ => ∀ row ∈ s.db.rows, ¬ Dirty s row
  | _ => True

def Due (now : Int) (row : Row) : Prop := row.ack = false ∧ Rested row now

instance (now : Int) : DecidablePred (Due now) := fun row =>
  inferInstanceAs (Decidable (row.ack = false ∧ Rested row now))

theorem Closing.examine {now : Int} (h : Inv remoteId s) (w : Watched (Due now) s) {p : Progress}
    {row : Row} {rest : List Row} (round : s.phase = .round p) (batch : p.batch = row :: rest)
    {queueCount : Nat} {n : Option Len} {later : Int}
    (whole : n.map (fun m => (m.val : Int)) = some row.size.toInt) (began : p.now = now)
    (reaches : (∃ row ∈ p.batch, Dirty s row) → queueCount ≤ 9)
    (ahead : ∀ row ∈ s.db.rows, Dirty s row → row ∈ p.batch) :
    Closing now (examine remoteId s p row rest queueCount n later) := by
  obtain ⟨p', phase, now', rest_or⟩ := examine_phase remoteId s p row rest queueCount n later
  simp only [Closing, phase]
  refine ⟨now'.trans began, fun r member dirty => ?_⟩
  -- a row that is dirty now was so before, and is not the one just looked at
  have before : r ∈ s.db.rows ∧ Dirty s r ∧ (queueCount ≤ 9 → r ≠ row) := by
    by_cases compared :
        examineRow p.now queueCount row (n.map (readData s.live row.key)) = .unchanged ∨
        ∃ data, examineRow p.now queueCount row (n.map (readData s.live row.key)) = .changed data
    · have renews : Renews (fun _ => False) row.key s
          (IncrementalLoop.examine remoteId s p row rest queueCount n later) :=
        examine_renews h w round batch whole compared
      obtain ⟨old, was, other⟩ := (renews.dirty member dirty).resolve_right id
      exact ⟨old, was, fun _ same => other (congrArg Row.key same)⟩
    · obtain ⟨_, -, same⟩ := (examine_cases remoteId s p row rest queueCount n later).resolve_left
        compared
      rw [same] at member dirty
      refine ⟨member, dirty, fun short here => compared ?_⟩
      subst here
      exact compared_of_dirty dirty (began ▸ (w.dirty r member dirty).2) short whole
  obtain ⟨old, was, other⟩ := before
  have listed := ahead r old was
  have short := reaches ⟨r, listed, was⟩
  rw [batch] at listed
  have later_row := (List.mem_cons.mp listed).resolve_left (other short)
  rcases rest_or with all | ⟨long, -⟩
  · exact all ▸ later_row
  · omega

def roundTime : Action → Option Int
  | .beginRound _ now => some now
  | _ => none

def lastRound (actions : List Action) : Option Int := (actions.filterMap roundTime).getLast?

theorem lastRound_split {actions : List Action} {now : Int} (h : lastRound actions = some now) :
    ∃ earlier batch later, actions = earlier ++ .beginRound batch now :: later ∧
      ∀ a ∈ later, roundTime a = none := by
  obtain ⟨times, ends⟩ := List.getLast?_eq_some_iff.mp h
  obtain ⟨before, rest, rfl, -, last⟩ := List.filterMap_eq_append_iff.mp ends
  obtain ⟨skipped, a, later, rfl, -, begins, none_left⟩ := List.filterMap_eq_cons_iff.mp last
  cases a with
  | beginRound batch t =>
    cases begins
    refine ⟨before ++ skipped, batch, later, by rw [List.append_assoc], ?_⟩
    exact List.filterMap_eq_nil_iff.mp none_left
  | sourceWrite _ _ _ | sendBlock _ _ _ | startLoop _ | examine _ _ _ | endRound _ => cases begins

theorem sendBlock_counts (remoteId : String) (s : State) (vss : Bool) (k : Key) (n : Len) :
    (sendBlock remoteId s vss k n).rounds = s.rounds ∧
      (sendBlock remoteId s vss k n).writes = s.writes := by
  unfold IncrementalLoop.sendBlock sendRead
  repeat' split
  all_goals exact ⟨rfl, rfl⟩

theorem examine_counts (remoteId : String) (s : State) (p : Progress) (row : Row) (rest : List Row)
    (queueCount : Nat) (n : Option Len) (later : Int) :
    (examine remoteId s p row rest queueCount n later).rounds = s.rounds ∧
      (examine remoteId s p row rest queueCount n later).writes = s.writes := by
  unfold IncrementalLoop.examine
  dsimp only
  split <;> exact ⟨rfl, rfl⟩

theorem endRound_counts (remoteId : String) (s : State) (p : Progress) (acquired : Bool) :
    (endRound remoteId s p acquired).rounds = s.rounds ∧
      (endRound remoteId s p acquired).writes = s.writes := by
  unfold IncrementalLoop.endRound
  repeat' split
  all_goals exact ⟨rfl, rfl⟩

def writesSource : Action → Bool
  | .sourceWrite _ _ _ => true
  | _ => false

theorem step_counts {a : Action} (hs : step remoteId s a = some s') (later : roundTime a = none) :
    s'.rounds = s.rounds ∧ s'.writes = s.writes + (if writesSource a then 1 else 0) := by
  cases step_turn hs with
  | sourceWrite => exact ⟨rfl, rfl⟩
  | sendBlock full => exact sendBlock_counts ..
  | startLoop full positive => exact ⟨rfl, rfl⟩
  | beginRound opens begins => cases later
  | examine round batch => exact examine_counts ..
  | endRound round ended => exact endRound_counts ..

theorem step_closing {now : Int} {a : Action} (h : Inv remoteId s) (w : Watched (Due now) s)
    (whole : WholeRead s a) (reaches : Reaches now s a) (closing : Closing now s)
    (calm : writesSource a = false) (later : roundTime a = none)
    (hs : step remoteId s a = some s') : Closing now s' := by
  cases step_turn hs with
  | sourceWrite => cases calm
  | @sendBlock vss k n full =>
    have phase : (sendBlock remoteId s vss k n).phase = .full := by
      unfold IncrementalLoop.sendBlock
      split
      · rw [sendRead_phase, full]
      · rw [sendRead_phase, full]
    simp only [Closing, phase]
  | startLoop full positive => trivial
  | beginRound opens begins => cases later
  | @examine _ _ _ p row rest round batch =>
    simp only [WholeRead, round, batch] at whole
    simp only [Reaches, round] at reaches
    simp only [Closing, round] at closing
    exact Closing.examine h w round batch (whole row rfl) closing.1 (reaches closing.1) closing.2
  | @endRound acquired p round ended =>
    simp only [Closing, round, ended] at closing
    have clean (row : Row) (member : row ∈ s.db.rows) : ¬ Dirty s row := fun dirty => by
      cases closing.2 row member dirty
    unfold IncrementalLoop.endRound
    split
    · split
      · cases acquired with
        | false => trivial
        | true => exact clean
      · trivial
    · trivial

def OneRound (s : State) : Prop :=
  (∀ r ∈ s.rounds, r.1 ≤ s.version) ∧
    match s.phase with
    | .full => True
    | .loop => ∀ r ∈ s.rounds, r.1 < s.version
    | .round _ | .done _ => 0 < s.version → ∀ r ∈ s.rounds.tail, r.1 < s.version

def Acquires : Action → Prop
  | .endRound acquired => acquired = true
  | _ => True

instance : DecidablePred Acquires
  | .endRound acquired => inferInstanceAs (Decidable (acquired = true))
  | .sourceWrite _ _ _ | .sendBlock _ _ _ | .startLoop _ | .beginRound _ _ | .examine _ _ _ =>
    .isTrue trivial

theorem OneRound.full (one : OneRound s) (phase : s'.phase = .full) (rounds : s'.rounds = s.rounds)
    (version : s'.version = s.version) : OneRound s' := by
  refine ⟨by rw [rounds, version]; exact one.1, ?_⟩
  simp only [phase]

theorem OneRound.beginRound (one : OneRound s) {batch : List Row} {now : Int}
    (before : 0 < s.version → ∀ r ∈ s.rounds, r.1 < s.version)
    (hs : beginRound remoteId s batch now s.version = some s') : OneRound s' := by
  unfold IncrementalLoop.beginRound at hs
  split at hs
  · cases hs
    exact ⟨List.forall_mem_cons.mpr ⟨le_rfl, one.1⟩, before⟩
  · cases hs

theorem OneRound.examine (one : OneRound s) {p : Progress} (round : s.phase = .round p) (row : Row)
    (rest : List Row) (queueCount : Nat) (n : Option Len) (later : Int) :
    OneRound (examine remoteId s p row rest queueCount n later) := by
  obtain ⟨p', phase, -, -⟩ := examine_phase remoteId s p row rest queueCount n later
  have same : (IncrementalLoop.examine remoteId s p row rest queueCount n later).rounds = s.rounds ∧
      (IncrementalLoop.examine remoteId s p row rest queueCount n later).version = s.version := by
    unfold IncrementalLoop.examine
    dsimp only
    split <;> exact ⟨rfl, rfl⟩
  unfold OneRound at one ⊢
  rw [same.1, same.2]
  simp only [phase, round] at one ⊢
  exact one

theorem OneRound.endRound (one : OneRound s) {p : Progress}
    (round : s.phase = .round p) : OneRound (endRound remoteId s p true) := by
  unfold OneRound at one
  simp only [round] at one
  unfold IncrementalLoop.endRound
  split
  · split
    · exact one
    · exact ⟨fun r member => (one.1 r member).trans (by simp), fun r member =>
        Int.lt_add_one_of_le (one.1 r member)⟩
  · exact ⟨one.1, trivial⟩

theorem step_oneRound {a : Action} (h : Inv remoteId s) (one : OneRound s) (acquires : Acquires a)
    (hs : step remoteId s a = some s') : OneRound s' := by
  have here := h.phase
  cases step_turn hs with
  | sourceWrite => exact one
  | sendBlock full =>
    unfold IncrementalLoop.sendBlock sendRead
    repeat' split
    all_goals exact one.full full rfl rfl
  | @startLoop version full positive =>
    simp only [PhaseInv, full] at here
    have earlier (r : Int × Nat) (member : r ∈ s.rounds) : r.1 < version := by
      have := one.1 r member
      omega
    exact ⟨fun r member => (earlier r member).le, earlier⟩
  | beginRound opens begins =>
    rcases opens with ⟨full, rfl⟩ | ⟨loop, rfl⟩
    · simp only [PhaseInv, full] at here
      rw [← here] at begins
      exact one.beginRound (fun positive => by omega) begins
    · have before := one.2
      simp only [loop] at before
      exact one.beginRound (fun _ => before) begins
  | examine round batch => exact one.examine round _ _ _ _ _
  | @endRound acquired p round ended =>
    obtain rfl : acquired = true := acquires
    exact one.endRound round

/-- Where every row is clean, a byte that some frame covers is the live one. -/
theorem target_eq_live (h : Inv remoteId s) (w : Watched Q s)
    (clean : ∀ row ∈ s.db.rows, ¬ Dirty s row) {d : Int32} {a : Nat}
    (covered : ∃ f ∈ s.frames, Covers f d a) : s.target d a = s.live d a := by
  obtain ⟨f, first⟩ : ∃ f, newest s.frames d a = some f := by
    rw [← Option.isSome_iff_exists, newest, List.find?_isSome]
    simpa using covered
  obtain ⟨rfl, low, high⟩ : Covers f d a := of_decide_eq_true (List.find?_some first :)
  obtain ⟨row, member, key, size⟩ := w.sizes f (List.mem_of_find?_eq_some first)
  obtain ⟨b, last, length⟩ := h.row_block member
  rw [key] at last
  have place : b.devno = f.devno ∧ b.offset = f.offset := by
    simpa [Block.key] using (latest_some last).2
  have covers : Covers b f.devno a := ⟨place.1, place.2 ▸ low, by rw [place.2]; omega⟩
  obtain rfl := newest_eq_latest first last covers
  have row_place : row.devno = f.devno ∧ row.offset = f.offset := by
    simpa [Row.key, Block.key] using key
  have read : s.lastWrite f.devno a ≤ s.checked f.key := by
    by_contra unread
    refine clean row member ⟨a - f.offset.toInt.toNat, by omega, ?_⟩
    rw [key, row_place.1, row_place.2, Nat.add_sub_cancel' low]
    omega
  have copied := h.images.copies f.key f last a covers read
  exact Option.some.inj ((h.images.target _ a f first).symm.trans copied)

/-- The bytes of a row are the live ones on the target. -/
def Live (s : State) (row : Row) : Prop :=
  ByteStore.read (s.target row.devno) row.offset.toInt.toNat row.size.toInt.toNat =
    ByteStore.read (s.live row.devno) row.offset.toInt.toNat row.size.toInt.toNat

instance (s : State) (row : Row) : Decidable (Live s row) := inferInstanceAs (Decidable (_ = _))

theorem rows_live (h : Inv remoteId s) (w : Watched Q s) (clean : ∀ row ∈ s.db.rows, ¬ Dirty s row)
    {row : Row} (member : row ∈ s.db.rows) : Live s row := by
  obtain ⟨b, last, size⟩ := h.row_block member
  obtain ⟨sent, key⟩ := latest_some last
  have place : b.devno = row.devno ∧ b.offset = row.offset := by
    simpa [Block.key, Row.key] using key
  refine ByteStore.read_eq_read_iff.mpr fun n inside => ?_
  refine target_eq_live h w clean ⟨b, sent, place.1, ?_, ?_⟩
  · rw [place.2]
    omega
  · rw [place.2]
    omega

def Reads (s : State) (a : Action) : Prop := CollisionFree s a ∧ WholeRead s a

instance (s : State) (a : Action) : Decidable (Reads s a) := inferInstanceAs (Decidable (_ ∧ _))

/-- A write touches no verified row and none whose cooldown is not over when the last round
begins, at `now`; that round gets to every dirty row. -/
def Heeds (now : Int) (s : State) (a : Action) : Prop := Spares (Due now) s a ∧ Reaches now s a

instance (now : Int) (s : State) (a : Action) : Decidable (Heeds now s a) :=
  inferInstanceAs (Decidable (_ ∧ _))

/-- A write touches no verified row, and no end of the loop is put off. -/
def HeedsVersion (s : State) (a : Action) : Prop :=
  Spares (fun row => row.ack = false) s a ∧ Acquires a

instance (s : State) (a : Action) : Decidable (HeedsVersion s a) :=
  inferInstanceAs (Decidable (_ ∧ _))

theorem step_kept {a : Action} (fresh : ∀ row : Row, row.ack = false → row.lastSent = 0 → Q row)
    (kept : Inv remoteId s ∧ Watched Q s) (reads : Reads s a) (spares : Spares Q s a)
    (hs : step remoteId s a = some s') : Inv remoteId s' ∧ Watched Q s' :=
  ⟨step_inv kept.1 reads.1 hs, step_watched fresh kept.1 kept.2 reads.2 spares hs⟩

theorem due_fresh (now : Int) (row : Row) (unacked : row.ack = false) (unsent : row.lastSent = 0) :
    Due now row := ⟨unacked, .inl unsent.le⟩

/-- What holds from the begin of the last round on, `rounds` having been begun: the round is
closing as long as no source write comes. -/
structure Last (remoteId : String) (now : Int) (rounds : List (Int × Nat)) (written : Nat)
    (s : State) : Prop where
  kept : Inv remoteId s ∧ Watched (Due now) s
  rounds_eq : s.rounds = rounds
  written_le : written ≤ s.writes
  closing : s.writes = written → Closing now s

theorem step_last {now : Int} {rounds : List (Int × Nat)} {written : Nat} {a : Action}
    (h : Last remoteId now rounds written s) (reads : Reads s a) (heeds : Heeds now s a)
    (later : roundTime a = none) (hs : step remoteId s a = some s') :
    Last remoteId now rounds written s' := by
  obtain ⟨same, grows⟩ := step_counts hs later
  have before := h.written_le
  refine ⟨step_kept (due_fresh now) h.kept reads heeds.1 hs, same.trans h.rounds_eq, by omega,
    fun still => ?_⟩
  have calm : writesSource a = false := by
    by_contra writes
    rw [if_pos (by simpa using writes)] at grows
    omega
  exact step_closing h.kept.1 h.kept.2 reads.2 heeds.2 (h.closing (by omega)) calm later hs

theorem begin_last {now : Int} {batch : List Row} (kept : Inv remoteId s ∧ Watched (Due now) s)
    (reads : Reads s (.beginRound batch now)) (heeds : Heeds now s (.beginRound batch now))
    (hs : step remoteId s (.beginRound batch now) = some s') :
    ∃ version rounds, Last remoteId now ((version, s'.writes) :: rounds) s'.writes s' := by
  have kept' := step_kept (due_fresh now) kept reads heeds.1 hs
  have begun (version : Int) (hs : beginRound remoteId s batch now version = some s') :
      ∃ version rounds, Last remoteId now ((version, s'.writes) :: rounds) s'.writes s' := by
    unfold IncrementalLoop.beginRound at hs
    split at hs
    · cases hs
      exact ⟨version, s.rounds, kept', rfl, le_rfl, fun _ => ⟨rfl, heeds.2 rfl⟩⟩
    · cases hs
  cases step_turn hs with
  | beginRound opens begins => exact begun _ begins

/-- No source write came during or after the last round. -/
def Calm (s : State) : Prop := ∀ r ∈ s.rounds.head?, r.2 = s.writes

theorem calm_of_quiet (quiet : Quiet s) : Calm s := by
  intro r member
  obtain ⟨rest, rounds⟩ := List.head?_eq_some_iff.mp member
  exact quiet r (by simp [rounds, convergenceZeroRounds])

variable {live target : Source} {actions : List Action} {why : Finish}

theorem clean_of_heeds {now : Int} (hr : run (step remoteId) (init live target) actions = some s)
    (reads : Meets (step remoteId) Reads (init live target) actions) (ended : s.phase = .done why)
    (calm : Calm s) (last : lastRound actions = some now)
    (heeds : Meets (step remoteId) (Heeds now) (init live target) actions) :
    Watched (Due now) s ∧ ∀ row ∈ s.db.rows, ¬ Dirty s row := by
  obtain ⟨earlier, batch, later, rfl, none_later⟩ := lastRound_split last
  have meets := meets_and reads heeds
  rw [run_append] at hr
  obtain ⟨s₀, before, hr⟩ := Option.bind_eq_some_iff.mp hr
  obtain ⟨s₁, begins, after⟩ := run_cons hr
  obtain ⟨meets_before, meets_after⟩ := meets_append.mp meets
  obtain ⟨meets_begin, meets_after⟩ := meets_after s₀ before
  have kept : Inv remoteId s₀ ∧ Watched (Due now) s₀ :=
    run_invariant_of_meets
      (fun _ _ _ kept cond hs => step_kept (due_fresh now) kept cond.1 cond.2.1 hs) before
      meets_before ⟨inv_init live target, watched_init live target⟩
  obtain ⟨version, rounds, start⟩ := begin_last kept meets_begin.1 meets_begin.2 begins
  have no_round : Meets (step remoteId) (fun _ a => roundTime a = none) s₁ later :=
    meets_of_forall s₁ fun a member _ => none_later a member
  have final : Last remoteId now ((version, s₁.writes) :: rounds) s₁.writes s :=
    run_invariant_of_meets (fun _ _ _ h cond hs => step_last h cond.1.1 cond.1.2 cond.2 hs) after
      (meets_and (meets_after s₁ begins) no_round) start
  have still : s₁.writes = s.writes := calm (version, s₁.writes) (by simp [final.rounds_eq])
  have closing := final.closing still.symm
  simp only [Closing, ended] at closing
  exact ⟨final.kept.2, closing⟩

theorem clean_of_perfect (hr : run (step remoteId) (init live target) actions = some s)
    (reads : Meets (step remoteId) Reads (init live target) actions)
    (ended : s.phase = .done .perfect) (calm : Calm s)
    (heeds : Meets (step remoteId) HeedsVersion (init live target) actions) :
    Watched (fun row => row.ack = false) s ∧ ∀ row ∈ s.db.rows, ¬ Dirty s row := by
  obtain ⟨⟨inv, watched⟩, one⟩ :
      (Inv remoteId s ∧ Watched (fun row => row.ack = false) s) ∧ OneRound s :=
    run_invariant_of_meets
      (P := fun s => (Inv remoteId s ∧ Watched (fun row => row.ack = false) s) ∧ OneRound s)
      (fun _ _ _ kept cond hs =>
        ⟨step_kept (fun _ unacked _ => unacked) kept.1 cond.1 cond.2.1 hs,
          step_oneRound kept.1.1 kept.2 cond.2.2 hs⟩) hr (meets_and reads heeds)
      ⟨⟨inv_init live target, watched_init live target⟩, by simp [OneRound, init]⟩
  refine ⟨watched, fun row member dirty => ?_⟩
  have positive : 0 < s.version := by
    have here := inv.phase
    simp only [PhaseInv, ended] at here
    exact here.1
  obtain ⟨t, begun, seen⟩ := inv.read_of_perfect ended member (watched.dirty row member dirty)
  have newest : (s.version, t) ∈ s.rounds.head? := by
    have before := one.2
    simp only [ended] at before
    cases rounds : s.rounds with
    | nil => simp [rounds] at begun
    | cons r rest =>
      rw [rounds] at begun before
      rcases List.mem_cons.mp begun with rfl | old
      · rfl
      · exact absurd (before positive _ old) (lt_irrefl _)
  have still : t = s.writes := calm _ newest
  exact not_dirty (fun d a => (inv.images.lastWrite_le d a).trans (still ▸ seen)) dirty

end

def zeroSource : Source := fun _ _ => 0

-- a write of 64 equal bytes to the block of the runs below
def hotWrite (byte : UInt8) : Action := .sourceWrite 0 0x100000 (List.replicate 64 byte)

def hotRow (byte : UInt8) (lastSent : Int) : Row :=
  ⟨0, 0x100000, 64, blockHash 0x100000 (List.replicate 64 byte), false, lastSent, 0,
    "10.0.0.1:3400"⟩

def resent : List Action :=
  -- the block changes after its snapshot was sent, and a round during the full sync sends it again
  [.sendBlock true (0, 0x100000) 64, hotWrite 1, .beginRound [hotRow 0 0] 20000,
    .examine 0 (some 64) 20010, .endRound true]

def coolingRound (now : Int) : List Action :=
  -- a round that finds the block sent less than 121 seconds ago
  [.beginRound [hotRow 1 20010] now, .examine 0 (some 64) now, .endRound true]

def coolingRounds : List Action :=
  .startLoop 1 :: coolingRound 38000 ++ coolingRound 56000 ++ coolingRound 74000

def verified (write : List Action) : List Action :=
  -- the block is found unchanged, and two more rounds find nothing to look at before the loop
  -- begins
  [.sendBlock true (0, 0x100000) 64, .beginRound [hotRow 0 0] 20000, .examine 0 (some 64) 20010,
    .endRound true] ++ write ++
  [.beginRound [] 38000, .endRound true, .beginRound [] 56000, .endRound true, .startLoop 1,
    .beginRound [] 74000, .endRound true]

def Ends (actions : List Action) (why : Finish) (s : State) : Prop :=
  run (step "10.0.0.1:3400") (init zeroSource zeroSource) actions = some s ∧
    Meets (step "10.0.0.1:3400") Reads (init zeroSource zeroSource) actions ∧
    s.phase = .done why ∧ Quiet s

end Go2Cloud.WriteCapture
