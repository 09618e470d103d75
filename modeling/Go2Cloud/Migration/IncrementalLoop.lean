import Go2Cloud.Lib.Transition
import Go2Cloud.Mirror

/-! The TailSend full sync and incremental loop over a source that keeps being
written (do_migrate in client/main.c). Every queued frame is delivered and
written in send order, so a frame reaches the target in the step that queues it. -/
namespace Go2Cloud.IncrementalLoop
open Protocol Reader Tracker Round Mirror History Transition

abbrev Len := Fin (blockSize + 1)

def readBlock (src : Source) (k : Key) (n : Len) : Block := ⟨k.1, k.2, src.read k n⟩

def readData (src : Source) (k : Key) (n : Len) : ReadData :=
  ⟨src.read k n, by rw [Source.read, ByteStore.read_length]; exact Nat.le_of_lt_succ n.isLt⟩

inductive Phase where
  | full
  | loop
  | round (p : Progress)
  | done (why : Finish)
  deriving DecidableEq, Repr

/-- Contents of source and target. `writes` counts the source writes so far and
`lastWrite` is the number of the last one to a byte. `frames` are the blocks
sent, newest first, and `checked` is the number of writes seen by the content
last sent for a key, or found equal to it later; a snapshot has seen none. -/
structure Disks where
  live : Source
  snapshot : Source
  target : Source
  writes : Nat
  lastWrite : Int32 → Nat → Nat
  frames : List Block
  checked : Key → Nat

/-- `rounds` lists the rounds begun, newest first, each with its version and the
number of source writes before it. -/
structure State extends Disks where
  db : BlockTable
  phase : Phase
  version : Int
  zeroChangeRounds : Nat
  incRound : Nat
  rounds : List (Int × Nat)

def init (live target : Source) : State where
  -- the snapshot has just been taken and the tracker is empty
  live := live
  snapshot := live
  target := target
  db := Keyed.empty
  phase := .full
  version := 0
  zeroChangeRounds := 0
  incRound := 0
  writes := 0
  lastWrite := fun _ _ => 0
  checked := fun _ => 0
  frames := []
  rounds := []

inductive Action where
  | sourceWrite (devno : Int32) (pos : Nat) (bytes : List UInt8)
  | sendBlock (vss : Bool) (k : Key) (n : Len)
  | startLoop (version : Int)
  | beginRound (batch : List Row) (now : Int)
  | examine (queueCount : Nat) (n : Option Len) (later : Int)
  | endRound (acquired : Bool)

def sourceWrite (s : State) (devno : Int32) (pos : Nat) (bytes : List UInt8) : State :=
  { s with
    live := s.live.write devno pos bytes
    writes := s.writes + 1
    lastWrite := fun d a =>
      if d = devno ∧ pos ≤ a ∧ a < pos + bytes.length then s.writes + 1 else s.lastWrite d a }

def transmit (s : State) (b : Block) (seen : Nat) (db : BlockTable) : State :=
  { s with
    target := s.target.write b.devno b.offset.toInt.toNat b.data
    db := db
    checked := Function.update s.checked b.key seen
    frames := b :: s.frames }

def confirm (s : State) (k : Key) (seen : Nat) : State :=
  { s with checked := Function.update s.checked k (max (s.checked k) seen) }

def sendRead (remoteId : String) (s : State) (b : Block) (seen : Nat) : State :=
  if b.data = [] then s
  else if sqliteBlockAcked s.db b.key = some true then s
  else if sqliteBlockLookup s.db b.key = some (hashOf b) then confirm s b.key seen
  else
    transmit s b seen
      (sqliteBlockUpsertV s.db remoteId b.key (Int32.ofInt b.data.length) (hashOf b) false s.version)

def sendBlock (remoteId : String) (s : State) (vss : Bool) (k : Key) (n : Len) : State :=
  if vss then sendRead remoteId s (readBlock s.snapshot k n) 0
  else sendRead remoteId s (readBlock s.live k n) s.writes

def beginRound (remoteId : String) (s : State) (batch : List Row) (now version : Int) :
    Option State :=
  -- rounds during the full sync run with version 0
  if IsUnackedBatch s.db remoteId roundLimit batch then
    some { s with
      phase := .round ⟨batch, now, version, 0⟩
      incRound := s.incRound + 1
      rounds := (version, s.writes) :: s.rounds }
  else none

/-- The loop body of do_incremental_round; `n` is `none` where no partition's
reader covers the row, and `later` is the time after the push. -/
def examine (remoteId : String) (s : State) (p : Progress) (row : Row) (rest : List Row)
    (queueCount : Nat) (n : Option Len) (later : Int) : State :=
  let next := { p with batch := rest }
  match examineRow p.now queueCount row (n.map (readData s.live row.key)) with
  | .cooldown => { s with phase := .round next }
  | .backpressure => { s with phase := .round { p with batch := [] } }
  | .unread => { s with phase := .round next }
  | .unchanged =>
    { confirm s row.key s.writes with
      db := markStable s.db row.key p.version p.now
      phase := .round next }
  | .changed data =>
    let b : Block := ⟨row.devno, row.offset, data.1⟩
    { transmit s b s.writes
        (recordResent (sqliteUpdateLastSent s.db row.key p.now) remoteId b (hashOf b) p.version
          later) with
      phase := .round { next with requeued := p.requeued + 1 } }

/-- After a round of the loop: should_finish, then timer_cb_real, which gives up
for now if it finds no connection. -/
def endRound (remoteId : String) (s : State) (p : Progress) (acquired : Bool) : State :=
  if p.version > 0 then
    match shouldFinish s.db remoteId p.requeued p.version s.zeroChangeRounds s.incRound with
    | (some why, zeroRounds) =>
      { s with
        phase := if acquired then .done why else .loop
        zeroChangeRounds := zeroRounds }
    | (none, zeroRounds) =>
      { s with phase := .loop, zeroChangeRounds := zeroRounds, version := s.version + 1 }
  else { s with phase := .full }

def step (remoteId : String) (s : State) : Action → Option State
  | .sourceWrite devno pos bytes => some (sourceWrite s devno pos bytes)
  | .sendBlock vss k n =>
    match s.phase with
    | .full => some (sendBlock remoteId s vss k n)
    | _ => none
  | .startLoop version =>
    match s.phase with
    | .full =>
      if 1 ≤ version then
        some { s with phase := .loop, version := version, zeroChangeRounds := 0 }
      else none
    | _ => none
  | .beginRound batch now =>
    match s.phase with
    | .full => beginRound remoteId s batch now 0
    | .loop => beginRound remoteId s batch now s.version
    | _ => none
  | .examine queueCount n later =>
    match s.phase with
    | .round p =>
      match p.batch with
      | [] => none
      | row :: rest => some (examine remoteId s p row rest queueCount n later)
    | _ => none
  | .endRound acquired =>
    match s.phase with
    | .round p => if p.batch = [] then some (endRound remoteId s p acquired) else none
    | _ => none

inductive Turn (remoteId : String) (s : State) : Action → State → Prop
  | sourceWrite {devno : Int32} {pos : Nat} {bytes : List UInt8} :
    Turn remoteId s (.sourceWrite devno pos bytes) (sourceWrite s devno pos bytes)
  | sendBlock {vss : Bool} {k : Key} {n : Len} (full : s.phase = .full) :
    Turn remoteId s (.sendBlock vss k n) (sendBlock remoteId s vss k n)
  | startLoop {version : Int} (full : s.phase = .full) (positive : 1 ≤ version) :
    Turn remoteId s (.startLoop version)
      { s with phase := .loop, version := version, zeroChangeRounds := 0 }
  | beginRound {batch : List Row} {now version : Int} {s' : State}
    (opens : s.phase = .full ∧ version = 0 ∨ s.phase = .loop ∧ version = s.version)
    (begins : beginRound remoteId s batch now version = some s') :
    Turn remoteId s (.beginRound batch now) s'
  | examine {queueCount : Nat} {n : Option Len} {later : Int} {p : Progress} {row : Row}
    {rest : List Row} (round : s.phase = .round p) (batch : p.batch = row :: rest) :
    Turn remoteId s (.examine queueCount n later)
      (examine remoteId s p row rest queueCount n later)
  | endRound {acquired : Bool} {p : Progress} (round : s.phase = .round p) (ended : p.batch = []) :
    Turn remoteId s (.endRound acquired) (endRound remoteId s p acquired)

theorem step_turn {remoteId : String} {s s' : State} {a : Action}
    (h : step remoteId s a = some s') : Turn remoteId s a s' := by
  cases a with
  | sourceWrite devno pos bytes =>
    cases h
    exact .sourceWrite
  | sendBlock vss k n =>
    simp only [step] at h
    split at h
    next full =>
      cases h
      exact .sendBlock full
    · cases h
  | startLoop version =>
    simp only [step] at h
    split at h
    next full =>
      split at h
      next positive =>
        cases h
        exact .startLoop full positive
      · cases h
    · cases h
  | beginRound batch now =>
    simp only [step] at h
    split at h
    next full => exact .beginRound (.inl ⟨full, rfl⟩) h
    next loop => exact .beginRound (.inr ⟨loop, rfl⟩) h
    · cases h
  | examine queueCount n later =>
    simp only [step] at h
    split at h
    next p round =>
      split at h
      · cases h
      next row rest batch =>
        cases h
        exact .examine round batch
    · cases h
  | endRound acquired =>
    simp only [step] at h
    split at h
    next p round =>
      split at h
      next ended =>
        cases h
        exact .endRound round ended
      · cases h
    · cases h

def CollisionFree (s : State) : Action → Prop
  | .sendBlock vss k n =>
    NoCollision s.frames [readBlock (if vss then s.snapshot else s.live) k n]
  | .examine _ n _ =>
    match s.phase, n with
    | .round p, some n => ∀ row ∈ p.batch.head?, NoCollision s.frames [readBlock s.live row.key n]
    | _, _ => True
  | _ => True

instance (s : State) : (a : Action) → Decidable (CollisionFree s a)
  | .sendBlock vss k n => inferInstanceAs (Decidable (NoCollision s.frames
      [readBlock (if vss then s.snapshot else s.live) k n]))
  | .examine _ n _ =>
    match h : s.phase, n with
    | .round p, some n => decidable_of_iff
        (∀ row ∈ p.batch.head?, NoCollision s.frames [readBlock s.live row.key n])
        (by simp [CollisionFree, h])
    | .round _, none | .full, _ | .loop, _ | .done _, _ => .isTrue (by simp [CollisionFree, h])
  | .sourceWrite _ _ _ | .startLoop _ | .beginRound _ _ | .endRound _ => .isTrue trivial

def newest (frames : List Block) (d : Int32) (a : Nat) : Option Block :=
  frames.find? fun b => Covers b d a

theorem newest_cons (b : Block) (frames : List Block) (d : Int32) (a : Nat) :
    newest (b :: frames) d a = if Covers b d a then some b else newest frames d a := by
  simp only [newest, List.find?_cons]
  split <;> simp_all

/-- If a key's latest content covers an address, no newer frame of another key
replaced the newest one of this key there. -/
theorem newest_eq_latest {frames : List Block} {d : Int32} {a : Nat} {f b : Block}
    (first : newest frames d a = some f) (last : latest frames f.key = some b)
    (covers : Covers b d a) : f = b := by
  induction frames with
  | nil => cases first
  | cons x frames ih =>
    rw [newest_cons] at first
    rw [latest_cons] at last
    split at first
    · cases first
      rw [if_pos rfl] at last
      exact Option.some.inj last
    next uncovered =>
      split at last
      · cases last
        exact absurd covers uncovered
      · exact ih first last

/-- Contents: the target has the newest frame's bytes, and a key's latest content
is the live one at every byte not written since it was read. -/
structure Images (s : Disks) : Prop where
  lastWrite_le : ∀ d a, s.lastWrite d a ≤ s.writes
  checked_le : ∀ k, s.checked k ≤ s.writes
  snapshot : ∀ d a, s.lastWrite d a = 0 → s.snapshot d a = s.live d a
  copies : ∀ k b, latest s.frames k = some b → ∀ a, Covers b k.1 a →
    s.lastWrite k.1 a ≤ s.checked k → byteAt b a = some (s.live k.1 a)
  target : ∀ d a f, newest s.frames d a = some f → byteAt f a = some (s.target d a)

variable {s : State}

theorem Images.sourceWrite (h : Images s.toDisks) (devno : Int32) (pos : Nat) (bytes : List UInt8) :
    Images (sourceWrite s devno pos bytes).toDisks where
  lastWrite_le d a := by
    simp only [IncrementalLoop.sourceWrite]
    split
    · exact le_rfl
    · exact Nat.le_succ_of_le (h.lastWrite_le d a)
  checked_le k := Nat.le_succ_of_le (h.checked_le k)
  snapshot d a untouched := by
    simp only [IncrementalLoop.sourceWrite] at untouched ⊢
    split at untouched
    · cases untouched
    next outside =>
      rw [write_outside _ outside]
      exact h.snapshot d a untouched
  copies k b found a covers seen := by
    have checked := h.checked_le k
    simp only [IncrementalLoop.sourceWrite] at found seen ⊢
    split at seen
    · omega
    next outside =>
      rw [write_outside _ outside]
      exact h.copies k b found a covers seen
  target := h.target

theorem Images.transmit (h : Images s.toDisks) {b : Block} {seen : Nat} (past : seen ≤ s.writes)
    (content : ∀ a, Covers b b.devno a → s.lastWrite b.devno a ≤ seen →
      byteAt b a = some (s.live b.devno a)) (db : BlockTable) : Images (transmit s b seen db).toDisks where
  lastWrite_le := h.lastWrite_le
  checked_le k := by
    simp only [IncrementalLoop.transmit]
    by_cases here : k = b.key
    · rw [here, Function.update_self]
      exact past
    · rw [Function.update_of_ne here]
      exact h.checked_le k
  snapshot := h.snapshot
  copies k b' found a covers fresh := by
    simp only [IncrementalLoop.transmit] at found fresh ⊢
    rw [latest_cons] at found
    split at found
    next here =>
      cases found
      subst here
      rw [Function.update_self] at fresh
      exact content a covers fresh
    next other =>
      rw [Function.update_of_ne (Ne.symm other)] at fresh
      exact h.copies k b' found a covers fresh
  target d a f found := by
    simp only [IncrementalLoop.transmit] at found ⊢
    rw [newest_cons] at found
    split at found
    next covers =>
      cases found
      exact byteAt_write s.target covers
    next uncovered =>
      rw [write_outside s.target fun inside => uncovered ⟨inside.1.symm, inside.2⟩]
      exact h.target d a f found

theorem Images.confirm (h : Images s.toDisks) {b : Block} {seen : Nat} (past : seen ≤ s.writes)
    (content : ∀ a, Covers b b.devno a → s.lastWrite b.devno a ≤ seen →
      byteAt b a = some (s.live b.devno a)) (same : latest s.frames b.key = some b) :
    Images (confirm s b.key seen).toDisks where
  lastWrite_le := h.lastWrite_le
  checked_le k := by
    simp only [IncrementalLoop.confirm]
    by_cases here : k = b.key
    · rw [here, Function.update_self]
      exact max_le (h.checked_le _) past
    · rw [Function.update_of_ne here]
      exact h.checked_le k
  snapshot := h.snapshot
  copies k b' found a covers fresh := by
    simp only [IncrementalLoop.confirm] at found fresh ⊢
    by_cases here : k = b.key
    · subst here
      cases same.symm.trans found
      rw [Function.update_self, le_max_iff] at fresh
      exact fresh.elim (h.copies _ b same a covers) (content a covers)
    · rw [Function.update_of_ne here] at fresh
      exact h.copies k b' found a covers fresh
  target := h.target

end Go2Cloud.IncrementalLoop
