import Go2Cloud.Server.BlockWriter

/-! block_writer_write under an unending schedule of write() results
(server/block_writer.c). The loop is taken one write() call at a time, so that a
call that never returns is a run without a result. -/
namespace Go2Cloud.WriteSchedule
open Protocol BlockWriter

/-- Results of the write() calls of one block. A call that writes anything at all
reports at least one byte. -/
structure Schedule where
  result : Nat → WriteResult
  positive : ∀ k, result k ≠ .wrote 0

-- the results of the first `n` calls
def Schedule.first (s : Schedule) (n : Nat) : List WriteResult := (List.range n).map s.result

theorem Schedule.first_succ (s : Schedule) (n : Nat) :
    s.first (n + 1) = s.first n ++ [s.result n] := by
  simp [Schedule.first, List.range_succ]

inductive Loop where
  | calling (disk : TargetDisk) (written : Nat)
  | returned (ok : Bool) (disk : TargetDisk) (written : Nat)

def loopTest (data : List UInt8) (disk : TargetDisk) (written : Nat) : Loop :=
  -- `written < len`
  if written < data.length then .calling disk written else .returned true disk written

def writeCall (data : List UInt8) (disk : TargetDisk) (written : Nat) : WriteResult → Loop
  -- one pass through the loop body, up to the next test
  | .interrupted => loopTest data disk written
  | .error => .returned false disk written
  | .wrote n =>
    let bytes := (data.drop written).take n
    loopTest data (disk.put bytes) (written + bytes.length)

def Loop.next (data : List UInt8) (r : WriteResult) : Loop → Loop
  | .calling disk written => writeCall data disk written r
  | .returned ok disk written => .returned ok disk written

def loopAfter (s : Schedule) (data : List UInt8) (disk : TargetDisk) : Nat → Loop
  | 0 => loopTest data disk 0
  | n + 1 => (loopAfter s data disk n).next data (s.result n)

def blockWriterWriteAfter (w : Writer) (seek : Bool) (s : Schedule) (fsyncs : List Bool)
    (b : Block) (n : Nat) : Option Written :=
  match diskOf b.devno with
  | none => some ⟨false, w, []⟩
  | some i =>
    if ¬ (w.disks i).registered ∨ ¬ (w.disks i).opened then some ⟨false, w, []⟩
    else if ¬ seek ∨ b.offset.toInt < 0 then some ⟨false, w, []⟩
    else
      match loopAfter s b.data ((w.disks i).seek b.offset.toInt.toNat) n with
      | .calling _ _ => none
      | .returned ok disk written =>
        some (finishWrite w ⟨seek, s.first n, fsyncs⟩ i b ⟨ok, disk, b.data.take written⟩)

/-- The loop's position agrees with the list recursion run on the same results:
what is left to do is the recursion on the data not yet written. -/
def Agrees (data : List UInt8) (start : TargetDisk) (done : List WriteResult) : Loop → Prop
  | .calling disk written => written < data.length ∧ ∀ more,
      writeLoop (done ++ more) start data =
        { writeLoop more disk (data.drop written) with
          landed := data.take written ++ (writeLoop more disk (data.drop written)).landed }
  | .returned ok disk written =>
    ∀ more, writeLoop (done ++ more) start data = ⟨ok, disk, data.take written⟩

theorem writeLoop_nil_data (script : List WriteResult) (d : TargetDisk) :
    writeLoop script d [] = ⟨true, d, []⟩ := by
  cases script <;> rfl

theorem agrees_loopTest {data : List UInt8} {start disk : TargetDisk} {done : List WriteResult}
    {written : Nat} (h : ∀ more, writeLoop (done ++ more) start data =
      { writeLoop more disk (data.drop written) with
        landed := data.take written ++ (writeLoop more disk (data.drop written)).landed }) :
    Agrees data start done (loopTest data disk written) := by
  unfold loopTest
  split
  next below => exact ⟨below, h⟩
  next above =>
    intro more
    rw [h more, List.drop_eq_nil_of_le (by omega), writeLoop_nil_data, List.append_nil]

theorem agrees_writeCall {data : List UInt8} {start disk : TargetDisk} {done : List WriteResult}
    {written : Nat} (h : Agrees data start done (.calling disk written)) (r : WriteResult) :
    Agrees data start (done ++ [r]) (writeCall data disk written r) := by
  obtain ⟨below, h⟩ := h
  obtain ⟨x, rest, left⟩ : ∃ x rest, data.drop written = x :: rest :=
    List.exists_cons_of_ne_nil (by rw [ne_eq, List.drop_eq_nil_iff]; omega)
  cases r with
  | interrupted =>
    apply agrees_loopTest
    intro more
    rw [List.append_assoc, h, left]
    rfl
  | error =>
    intro more
    rw [List.append_assoc, h, left]
    simp only [List.cons_append, writeLoop, List.append_nil]
  | wrote n =>
    apply agrees_loopTest
    intro more
    have split : data.drop (written + ((data.drop written).take n).length) =
        (data.drop written).drop n := by
      rw [← List.drop_drop, List.length_take]
      by_cases short : n ≤ (data.drop written).length
      · rw [Nat.min_eq_left short]
      · rw [Nat.min_eq_right (by omega), List.drop_length, List.drop_eq_nil_of_le (by omega)]
    have front : data.take (written + ((data.drop written).take n).length) =
        data.take written ++ (data.drop written).take n := by
      rw [List.take_add, List.length_take, List.take_eq_take_min]
      simp
    rw [List.append_assoc, h, split, front, left]
    simp only [List.cons_append, List.nil_append, writeLoop, List.append_assoc]

theorem loopAfter_agrees (s : Schedule) (data : List UInt8) (disk : TargetDisk) (n : Nat) :
    Agrees data disk (s.first n) (loopAfter s data disk n) := by
  -- by induction on the calls made: the list recursion on the results so far
  induction n with
  | zero =>
    apply agrees_loopTest
    intro more
    simp [Schedule.first]
  | succ n ih =>
    rw [Schedule.first_succ, loopAfter]
    cases at_n : loopAfter s data disk n with
    | calling now written =>
      rw [at_n] at ih
      exact agrees_writeCall ih (s.result n)
    | returned ok now written =>
      rw [at_n] at ih
      intro more
      rw [List.append_assoc]
      exact ih _

theorem blockWriterWriteAfter_eq {w : Writer} {seek : Bool} {s : Schedule} {fsyncs : List Bool}
    {b : Block} {n : Nat} {r : Written}
    (h : blockWriterWriteAfter w seek s fsyncs b n = some r) :
    blockWriterWrite w ⟨seek, s.first n, fsyncs⟩ b = r := by
  unfold blockWriterWriteAfter at h
  unfold blockWriterWrite
  cases device : diskOf b.devno with
  | none =>
    rw [device] at h
    exact Option.some.inj h
  | some i =>
    simp only [device] at h ⊢
    split at h
    next refused => rw [if_pos refused]; exact Option.some.inj h
    next available =>
    rw [if_neg available]
    split at h
    next refused => rw [if_pos refused]; exact Option.some.inj h
    next sought =>
    rw [if_neg sought]
    have agrees := loopAfter_agrees s b.data ((w.disks i).seek b.offset.toInt.toNat) n
    split at h
    · cases h
    next ok disk written returned =>
      rw [returned] at agrees
      have whole := agrees []
      rw [List.append_nil] at whole
      rw [whole]
      exact Option.some.inj h

theorem writeCall_progress {data : List UInt8} {disk : TargetDisk} {written : Nat}
    {r : WriteResult} (below : written < data.length) (positive : r ≠ .wrote 0)
    (ready : r ≠ .interrupted) :
    (∃ ok now total, writeCall data disk written r = .returned ok now total) ∨
      ∃ now further, writeCall data disk written r = .calling now further ∧ written < further ∧
        further < data.length := by
  -- a result other than EINTR ends the loop or moves it forward
  cases r with
  | interrupted => exact absurd rfl ready
  | error => exact .inl ⟨false, disk, written, rfl⟩
  | wrote n =>
    have some_bytes : 0 < ((data.drop written).take n).length := by
      have : n ≠ 0 := fun zero => positive (by rw [zero])
      rw [List.length_take, List.length_drop]
      omega
    simp only [writeCall, loopTest]
    split
    next more => exact .inr ⟨_, _, rfl, by omega, more⟩
    · exact .inl ⟨_, _, _, rfl⟩

theorem loopTest_calling {data : List UInt8} {disk now : TargetDisk} {written further : Nat}
    (h : loopTest data disk written = .calling now further) : further < data.length := by
  unfold loopTest at h
  split at h
  next below => cases h; exact below
  · cases h

theorem loopAfter_progress (s : Schedule) (data : List UInt8) (start : TargetDisk) (k : Nat)
    {n written : Nat} {disk : TargetDisk} (at_n : loopAfter s data start n = .calling disk written)
    (below : written < data.length) (ready : s.result (n + k) ≠ .interrupted) :
    ∃ m, (∃ ok now total, loopAfter s data start m = .returned ok now total) ∨
      ∃ now further, loopAfter s data start m = .calling now further ∧ written < further ∧
        further < data.length := by
  -- waiting through EINTRs: the next other result is reached with nothing changed
  by_cases interrupted : s.result n = .interrupted
  · cases k with
    | zero => exact absurd interrupted ready
    | succ k =>
      have same : loopAfter s data start (n + 1) = .calling disk written := by
        simp only [loopAfter, at_n, Loop.next, interrupted, writeCall, loopTest, if_pos below]
      exact loopAfter_progress s data start k same below (by
        rw [show n + 1 + k = n + (k + 1) by omega]
        exact ready)
  · refine ⟨n + 1, ?_⟩
    simp only [loopAfter, at_n, Loop.next]
    exact writeCall_progress below (s.positive n) interrupted

theorem loopAfter_returns (s : Schedule) (data : List UInt8) (start : TargetDisk)
    (fair : ∀ n, ∃ m ≥ n, s.result m ≠ .interrupted) :
    ∃ n ok disk written, loopAfter s data start n = .returned ok disk written := by
  -- by induction on the bytes still to write
  have from_here : ∀ left n disk written, loopAfter s data start n = .calling disk written →
      written < data.length → data.length - written ≤ left →
      ∃ m ok now total, loopAfter s data start m = .returned ok now total := by
    intro left
    induction left with
    | zero => intro n disk written _ below close; omega
    | succ left ih =>
      intro n disk written at_n below close
      obtain ⟨m, later, ready⟩ := fair n
      obtain ⟨m', returned | ⟨now, further, at_m, more, under⟩⟩ :=
        loopAfter_progress s data start (m - n) at_n below (by
          rw [show n + (m - n) = m by omega]
          exact ready)
      · exact ⟨m', returned⟩
      · exact ih m' now further at_m under (by omega)
  cases at_start : loopAfter s data start 0 with
  | calling disk written =>
    exact from_here _ 0 disk written at_start (loopTest_calling at_start) le_rfl
  | returned ok disk written => exact ⟨0, ok, disk, written, at_start⟩

theorem blockWriterWriteAfter_returns (w : Writer) (seek : Bool) (s : Schedule)
    (fsyncs : List Bool) (b : Block) (fair : ∀ n, ∃ m ≥ n, s.result m ≠ .interrupted) :
    ∃ n r, blockWriterWriteAfter w seek s fsyncs b n = some r := by
  unfold blockWriterWriteAfter
  cases diskOf b.devno with
  | none => exact ⟨0, _, rfl⟩
  | some i =>
    simp only
    split
    · exact ⟨0, _, rfl⟩
    split
    · exact ⟨0, _, rfl⟩
    obtain ⟨n, ok, disk, written, returned⟩ :=
      loopAfter_returns s b.data ((w.disks i).seek b.offset.toInt.toNat) fair
    exact ⟨n, _, by rw [returned]⟩

def Placed (before after : Store) (i : Fin maxTargetDisks) (offset : Nat) (bytes : List UInt8) :
    Prop :=
  (∀ k (h : k < bytes.length), after i (offset + k) = bytes[k]) ∧
    ∀ j x, (j ≠ i ∨ x < offset ∨ offset + bytes.length ≤ x) → after j x = before j x

theorem placed_put (s : Store) {devno : Int32} {i : Fin maxTargetDisks}
    (disk : diskOf devno = some i) (offset : Int64) (bytes : List UInt8) :
    Placed s (s.put devno offset bytes) i offset.toInt.toNat bytes := by
  rw [Store.put_on s disk]
  constructor
  · intro k inside
    rw [Function.update_self, ByteStore.write_inside _ _ inside]
  · intro j x outside
    by_cases same : j = i
    · subst same
      rw [Function.update_self, ByteStore.write_outside _ (by simpa using outside)]
    · rw [Function.update_of_ne same]

def counters (w : Writer) : UInt64 × UInt64 × UInt64 × UInt64 :=
  (w.totalBlocks, w.totalBytes, w.pendingBytes, w.blocksSinceFsync)

theorem blockWriterWrite_failed {w : Writer} {io : DiskIo} {b : Block}
    (failed : (blockWriterWrite w io b).ok = false) :
    counters (blockWriterWrite w io b).writer = counters w := by
  unfold blockWriterWrite at failed ⊢
  split
  · rfl
  next i device =>
    simp only [device] at failed
    split
    · rfl
    next available =>
    rw [if_neg available] at failed
    split
    · rfl
    next sought =>
    rw [if_neg sought] at failed
    unfold finishWrite
    split
    next ok => simp only [finishWrite, ok, if_true, reduceCtorEq] at failed
    · rfl

/-- An exact positioned write: on success the block's bytes stand at its offset and
nothing else changed; on failure a prefix of them does and the statistics are as
before; and it returns unless EINTR comes for ever. -/
theorem blockWriterWrite_exact (w : Writer) (seek : Bool) (s : Schedule) (fsyncs : List Bool)
    (b : Block) (i : Fin maxTargetDisks) (disk : diskOf b.devno = some i) :
    (∀ n r, blockWriterWriteAfter w seek s fsyncs b n = some r →
      (r.ok = true → Placed w.store r.writer.store i b.offset.toInt.toNat b.data) ∧
      (r.ok = false → counters r.writer = counters w ∧
        ∃ landed, landed <+: b.data ∧
          Placed w.store r.writer.store i b.offset.toInt.toNat landed)) ∧
    ((∀ n, ∃ m ≥ n, s.result m ≠ .interrupted) →
      ∃ n r, blockWriterWriteAfter w seek s fsyncs b n = some r) := by
  refine ⟨fun n r returned => ?_, blockWriterWriteAfter_returns w seek s fsyncs b⟩
  have call := blockWriterWriteAfter_eq returned
  obtain ⟨landed, spec⟩ := blockWriterWrite_spec w ⟨seek, s.first n, fsyncs⟩ b
  have placed := placed_put w.store disk b.offset landed
  rw [← spec.store, call] at placed
  refine ⟨fun ok => ?_, fun failed => ⟨?_, landed, spec.landed_le, placed⟩⟩
  · rw [← call] at ok
    rwa [spec.complete ok] at placed
  · rw [← call] at failed ⊢
    exact blockWriterWrite_failed failed

def shortWrites : Schedule where
  -- an interrupted call, a short one, then the rest
  result k := if k = 0 then .interrupted else .wrote k
  positive k zero := by
    by_cases first : k = 0
    · rw [if_pos first] at zero
      cases zero
    · rw [if_neg first] at zero
      exact first (WriteResult.wrote.inj zero)

theorem blockWriterWrite_exact_shortWrites :
    (blockWriterWriteAfter blankWriter true shortWrites [] ⟨1, 4, [7, 8, 9]⟩ 2).isNone ∧
      ∃ r, blockWriterWriteAfter blankWriter true shortWrites [] ⟨1, 4, [7, 8, 9]⟩ 3 = some r ∧
        r.ok = true ∧ Placed blankWriter.store r.writer.store 1 4 [7, 8, 9] :=
  have returned : ∃ r, blockWriterWriteAfter blankWriter true shortWrites [] ⟨1, 4, [7, 8, 9]⟩ 3 =
      some r ∧ r.ok = true := ⟨_, rfl, rfl⟩
  have exact_write := (blockWriterWrite_exact blankWriter true shortWrites [] ⟨1, 4, [7, 8, 9]⟩ 1
    (by decide)).1
  ⟨rfl, returned.elim fun r h => ⟨r, h.1, h.2, (exact_write 3 r h.1).1 h.2⟩⟩

end Go2Cloud.WriteSchedule
