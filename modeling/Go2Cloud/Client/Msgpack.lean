import Go2Cloud.Protocol
import Mathlib.Tactic.Linarith

/-! The client's MsgPack encoder (client/msgpack.c) over its growing buffer.
A writer holds the bytes already written and the allocated capacity; bytes of
the buffer past `written` are never read, so they are not stored. Every
malloc/realloc consults a script of outcomes; past its end allocation succeeds. -/
namespace Go2Cloud.Msgpack
open Bytes Protocol

structure Writer where
  bytes : List UInt8
  capacity : Nat

structure WriterState where
  writer : Writer
  heap : List Bool

/-- A writer routine: `none` is undefined behaviour (a copy past the capacity,
or a growth loop that never ends), the flag is true for return value 0. -/
abbrev WriterOp := WriterState → Option (Bool × WriterState)

-- `if (first(w) != 0) return -1; return next(w);`
def WriterOp.andThen (first next : WriterOp) : WriterOp := fun s =>
  match first s with
  | none => none
  | some (false, s') => some (false, s')
  | some (true, s') => next s'

def sizeWrap : Nat := 2 ^ 64

/-- The doubling loop of writer_ensure. Sixty-four doublings of a nonzero
capacity pass 2^63, so the bound on the iterations is only reached from zero. -/
def growCapacity : (fuel target cap : Nat) → Option Nat
  | 0, _, _ => none
  | fuel + 1, target, cap =>
    if target > cap then
      let next := cap * 2 % sizeWrap
      if next > 2 ^ 63 then some target else growCapacity fuel target next
    else some cap

def realloc (s : WriterState) (newCap : Nat) : Bool × WriterState :=
  -- realloc succeeds unless the script's next outcome says otherwise
  match s.heap with
  | false :: heap => (false, { s with heap := heap })
  | true :: heap => (true, ⟨{ s.writer with capacity := newCap }, heap⟩)
  | [] => (true, ⟨{ s.writer with capacity := newCap }, []⟩)

def writerEnsure (need : Nat) : WriterOp := fun s =>
  let written := s.writer.bytes.length
  let capacity := s.writer.capacity
  -- size_t subtraction
  if (capacity + sizeWrap - written) % sizeWrap ≥ need then some (true, s)
  else
    let start := if capacity ≠ 0 then capacity * 2 % sizeWrap else msgpackBufInitialCap
    match growCapacity 65 ((written + need) % sizeWrap) start with
    | none => none
    | some newCap => some (realloc s newCap)

def memcpy (data : List UInt8) : WriterOp := fun s =>
  if s.writer.bytes.length + data.length ≤ s.writer.capacity then
    some (true, { s with writer := { s.writer with bytes := s.writer.bytes ++ data } })
  else none

def writerAppend (data : List UInt8) : WriterOp :=
  (writerEnsure data.length).andThen (memcpy data)

def writerReset (s : WriterState) : WriterState :=
  { s with writer := { s.writer with bytes := [] } }

def writerInit (heap : List Bool) : WriterState :=
  match heap with
  | false :: heap => ⟨⟨[], 0⟩, heap⟩
  | true :: heap => ⟨⟨[], msgpackBufInitialCap⟩, heap⟩
  | [] => ⟨⟨[], msgpackBufInitialCap⟩, []⟩

def int32Bytes (val : Int) : List UInt8 :=
  if 0 ≤ val ∧ val ≤ 127 then signedBytes 1 val
  else if -32 ≤ val ∧ val < 0 then signedBytes 1 val
  else if -128 ≤ val ∧ val ≤ 127 then msgpackInt8 :: signedBytes 1 val
  else if -32768 ≤ val ∧ val ≤ 32767 then msgpackInt16 :: signedBytes 2 val
  else msgpackInt32 :: signedBytes 4 val

def int64Bytes (val : Int) : List UInt8 := msgpackInt64 :: signedBytes 8 val

def binHeader (len : Nat) : List UInt8 :=
  if len < 256 then msgpackBin8 :: beBytes 1 len
  else if len < 65536 then msgpackBin16 :: beBytes 2 len
  else msgpackBin32 :: beBytes 4 len

def msgpackWriteInt32 (val : Int32) : WriterOp := writerAppend (int32Bytes val.toInt)

def msgpackWriteInt64 (val : Int64) : WriterOp := writerAppend (int64Bytes val.toInt)

def msgpackWriteBin (data : List UInt8) : WriterOp :=
  (writerAppend (binHeader data.length)).andThen (writerAppend data)

def encodeFields (b : Block) : WriterOp :=
  (writerAppend [msgpackFixmap3]).andThen
    ((writerAppend [0x00]).andThen
      ((msgpackWriteInt32 b.devno).andThen
        ((writerAppend [0x01]).andThen
          ((msgpackWriteInt64 b.offset).andThen
            ((writerAppend [0x02]).andThen
              (msgpackWriteBin b.data))))))

def msgpackEncodeBlock (b : Block) : WriterOp := fun s => encodeFields b (writerReset s)

def blockBytes (b : Block) : List UInt8 :=
  [msgpackFixmap3] ++ ([0x00] ++ (int32Bytes b.devno.toInt ++ ([0x01] ++
    (int64Bytes b.offset.toInt ++ ([0x02] ++ (binHeader b.data.length ++ b.data))))))

inductive Doubles (target : Nat) : Nat → Nat → Prop where
  | enough {cap : Nat} (room : target ≤ cap) : Doubles target cap cap
  | twice {cap c : Nat} (short : cap < target) (unwrapped : cap * 2 ≤ 2 ^ 63)
      (rest : Doubles target (cap * 2) c) : Doubles target cap c

theorem Doubles.reaches {target cap c : Nat} (h : Doubles target cap c) : target ≤ c := by
  induction h with
  | enough room => exact room
  | twice _ _ _ ih => exact ih

theorem Doubles.lt_sizeWrap {target cap c : Nat} (h : Doubles target cap c) (hc : cap ≤ 2 ^ 63) :
    c < sizeWrap := by
  induction h with
  | enough _ => unfold sizeWrap; omega
  | twice _ unwrapped _ ih => exact ih unwrapped

theorem growCapacity_doubles (fuel target cap : Nat) (enough : target ≤ cap * 2 ^ fuel)
    (ht : target < 2 ^ 62) :
    ∃ c, growCapacity (fuel + 1) target cap = some c ∧ Doubles target cap c := by
  induction fuel generalizing cap with
  | zero =>
    have small : ¬ target > cap := by simpa using enough
    exact ⟨cap, by rw [growCapacity, if_neg small], .enough (by omega)⟩
  | succ fuel ih =>
    rw [growCapacity]
    by_cases big : target > cap
    · have wrap : cap * 2 % sizeWrap = cap * 2 := Nat.mod_eq_of_lt (by unfold sizeWrap; omega)
      have low : ¬ cap * 2 > 2 ^ 63 := by omega
      have doubled : target ≤ cap * 2 * 2 ^ fuel := by
        rw [pow_succ] at enough
        linarith
      simp only [if_pos big, wrap, if_neg low]
      obtain ⟨c, grown, doubles⟩ := ih _ doubled
      exact ⟨c, grown, .twice big (by omega) doubles⟩
    · exact ⟨cap, by rw [if_neg big], .enough (by omega)⟩

def HeapOk (s : WriterState) : Prop := ∀ outcome ∈ s.heap, outcome = true

structure WriterState.Ok (s : WriterState) : Prop where
  heap : HeapOk s
  fits : s.writer.bytes.length ≤ s.writer.capacity
  size : s.writer.capacity < sizeWrap

def Appends (op : WriterOp) (bytes : List UInt8) : Prop :=
  ∀ s : WriterState, s.Ok → s.writer.bytes.length + bytes.length < 2 ^ 62 →
    ∃ s', op s = some (true, s') ∧ s'.writer.bytes = s.writer.bytes ++ bytes ∧ s'.Ok

theorem realloc_cases (s : WriterState) (newCap : Nat) :
    realloc s newCap = (false, ⟨s.writer, s.heap.tail⟩) ∧ ¬ HeapOk s ∨
      realloc s newCap = (true, ⟨{ s.writer with capacity := newCap }, s.heap.tail⟩) := by
  unfold realloc HeapOk
  cases s.heap with
  | nil => exact .inr rfl
  | cons outcome heap => cases outcome <;> simp

theorem realloc_bytes (s : WriterState) (newCap : Nat) :
    (realloc s newCap).2.writer.bytes = s.writer.bytes := by
  rcases realloc_cases s newCap with ⟨failed, -⟩ | grew
  · rw [failed]
  · rw [grew]

structure WriterState.Fits (s : WriterState) : Prop where
  fits : s.writer.bytes.length ≤ s.writer.capacity
  size : s.writer.capacity < sizeWrap

def Grown (need : Nat) (s : WriterState) (c : Nat) : Prop :=
  s.writer.capacity * 2 < sizeWrap ∧
    Doubles (s.writer.bytes.length + need)
      (if s.writer.capacity ≠ 0 then s.writer.capacity * 2 else msgpackBufInitialCap) c

theorem Grown.reaches {need c : Nat} {s : WriterState} (h : Grown need s c) :
    s.writer.bytes.length + need ≤ c := h.2.reaches

theorem writerEnsure_cases (need : Nat) {s : WriterState} (ok : s.Fits)
    (bound : s.writer.bytes.length + need < 2 ^ 62) :
    need ≤ s.writer.capacity - s.writer.bytes.length ∧ writerEnsure need s = some (true, s) ∨
      s.writer.capacity - s.writer.bytes.length < need ∧
        ∃ c, Grown need s c ∧ c < sizeWrap ∧ writerEnsure need s = some (realloc s c) := by
  obtain ⟨fits, size⟩ := ok
  have room : (s.writer.capacity + sizeWrap - s.writer.bytes.length) % sizeWrap =
      s.writer.capacity - s.writer.bytes.length := by
    have split : s.writer.capacity + sizeWrap - s.writer.bytes.length =
        (s.writer.capacity - s.writer.bytes.length) + sizeWrap := by omega
    rw [split, Nat.add_mod_right, Nat.mod_eq_of_lt (by omega)]
  simp only [writerEnsure, room]
  by_cases enough : s.writer.capacity - s.writer.bytes.length ≥ need
  · exact .inl ⟨enough, by rw [if_pos enough]⟩
  · refine .inr ⟨by omega, ?_⟩
    rw [if_neg enough]
    have target : (s.writer.bytes.length + need) % sizeWrap = s.writer.bytes.length + need :=
      Nat.mod_eq_of_lt (by unfold sizeWrap; omega)
    have unwrapped : s.writer.capacity * 2 < sizeWrap := by unfold sizeWrap; omega
    rw [target, Nat.mod_eq_of_lt unwrapped]
    have start : 0 < (if s.writer.capacity ≠ 0 then s.writer.capacity * 2
          else msgpackBufInitialCap) ∧
        (if s.writer.capacity ≠ 0 then s.writer.capacity * 2
          else msgpackBufInitialCap) ≤ 2 ^ 63 := by
      split
      · omega
      · decide
    obtain ⟨c, grown, doubles⟩ := growCapacity_doubles 64 (s.writer.bytes.length + need)
      (if s.writer.capacity ≠ 0 then s.writer.capacity * 2 else msgpackBufInitialCap)
      (by omega) bound
    exact ⟨c, ⟨unwrapped, doubles⟩, doubles.lt_sizeWrap start.2, by rw [grown]⟩

/-- Whatever realloc answers, writer_ensure returns; a failure leaves the writer
as it was and a success makes room for the next `need` bytes. -/
theorem writerEnsure_spec (need : Nat) {s : WriterState} (ok : s.Fits)
    (bound : s.writer.bytes.length + need < 2 ^ 62) :
    ∃ flag s', writerEnsure need s = some (flag, s') ∧ s'.Fits ∧
      s'.writer.bytes = s.writer.bytes ∧ (flag = false → s'.writer = s.writer) ∧
      (flag = true → s.writer.bytes.length + need ≤ s'.writer.capacity) ∧
      (HeapOk s → flag = true ∧ HeapOk s') := by
  rcases writerEnsure_cases need ok bound with ⟨room, kept⟩ | ⟨_, c, grown, below, moved⟩
  · have fits := ok.fits
    exact ⟨true, s, kept, ok, rfl, fun _ => rfl, fun _ => by omega, fun heap => ⟨rfl, heap⟩⟩
  · have reaches := grown.reaches
    rcases realloc_cases s c with ⟨failed, dry⟩ | grew
    · rw [failed] at moved
      exact ⟨_, _, moved, ⟨ok.fits, ok.size⟩, rfl, fun _ => rfl, by simp,
        fun heap => absurd heap dry⟩
    · rw [grew] at moved
      exact ⟨_, _, moved, ⟨by simp only; omega, below⟩, rfl, by simp, fun _ => reaches,
        fun heap => ⟨rfl, fun o mem => heap o (List.mem_of_mem_tail mem)⟩⟩

theorem writerAppend_spec (data : List UInt8) {s : WriterState} (ok : s.Fits)
    (bound : s.writer.bytes.length + data.length < 2 ^ 62) :
    ∃ flag s', writerAppend data s = some (flag, s') ∧ s'.Fits ∧
      (flag = false → s'.writer = s.writer) ∧
      (flag = true → s'.writer.bytes = s.writer.bytes ++ data) ∧
      (HeapOk s → flag = true ∧ HeapOk s') := by
  obtain ⟨flag, s', ensured, ok', same, kept, room, heap⟩ := writerEnsure_spec data.length ok bound
  cases flag with
  | false =>
    refine ⟨false, s', ?_, ok', kept, by simp, heap⟩
    simp only [writerAppend, WriterOp.andThen, ensured]
  | true =>
    have inside : s'.writer.bytes.length + data.length ≤ s'.writer.capacity := by
      rw [same]
      exact room rfl
    refine ⟨true, { s' with writer := { s'.writer with bytes := s'.writer.bytes ++ data } }, ?_,
      ⟨by simpa using inside, ok'.size⟩, by simp, fun _ => by rw [same], fun h => ⟨rfl, (heap h).2⟩⟩
    simp only [writerAppend, WriterOp.andThen, ensured, memcpy]
    rw [if_pos inside]

def fields (b : Block) : List (List UInt8) :=
  [[msgpackFixmap3], [0x00], int32Bytes b.devno.toInt, [0x01], int64Bytes b.offset.toInt, [0x02],
    binHeader b.data.length, b.data]

def appendAll : List (List UInt8) → WriterOp
  | [] => fun s => some (true, s)
  | chunk :: chunks => (writerAppend chunk).andThen (appendAll chunks)

theorem andThen_true (op : WriterOp) : op.andThen (fun s => some (true, s)) = op := by
  funext s
  unfold WriterOp.andThen
  cases op s with
  | none => rfl
  | some r =>
    obtain ⟨flag, s'⟩ := r
    cases flag <;> rfl

theorem encodeFields_eq (b : Block) : encodeFields b = appendAll (fields b) := by
  simp only [encodeFields, fields, appendAll, msgpackWriteInt32, msgpackWriteInt64,
    msgpackWriteBin, andThen_true]

theorem blockBytes_eq (b : Block) : blockBytes b = (fields b).flatten := by
  simp only [blockBytes, fields, List.flatten_cons, List.flatten_nil, List.append_nil]

theorem andThen_eq_true {first next : WriterOp} {s s' : WriterState} :
    (first.andThen next) s = some (true, s') ↔
      ∃ m, first s = some (true, m) ∧ next m = some (true, s') := by
  unfold WriterOp.andThen
  cases first s with
  | none => simp
  | some r =>
    obtain ⟨flag, m⟩ := r
    cases flag <;> simp

theorem writerAppend_bytes {data : List UInt8} {s s' : WriterState}
    (h : writerAppend data s = some (true, s')) : s'.writer.bytes = s.writer.bytes ++ data := by
  obtain ⟨m, ensured, copied⟩ := andThen_eq_true.mp h
  have same : m.writer.bytes = s.writer.bytes := by
    simp only [writerEnsure] at ensured
    split at ensured
    · cases ensured
      rfl
    · split at ensured
      · cases ensured
      · rw [← realloc_bytes s, Option.some.inj ensured]
  unfold memcpy at copied
  split at copied
  · cases copied
    simp only [same]
  · cases copied

theorem appendAll_bytes {chunks : List (List UInt8)} {s s' : WriterState}
    (h : appendAll chunks s = some (true, s')) :
    s'.writer.bytes = s.writer.bytes ++ chunks.flatten := by
  induction chunks generalizing s with
  | nil =>
    cases h
    simp
  | cons chunk chunks ih =>
    obtain ⟨m, first, rest⟩ := andThen_eq_true.mp h
    rw [ih rest, writerAppend_bytes first, List.flatten_cons, List.append_assoc]

theorem msgpackEncodeBlock_bytes {b : Block} {s s' : WriterState}
    (h : msgpackEncodeBlock b s = some (true, s')) : s'.writer.bytes = blockBytes b := by
  rw [msgpackEncodeBlock, encodeFields_eq] at h
  rw [appendAll_bytes h, blockBytes_eq]
  rfl

theorem Appends.andThen {first next : WriterOp} {a b : List UInt8}
    (hf : Appends first a) (hn : Appends next b) : Appends (first.andThen next) (a ++ b) := by
  intro s ok bound
  rw [List.length_append] at bound
  obtain ⟨s₁, run₁, bytes₁, ok₁⟩ := hf s ok (by omega)
  obtain ⟨s₂, run₂, bytes₂, ok₂⟩ := hn s₁ ok₁ (by rw [bytes₁, List.length_append]; omega)
  refine ⟨s₂, ?_, ?_, ok₂⟩
  · simp only [WriterOp.andThen, run₁, run₂]
  · rw [bytes₂, bytes₁, List.append_assoc]

theorem writerAppend_appends (data : List UInt8) : Appends (writerAppend data) data := by
  intro s ok bound
  obtain ⟨flag, s', run, ok', -, bytes, heap⟩ := writerAppend_spec data ⟨ok.fits, ok.size⟩ bound
  obtain ⟨rfl, heap'⟩ := heap ok.heap
  exact ⟨s', run, bytes rfl, heap', ok'.fits, ok'.size⟩

theorem appendAll_appends (chunks : List (List UInt8)) :
    Appends (appendAll chunks) chunks.flatten := by
  induction chunks with
  | nil => exact fun s ok _ => ⟨s, rfl, by simp, ok⟩
  | cons chunk chunks ih => exact (writerAppend_appends chunk).andThen ih

theorem encodeFields_appends (b : Block) : Appends (encodeFields b) (blockBytes b) := by
  rw [encodeFields_eq, blockBytes_eq]
  exact appendAll_appends (fields b)

theorem int32Bytes_length_le (val : Int) : (int32Bytes val).length ≤ 5 := by
  unfold int32Bytes
  split_ifs <;> simp

theorem binHeader_length_le (len : Nat) : (binHeader len).length ≤ 5 := by
  unfold binHeader
  split_ifs <;> simp

theorem blockBytes_length_le (b : Block) : (blockBytes b).length ≤ b.data.length + 23 := by
  have devno := int32Bytes_length_le b.devno.toInt
  have header := binHeader_length_le b.data.length
  simp only [blockBytes, int64Bytes, List.length_append, List.length_cons, List.length_nil,
    signedBytes_length]
  omega

theorem msgpackEncodeBlock_spec (b : Block) {s : WriterState} (heap : HeapOk s)
    (size : s.writer.capacity < sizeWrap) (len : b.data.length < 2 ^ 32) :
    ∃ s', msgpackEncodeBlock b s = some (true, s') ∧ s'.writer.bytes = blockBytes b ∧ s'.Ok := by
  have ok : (writerReset s).Ok := ⟨heap, Nat.zero_le _, size⟩
  have bound : (writerReset s).writer.bytes.length + (blockBytes b).length < 2 ^ 62 := by
    have total := blockBytes_length_le b
    simp only [writerReset, List.length_nil]
    omega
  obtain ⟨s', run, bytes, ok'⟩ := encodeFields_appends b _ ok bound
  exact ⟨s', run, bytes, ok'⟩

end Go2Cloud.Msgpack
