import Go2Cloud.Server.Decoder
import Go2Cloud.Server.BlockWriter
import Go2Cloud.Lib.Readers

/-! What msgpack_decode_block accepts (server/protocol_decoder.c), with the positions
the source computes, and the disk that a decoded block goes to. -/
namespace Go2Cloud.Grammar
open Bytes Protocol Decoder Readers BlockWriter

structure Parsed where
  devno : Int32
  offset : Int64
  data : Nat
  len : Nat
  deriving DecidableEq, Repr

-- `if (pos >= buf_len || buf[pos] != key) return -1; pos++;`
def expectAt (key : UInt8) : Reader DecodeErr UInt8 Unit := fun buf pos =>
  if pos ≥ buf.length then .error .malformed
  else do
    let b ← byteAt buf pos
    if b ≠ key then .error .malformed else .ok ((), pos + 1)

-- `n = msgpack_read_int(buf + pos, buf_len - pos, ..); if (n <= 0) return -1; pos += n;`
def readIntAt : Reader DecodeErr UInt8 Int := fun buf pos => do
  let (v, n) ← msgpackReadInt (buf.drop pos)
  .ok (v, pos + n)

-- `if (pos + (width - 1) >= buf_len) return -1;` and the big-endian length
def lengthAt (width : Nat) : Reader DecodeErr UInt8 Nat := fun buf pos =>
  if pos + (width - 1) ≥ buf.length then .error .malformed
  else do
    let bytes ← bytesAt buf pos width
    .ok (beValue bytes, pos + width)

def binLengthAt (tag : UInt8) : Reader DecodeErr UInt8 Nat :=
  if tag = msgpackBin8 then lengthAt 1
  else if tag = msgpackBin16 then lengthAt 2
  else if tag = msgpackBin32 then lengthAt 4
  else fun _ _ => .error .malformed

def tagAt : Reader DecodeErr UInt8 UInt8 := fun buf pos =>
  if pos ≥ buf.length then .error .malformed
  else do
    let tag ← byteAt buf pos
    .ok (tag, pos + 1)

def msgpackDecodeBlock (buf : List UInt8) : Except DecodeErr Parsed := do
  let (_, pos) ← expectAt msgpackFixmap3 buf 0
  let (_, pos) ← expectAt 0x00 buf pos
  let (devno, pos) ← readIntAt buf pos
  let (_, pos) ← expectAt 0x01 buf pos
  let (offset, pos) ← readIntAt buf pos
  let (_, pos) ← expectAt 0x02 buf pos
  let (tag, pos) ← tagAt buf pos
  let (len, pos) ← binLengthAt tag buf pos
  if pos + len > buf.length then .error .malformed
  else .ok ⟨Int32.ofInt devno, Int64.ofInt offset, pos, len⟩

inductive IntForm : List UInt8 → Int → Prop where
  | positiveFixint (tag : UInt8) (range : tag ≤ 0x7f) : IntForm [tag] tag.toNat
  | negativeFixint (tag : UInt8) (range : tag ≥ 0xe0) : IntForm [tag] (signedValue [tag])
  | int8 (bytes : List UInt8) (width : bytes.length = 1) :
    IntForm (msgpackInt8 :: bytes) (signedValue bytes)
  | int16 (bytes : List UInt8) (width : bytes.length = 2) :
    IntForm (msgpackInt16 :: bytes) (signedValue bytes)
  | int32 (bytes : List UInt8) (width : bytes.length = 4) :
    IntForm (msgpackInt32 :: bytes) (signedValue bytes)
  | int64 (bytes : List UInt8) (width : bytes.length = 8) :
    IntForm (msgpackInt64 :: bytes) (signedValue bytes)

inductive BinForm : List UInt8 → Nat → Prop where
  | bin8 (bytes : List UInt8) (width : bytes.length = 1) :
    BinForm (msgpackBin8 :: bytes) (beValue bytes)
  | bin16 (bytes : List UInt8) (width : bytes.length = 2) :
    BinForm (msgpackBin16 :: bytes) (beValue bytes)
  | bin32 (bytes : List UInt8) (width : bytes.length = 4) :
    BinForm (msgpackBin32 :: bytes) (beValue bytes)

theorem readSigned_cons (tag : UInt8) (rest : List UInt8) (width : Nat) :
    readSigned (tag :: rest) width =
      if rest.length < width then .error .malformed
      else .ok (signedValue (rest.take width), width + 1) := by
  by_cases short : rest.length < width
  · simp [readSigned, short]
  · have inside : 1 + width ≤ (tag :: rest).length := by
      rw [List.length_cons]
      omega
    rw [readSigned, if_neg (by simpa using short), if_neg short, bytesAt, if_pos inside]
    rfl

theorem readSigned_ok {tag : UInt8} {rest : List UInt8} {width n : Nat} {v : Int}
    (h : readSigned (tag :: rest) width = .ok (v, n)) :
    ∃ bytes tail, rest = bytes ++ tail ∧ bytes.length = width ∧ v = signedValue bytes ∧
      n = width + 1 := by
  rw [readSigned_cons] at h
  split at h
  · cases h
  · cases h
    exact ⟨rest.take width, rest.drop width, (List.take_append_drop _ _).symm,
      by rw [List.length_take]; omega, rfl, rfl⟩

theorem readSigned_append (tag : UInt8) {bytes : List UInt8} {width : Nat} (len : bytes.length = width)
    (tail : List UInt8) :
    readSigned (tag :: bytes ++ tail) width = .ok (signedValue bytes, (tag :: bytes).length) := by
  rw [List.cons_append, readSigned_cons, if_neg (by rw [List.length_append]; omega),
    List.take_left' len, List.length_cons, len]

theorem msgpackReadInt_cons (tag : UInt8) (rest : List UInt8) :
    msgpackReadInt (tag :: rest) =
      if tag ≤ 0x7f then .ok (tag.toNat, 1)
      else if tag ≥ 0xe0 then .ok (signedValue [tag], 1)
      else if tag = msgpackInt8 then readSigned (tag :: rest) 1
      else if tag = msgpackInt16 then readSigned (tag :: rest) 2
      else if tag = msgpackInt32 then readSigned (tag :: rest) 4
      else if tag = msgpackInt64 then readSigned (tag :: rest) 8
      else .error .malformed := by
  simp [msgpackReadInt, bind, Except.bind]

theorem msgpackReadInt_ok_iff {rest : List UInt8} {v : Int} {n : Nat} :
    msgpackReadInt rest = .ok (v, n) ↔
      ∃ b tail, rest = b ++ tail ∧ IntForm b v ∧ n = b.length := by
  constructor
  · intro h
    cases rest with
    | nil => cases h
    | cons tag rest =>
      rw [msgpackReadInt_cons] at h
      have sized {width : Nat} (form : ∀ bytes, bytes.length = width → IntForm (tag :: bytes) (signedValue bytes))
          (h : readSigned (tag :: rest) width = .ok (v, n)) :
          ∃ b tail, tag :: rest = b ++ tail ∧ IntForm b v ∧ n = b.length := by
        obtain ⟨bytes, tail, rfl, len, rfl, rfl⟩ := readSigned_ok h
        exact ⟨tag :: bytes, tail, rfl, form bytes len, by rw [List.length_cons, len]⟩
      split_ifs at h with positive negative int8 int16 int32 int64
      · cases h
        exact ⟨[tag], rest, rfl, .positiveFixint tag positive, rfl⟩
      · cases h
        exact ⟨[tag], rest, rfl, .negativeFixint tag negative, rfl⟩
      · exact sized (int8 ▸ IntForm.int8) h
      · exact sized (int16 ▸ IntForm.int16) h
      · exact sized (int32 ▸ IntForm.int32) h
      · exact sized (int64 ▸ IntForm.int64) h
  · rintro ⟨b, tail, rfl, form, rfl⟩
    cases form with
    | positiveFixint tag range => rw [List.singleton_append, msgpackReadInt_cons, if_pos range]; rfl
    | negativeFixint tag range =>
      have not_positive : ¬ tag ≤ 0x7f := fun low => absurd (UInt8.le_trans range low) (by decide)
      rw [List.singleton_append, msgpackReadInt_cons, if_neg not_positive, if_pos range]
      rfl
    | int8 bytes width => exact readSigned_append msgpackInt8 width tail
    | int16 bytes width => exact readSigned_append msgpackInt16 width tail
    | int32 bytes width => exact readSigned_append msgpackInt32 width tail
    | int64 bytes width => exact readSigned_append msgpackInt64 width tail

theorem readIntAt_exact : Exact readIntAt IntForm := by
  intro pre rest v pos
  rw [readIntAt, List.drop_left, Readers.bind_eq_ok]
  constructor
  · rintro ⟨⟨v', n⟩, read, same⟩
    cases same
    obtain ⟨b, tail, split, form, rfl⟩ := msgpackReadInt_ok_iff.mp read
    exact ⟨b, tail, split, form, rfl⟩
  · rintro ⟨b, tail, split, form, rfl⟩
    exact ⟨(v, b.length), msgpackReadInt_ok_iff.mpr ⟨b, tail, split, form, rfl⟩, rfl⟩

theorem byteAt_append (pre : List UInt8) (b : UInt8) (tail : List UInt8) :
    byteAt (pre ++ b :: tail) pre.length = .ok b := by
  simp [byteAt]

theorem tagAt_exact : Exact tagAt fun b tag => b = [tag] := by
  intro pre rest tag pos
  cases rest with
  | nil => simp [tagAt]
  | cons b tail =>
    have inside : ¬ pre.length ≥ (pre ++ b :: tail).length := by simp
    rw [tagAt, if_neg inside, byteAt_append]
    simp only [bind, Except.bind, Except.ok.injEq, Prod.mk.injEq]
    constructor
    · rintro ⟨rfl, rfl⟩
      exact ⟨[b], tail, rfl, rfl, rfl⟩
    · rintro ⟨_, tail', split, rfl, rfl⟩
      exact ⟨(List.cons.inj split).1, rfl⟩

theorem expectAt_exact (key : UInt8) : Exact (expectAt key) fun b _ => b = [key] := by
  intro pre rest _ pos
  cases rest with
  | nil => simp [expectAt]
  | cons b tail =>
    have inside : ¬ pre.length ≥ (pre ++ b :: tail).length := by simp
    rw [expectAt, if_neg inside, byteAt_append]
    simp only [bind, Except.bind]
    constructor
    · intro h
      split at h
      · cases h
      next same =>
        cases h
        exact ⟨[b], tail, rfl, by rw [not_not.mp same], rfl⟩
    · rintro ⟨_, tail', split, rfl, rfl⟩
      rw [if_neg (not_not.mpr (List.cons.inj split).1)]
      rfl

theorem lengthAt_exact {width : Nat} (nonempty : 0 < width) :
    Exact (lengthAt width) fun b n => b.length = width ∧ n = beValue b := by
  intro pre rest n pos
  by_cases short : rest.length < width
  · have outside : pre.length + (width - 1) ≥ (pre ++ rest).length := by
      rw [List.length_append]
      omega
    rw [lengthAt, if_pos outside]
    refine iff_of_false (by simp) ?_
    rintro ⟨b, tail, rfl, ⟨len, -⟩, -⟩
    rw [List.length_append] at short
    omega
  · have inside : ¬ pre.length + (width - 1) ≥ (pre ++ rest).length := by
      rw [List.length_append]
      omega
    have read : bytesAt (pre ++ rest) pre.length width = .ok (rest.take width) := by
      rw [bytesAt, if_pos (by rw [List.length_append]; omega), List.drop_left]
    rw [lengthAt, if_neg inside, read]
    simp only [bind, Except.bind, Except.ok.injEq, Prod.mk.injEq]
    constructor
    · rintro ⟨rfl, rfl⟩
      have taken : (rest.take width).length = width := by
        rw [List.length_take]
        omega
      exact ⟨rest.take width, rest.drop width, (List.take_append_drop _ _).symm, ⟨taken, rfl⟩,
        by rw [taken]⟩
    · rintro ⟨b, tail, rfl, ⟨len, rfl⟩, rfl⟩
      rw [List.take_left' len, len]
      exact ⟨rfl, rfl⟩

theorem binForm_cons {tag : UInt8} {b : List UInt8} {n : Nat} :
    BinForm (tag :: b) n ↔
      (tag = msgpackBin8 ∧ b.length = 1 ∨ tag = msgpackBin16 ∧ b.length = 2 ∨
        tag = msgpackBin32 ∧ b.length = 4) ∧ n = beValue b := by
  constructor
  · intro form
    cases form with
    | bin8 _ width => exact ⟨.inl ⟨rfl, width⟩, rfl⟩
    | bin16 _ width => exact ⟨.inr (.inl ⟨rfl, width⟩), rfl⟩
    | bin32 _ width => exact ⟨.inr (.inr ⟨rfl, width⟩), rfl⟩
  · rintro ⟨⟨rfl, width⟩ | ⟨rfl, width⟩ | ⟨rfl, width⟩, rfl⟩
    · exact .bin8 b width
    · exact .bin16 b width
    · exact .bin32 b width

theorem binLengthAt_exact (tag : UInt8) :
    Exact (binLengthAt tag) fun b n => BinForm (tag :: b) n := by
  unfold binLengthAt
  split_ifs with bin8 bin16 bin32
  · refine (lengthAt_exact (by decide)).congr fun b n => ?_
    rw [binForm_cons, bin8]
    simp [msgpackBin8, msgpackBin16, msgpackBin32]
  · refine (lengthAt_exact (by decide)).congr fun b n => ?_
    rw [binForm_cons, bin16]
    simp [msgpackBin8, msgpackBin16, msgpackBin32]
  · refine (lengthAt_exact (by decide)).congr fun b n => ?_
    rw [binForm_cons, bin32]
    simp [msgpackBin8, msgpackBin16, msgpackBin32]
  · intro pre rest n pos
    simp [binForm_cons, bin8, bin16, bin32]

def headAt : Reader DecodeErr UInt8 (Int × Int × Nat) :=
  (expectAt msgpackFixmap3).andThen fun _ => (expectAt 0x00).andThen fun _ =>
    readIntAt.andThen fun devno => (expectAt 0x01).andThen fun _ =>
      readIntAt.andThen fun offset => (expectAt 0x02).andThen fun _ =>
        tagAt.andThen fun tag => (binLengthAt tag).andThen fun len => .give (devno, offset, len)

theorem msgpackDecodeBlock_eq (buf : List UInt8) :
    msgpackDecodeBlock buf = headAt buf 0 >>= fun ((devno, offset, len), pos) =>
      if pos + len > buf.length then .error .malformed
      else .ok ⟨Int32.ofInt devno, Int64.ofInt offset, pos, len⟩ := by
  simp only [msgpackDecodeBlock, headAt, Reader.andThen, Reader.give, bind_assoc]
  rfl

def Head (b : List UInt8) (head : Int × Int × Nat) : Prop :=
  ∃ devnoBytes offsetBytes header,
    b = [msgpackFixmap3, 0x00] ++ devnoBytes ++ [0x01] ++ offsetBytes ++ [0x02] ++ header ∧
    IntForm devnoBytes head.1 ∧ IntForm offsetBytes head.2.1 ∧ BinForm header head.2.2

theorem headAt_exact : Exact headAt Head := by
  unfold headAt
  refine Exact.congr ((expectAt_exact _).andThen fun _ => (expectAt_exact _).andThen fun _ =>
    readIntAt_exact.andThen fun devno => (expectAt_exact _).andThen fun _ =>
      readIntAt_exact.andThen fun offset => (expectAt_exact _).andThen fun _ =>
        tagAt_exact.andThen fun tag => (binLengthAt_exact tag).andThen fun len =>
          exact_give (devno, offset, len)) fun b ⟨devno, offset, len⟩ => ?_
  constructor
  · rintro ⟨_, _, _, rfl, rfl, _, _, _, rfl, rfl, devnoBytes, _, _, rfl, devno_form, _, _, _, rfl, rfl,
      offsetBytes, _, _, rfl, offset_form, _, _, _, rfl, rfl, _, tag, _, rfl, rfl,
      lengthBytes, _, _, rfl, bin_form, rfl, same⟩
    cases same
    refine ⟨devnoBytes, offsetBytes, tag :: lengthBytes, ?_, devno_form, offset_form, bin_form⟩
    simp
  · rintro ⟨devnoBytes, offsetBytes, header, rfl, devno_form, offset_form, bin_form⟩
    obtain ⟨tag, lengthBytes, rfl⟩ : ∃ tag lengthBytes, header = tag :: lengthBytes := by
      cases bin_form <;> exact ⟨_, _, rfl⟩
    refine ⟨_, (), _, ?_, rfl, _, (), _, rfl, rfl, devnoBytes, devno, _, rfl, devno_form, _, (), _, rfl,
      rfl, offsetBytes, offset, _, rfl, offset_form, _, (), _, rfl, rfl, _, tag, _, rfl, rfl,
      lengthBytes, len, _, rfl, bin_form, rfl, rfl⟩
    simp

/-- A buffer that begins with `0x93 00 I1 01 I2 02 B`, cut into its parts. -/
structure Parse (buf : List UInt8) where
  devno : Int
  offset : Int
  devnoBytes : List UInt8
  offsetBytes : List UInt8
  header : List UInt8
  data : List UInt8
  rest : List UInt8
  devno_form : IntForm devnoBytes devno
  offset_form : IntForm offsetBytes offset
  header_form : BinForm header data.length
  split : buf = [msgpackFixmap3, 0x00] ++ devnoBytes ++ [0x01] ++ offsetBytes ++ [0x02] ++ header ++
    data ++ rest

def Parse.dataPos {buf : List UInt8} (p : Parse buf) : Nat :=
  ([msgpackFixmap3, 0x00] ++ p.devnoBytes ++ [0x01] ++ p.offsetBytes ++ [0x02] ++ p.header).length

theorem Parse.slice {buf : List UInt8} (p : Parse buf) :
    (buf.drop p.dataPos).take p.data.length = p.data := by
  have split := p.split
  rw [List.append_assoc _ p.data p.rest] at split
  have behind : buf.drop p.dataPos = p.data ++ p.rest :=
    (congrArg (List.drop p.dataPos) split).trans List.drop_left
  rw [behind, List.take_left]

/-- The parser succeeds just on the buffers that have a parse, and gives its parts. -/
theorem msgpackDecodeBlock_ok_iff {buf : List UInt8} {r : Parsed} :
    msgpackDecodeBlock buf = .ok r ↔
      ∃ p : Parse buf, r = ⟨Int32.ofInt p.devno, Int64.ofInt p.offset, p.dataPos, p.data.length⟩ := by
  have head := headAt_exact [] buf
  rw [List.nil_append, List.length_nil] at head
  rw [msgpackDecodeBlock_eq, Readers.bind_eq_ok]
  constructor
  · rintro ⟨⟨⟨devno, offset, len⟩, pos⟩, read, done⟩
    obtain ⟨_, tail, split, ⟨devnoBytes, offsetBytes, header, rfl, devno_form, offset_form, bin_form⟩, rfl⟩ :=
      (head _ _).mp read
    simp only at done
    split at done
    · cases done
    next inside =>
      have total := congrArg List.length split
      rw [List.length_append] at total
      have taken : (tail.take len).length = len := by
        rw [List.length_take]
        omega
      cases done
      refine ⟨⟨devno, offset, devnoBytes, offsetBytes, header, tail.take len, tail.drop len, devno_form,
        offset_form, by rw [taken]; exact bin_form, ?_⟩, ?_⟩
      · rw [split, List.append_assoc _ (tail.take len), List.take_append_drop]
      · simp only [Parse.dataPos, taken, Nat.zero_add]
  · rintro ⟨p, rfl⟩
    refine ⟨((p.devno, p.offset, p.data.length), p.dataPos), (head _ _).mpr ⟨_, p.data ++ p.rest, ?_,
      ⟨p.devnoBytes, p.offsetBytes, p.header, rfl, p.devno_form, p.offset_form, p.header_form⟩, ?_⟩, ?_⟩
    · rw [← List.append_assoc]
      exact p.split
    · rw [Parse.dataPos, Nat.zero_add]
    · have inside : ¬ p.dataPos + p.data.length > buf.length := by
        have length := congrArg List.length p.split
        rw [List.length_append, List.length_append] at length
        rw [Parse.dataPos]
        omega
      simp only [if_neg inside]

/-! No read is past the end: each is behind a length test of its own. -/

theorem byteAt_inside {buf : List UInt8} {pos : Nat} (inside : pos < buf.length) :
    ∃ b, byteAt buf pos = .ok b := by
  rw [byteAt, List.getElem?_eq_getElem inside]
  exact ⟨_, rfl⟩

theorem msgpackReadInt_fails {rest : List UInt8} {e : DecodeErr} (h : msgpackReadInt rest = .error e) :
    e = .malformed := by
  cases rest with
  | nil =>
    cases h
    rfl
  | cons tag rest =>
    simp only [msgpackReadInt_cons, readSigned_cons] at h
    split_ifs at h <;> cases h
    all_goals rfl

theorem readIntAt_fails : FailsOnly readIntAt .malformed := by
  intro buf pos e failed
  rw [readIntAt] at failed
  cases read : msgpackReadInt (buf.drop pos) with
  | error e' =>
    rw [read] at failed
    cases failed
    exact msgpackReadInt_fails read
  | ok r =>
    rw [read] at failed
    cases failed

theorem tagAt_fails : FailsOnly tagAt .malformed := by
  intro buf pos e failed
  rw [tagAt] at failed
  split at failed
  · cases failed
    rfl
  next inside =>
    obtain ⟨b, read⟩ := byteAt_inside (Nat.lt_of_not_ge inside)
    rw [read] at failed
    cases failed

theorem expectAt_fails (key : UInt8) : FailsOnly (expectAt key) .malformed := by
  intro buf pos e failed
  rw [expectAt] at failed
  split at failed
  · cases failed
    rfl
  next inside =>
    obtain ⟨b, read⟩ := byteAt_inside (Nat.lt_of_not_ge inside)
    rw [read] at failed
    simp only [bind, Except.bind] at failed
    split at failed
    · cases failed
      rfl
    · cases failed

theorem lengthAt_fails {width : Nat} (nonempty : 0 < width) : FailsOnly (lengthAt width) .malformed := by
  intro buf pos e failed
  rw [lengthAt] at failed
  split at failed
  · cases failed
    rfl
  · rw [bytesAt, if_pos (by omega)] at failed
    cases failed

theorem binLengthAt_fails (tag : UInt8) : FailsOnly (binLengthAt tag) .malformed := by
  unfold binLengthAt
  split_ifs
  · exact lengthAt_fails (by decide)
  · exact lengthAt_fails (by decide)
  · exact lengthAt_fails (by decide)
  · intro buf pos e failed
    cases failed
    rfl

theorem headAt_fails : FailsOnly headAt .malformed :=
  (expectAt_fails _).andThen fun _ => (expectAt_fails _).andThen fun _ =>
    readIntAt_fails.andThen fun _ => (expectAt_fails _).andThen fun _ =>
      readIntAt_fails.andThen fun _ => (expectAt_fails _).andThen fun _ =>
        tagAt_fails.andThen fun tag => (binLengthAt_fails tag).andThen fun _ _ _ _ failed => by
          cases failed

theorem msgpackDecodeBlock_fails {buf : List UInt8} {e : DecodeErr}
    (failed : msgpackDecodeBlock buf = .error e) : e = .malformed := by
  rw [msgpackDecodeBlock_eq] at failed
  cases read : headAt buf 0 with
  | error e' =>
    rw [read] at failed
    cases failed
    exact headAt_fails buf 0 _ read
  | ok r =>
    rw [read] at failed
    simp only [bind, Except.bind] at failed
    split at failed
    · cases failed
      rfl
    · cases failed

theorem signedValue_fits {bytes : List UInt8} (short : bytes.length ≤ 8) :
    -2 ^ 63 ≤ signedValue bytes ∧ signedValue bytes < 2 ^ 63 := by
  obtain ⟨low, high⟩ := signedValue_range bytes
  have widest : 256 ^ bytes.length ≤ 256 ^ 8 := Nat.pow_le_pow_right (by decide) short
  omega

theorem IntForm.range {b : List UInt8} {v : Int} (form : IntForm b v) : -2 ^ 63 ≤ v ∧ v < 2 ^ 63 := by
  cases form with
  | positiveFixint tag _ =>
    have small := tag.toNat_lt
    omega
  | negativeFixint tag _ => exact signedValue_fits (by simp)
  | int8 bytes width => exact signedValue_fits (by omega)
  | int16 bytes width => exact signedValue_fits (by omega)
  | int32 bytes width => exact signedValue_fits (by omega)
  | int64 bytes width => exact signedValue_fits (by omega)

/-- msgpack_decode_block returns 0 exactly on the buffers that begin with
`0x93 00 I1 01 I2 02 B`, and -1 on all others; it gives the value of `I2` and the place
of the data of `B`. -/
theorem parser_accepts_grammar (buf : List UInt8) :
    ((∃ r, msgpackDecodeBlock buf = .ok r) ↔ Nonempty (Parse buf)) ∧
    (msgpackDecodeBlock buf = .error .malformed ↔ ¬ Nonempty (Parse buf)) ∧
    ∀ (p : Parse buf) (r : Parsed), msgpackDecodeBlock buf = .ok r →
      r.offset.toInt = p.offset ∧ r.devno = Int32.ofInt p.devno ∧
      r.data = p.dataPos ∧ r.len = p.data.length ∧ (buf.drop r.data).take r.len = p.data := by
  have accepts : (∃ r, msgpackDecodeBlock buf = .ok r) ↔ Nonempty (Parse buf) := by
    constructor
    · rintro ⟨r, h⟩
      obtain ⟨p, -⟩ := msgpackDecodeBlock_ok_iff.mp h
      exact ⟨p⟩
    · rintro ⟨p⟩
      exact ⟨_, msgpackDecodeBlock_ok_iff.mpr ⟨p, rfl⟩⟩
  refine ⟨accepts, ?_, fun p r h => ?_⟩
  · rw [← accepts]
    cases parsed : msgpackDecodeBlock buf with
    | error e => simp [msgpackDecodeBlock_fails parsed]
    | ok r => simp
  · -- the result is determined by the buffer, so it is that of any parse
    have same := msgpackDecodeBlock_ok_iff.mpr ⟨p, rfl⟩
    obtain rfl := Except.ok.inj (h.symm.trans same)
    exact ⟨Int64.toInt_ofInt_of_le p.offset_form.range.1 p.offset_form.range.2, rfl, rfl, rfl, p.slice⟩

def Parsed.block (r : Parsed) (buf : List UInt8) : Block :=
  ⟨r.devno, r.offset, (buf.drop r.data).take r.len⟩

theorem byteAt_drop {buf : List UInt8} {pos : Nat} (inside : pos < buf.length) :
    (buf.drop pos).length ≠ 0 ∧
      ∃ b, byteAt (buf.drop pos) 0 = .ok b ∧ byteAt buf pos = .ok b := by
  have same : byteAt (buf.drop pos) 0 = byteAt buf pos := by simp [byteAt]
  obtain ⟨b, read⟩ := byteAt_inside inside
  refine ⟨?_, b, same.trans read, read⟩
  rw [List.length_drop]
  omega

theorem expectByte_drop (key : UInt8) (buf : List UInt8) (pos : Nat) :
    expectByte key (buf.drop pos) = (expectAt key buf pos).map fun r => buf.drop r.2 := by
  by_cases inside : pos < buf.length
  · obtain ⟨left, b, here, read⟩ := byteAt_drop inside
    rw [expectByte, if_neg left, expectAt, if_neg (Nat.not_le.mpr inside), here, read]
    simp only [bind, Except.bind]
    split
    · rfl
    · simp [Except.map]
  · have outside : pos ≥ buf.length := Nat.le_of_not_lt inside
    rw [expectAt, if_pos outside, List.drop_of_length_le outside]
    rfl

theorem readLength_drop {width : Nat} (nonempty : 0 < width) (buf : List UInt8) (pos : Nat) :
    readLength width (buf.drop pos) = (lengthAt width buf pos).map fun r => (r.1, buf.drop r.2) := by
  by_cases short : (buf.drop pos).length < width
  · have outside : pos + (width - 1) ≥ buf.length := by
      rw [List.length_drop] at short
      omega
    rw [readLength, if_pos short, lengthAt, if_pos outside]
    rfl
  · have inside : pos + width ≤ buf.length := by
      rw [List.length_drop] at short
      omega
    rw [readLength, if_neg short, lengthAt, if_neg (by omega), bytesAt, if_pos (by omega), bytesAt,
      if_pos inside, List.drop_zero, List.drop_drop]
    rfl

theorem readBinLength_drop (tag : UInt8) (buf : List UInt8) (pos : Nat) :
    readBinLength tag (buf.drop pos) = (binLengthAt tag buf pos).map fun r => (r.1, buf.drop r.2) := by
  unfold readBinLength binLengthAt
  split_ifs
  · exact readLength_drop (by decide) buf pos
  · exact readLength_drop (by decide) buf pos
  · exact readLength_drop (by decide) buf pos
  · rfl

theorem binLengthAt_le {tag : UInt8} {buf : List UInt8} {pos len pos' : Nat}
    (h : binLengthAt tag buf pos = .ok (len, pos')) : pos' ≤ buf.length := by
  have sized {width : Nat} (nonempty : 0 < width) (h : lengthAt width buf pos = .ok (len, pos')) :
      pos' ≤ buf.length := by
    rw [lengthAt] at h
    split at h
    · cases h
    · rw [bytesAt, if_pos (by omega)] at h
      cases h
      omega
  unfold binLengthAt at h
  split_ifs at h
  · exact sized (by decide) h
  · exact sized (by decide) h
  · exact sized (by decide) h

theorem readBin_drop (buf : List UInt8) (pos : Nat) :
    readBin (buf.drop pos) =
      (tagAt.andThen binLengthAt) buf pos >>= fun (len, pos) =>
        if pos + len > buf.length then .error .malformed
        else .ok ((buf.drop pos).take len) := by
  by_cases inside : pos < buf.length
  · obtain ⟨left, tag, here, read⟩ := byteAt_drop inside
    rw [readBin, if_neg left, Reader.andThen, tagAt, if_neg (Nat.not_le.mpr inside), here, read]
    simp only [bind, Except.bind, List.drop_drop, readBinLength_drop]
    cases length : binLengthAt tag buf (pos + 1) with
    | error e => rfl
    | ok r =>
      have le := binLengthAt_le length
      simp only [Except.map, List.length_drop]
      by_cases long : r.2 + r.1 > buf.length
      · rw [if_pos long, if_pos (by omega)]
      · rw [if_neg long, if_neg (by omega), bytesAt, List.length_drop, if_pos (by omega), List.drop_zero]
  · have outside : pos ≥ buf.length := Nat.le_of_not_lt inside
    rw [Reader.andThen, tagAt, if_pos outside, List.drop_of_length_le outside]
    rfl

theorem decoder_msgpackDecodeBlock (buf : List UInt8) :
    Decoder.msgpackDecodeBlock buf = (msgpackDecodeBlock buf).map fun r => r.block buf := by
  have first := expectByte_drop msgpackFixmap3 buf 0
  rw [List.drop_zero] at first
  rw [Decoder.msgpackDecodeBlock, msgpackDecodeBlock, first]
  cases expectAt msgpackFixmap3 buf 0 with
  | error e => rfl
  | ok r =>
  simp only [Except.map, bind, Except.bind]
  rw [expectByte_drop]
  cases expectAt 0x00 buf r.2 with
  | error e => rfl
  | ok r =>
  simp only [Except.map, readIntAt, bind, Except.bind]
  cases msgpackReadInt (buf.drop r.2) with
  | error e => rfl
  | ok v =>
  simp only [List.drop_drop]
  rw [expectByte_drop]
  cases expectAt 0x01 buf (r.2 + v.2) with
  | error e => rfl
  | ok r =>
  simp only [Except.map]
  cases msgpackReadInt (buf.drop r.2) with
  | error e => rfl
  | ok v' =>
  simp only [List.drop_drop]
  rw [expectByte_drop]
  cases expectAt 0x02 buf (r.2 + v'.2) with
  | error e => rfl
  | ok r =>
  simp only [Except.map, readBin_drop, Reader.andThen, bind, Except.bind]
  cases tagAt buf r.2 with
  | error e => rfl
  | ok t =>
  simp only
  cases binLengthAt t.1 buf t.2 with
  | error e => rfl
  | ok l =>
  by_cases long : l.2 + l.1 > buf.length
  · simp only [if_pos long]
  · simp only [if_neg long, Parsed.block]

theorem int32_ofInt_toInt_iff (v : Int) :
    (Int32.ofInt v).toInt = v ↔ -2 ^ 31 ≤ v ∧ v < 2 ^ 31 := by
  constructor
  · intro same
    have low := (Int32.ofInt v).le_toInt
    have high := (Int32.ofInt v).toInt_lt
    omega
  · rintro ⟨low, high⟩
    exact Int32.toInt_ofInt_of_le low high

/-- A block that is written successfully is put on a disk, and whatever is put on a disk
is put on the registered disk with the number encoded for key 0 exactly if that number
fits an int32. -/
theorem written_disk_iff {buf : List UInt8} (p : Parse buf) {r : Parsed}
    (decoded : msgpackDecodeBlock buf = .ok r) (w : Writer) (io : DiskIo) :
    ((blockWriterWrite w io (r.block buf)).ok = true →
      ∃ i pos, .wrote i pos p.data ∈ (blockWriterWrite w io (r.block buf)).ops) ∧
    ∀ i pos bytes, .wrote i pos bytes ∈ (blockWriterWrite w io (r.block buf)).ops →
      ((w.disks i).registered = true ∧ (i.val : Int) = p.devno ↔
        -2 ^ 31 ≤ p.devno ∧ p.devno < 2 ^ 31) := by
  have same := msgpackDecodeBlock_ok_iff.mpr ⟨p, rfl⟩
  obtain rfl := Except.ok.inj (decoded.symm.trans same)
  constructor
  · intro ok
    obtain ⟨landed, spec⟩ := blockWriterWrite_spec w io (Parsed.block _ buf)
    obtain ⟨i, syncs, -, -, ops⟩ := spec.disk ok
    refine ⟨i, (Int64.ofInt p.offset).toInt.toNat, ?_⟩
    rw [ops]
    refine List.mem_cons.mpr (.inl ?_)
    simp only [Parsed.block, p.slice]
  · intro i pos bytes written
    obtain ⟨disk, registered, -⟩ := blockWriterWrite_wrote written
    have number : (Int32.ofInt p.devno).toInt = i.val := diskOf_val disk
    rw [and_iff_right registered, ← int32_ofInt_toInt_iff, number]

def farDevice (devno : Int) : List UInt8 :=
  -- one byte for offset 0, with a device number in the int64 form
  [msgpackFixmap3, 0x00, msgpackInt64] ++ signedBytes 8 devno ++ [0x01, 0x00, 0x02, msgpackBin8, 1, 0xaa]

def farDeviceParse (devno : Int) (low : -2 ^ 63 ≤ devno) (high : devno < 2 ^ 63) :
    Parse (farDevice devno) where
  devno := devno
  offset := 0
  devnoBytes := msgpackInt64 :: signedBytes 8 devno
  offsetBytes := [0x00]
  header := [msgpackBin8, 1]
  data := [0xaa]
  rest := []
  devno_form := by
    have form := IntForm.int64 (signedBytes 8 devno) (signedBytes_length 8 devno)
    rwa [signedValue_signedBytes 8 devno (by norm_num; omega) (by norm_num; omega)] at form
  offset_form := .positiveFixint 0x00 (by decide)
  header_form := .bin8 [1] rfl
  split := by simp [farDevice]

/-- Device 3, in the longest form. -/
theorem written_disk_three :
    ∃ r, msgpackDecodeBlock (farDevice 3) = .ok r ∧
      ∀ i pos bytes, .wrote i pos bytes ∈
        (blockWriterWrite blankWriter ⟨true, [], []⟩ (r.block (farDevice 3))).ops → i.val = 3 := by
  let p := farDeviceParse 3 (by decide) (by decide)
  have decoded := msgpackDecodeBlock_ok_iff.mpr ⟨p, rfl⟩
  refine ⟨_, decoded, fun i pos bytes written => ?_⟩
  have number := (((written_disk_iff p decoded blankWriter ⟨true, [], []⟩).2 i pos bytes written).mpr
    ⟨by decide, by decide⟩).2
  exact Int.ofNat.inj number

/-- The block of device 2^32 is written to disk 0. -/
theorem far_device_on_disk_zero :
    Nonempty { p : Parse (farDevice (2 ^ 32)) // p.devno = 2 ^ 32 } ∧
    ∃ r, msgpackDecodeBlock (farDevice (2 ^ 32)) = .ok r ∧
      (blockWriterWrite blankWriter ⟨true, [], []⟩ (r.block (farDevice (2 ^ 32)))).ok = true ∧
      .wrote 0 0 [0xaa] ∈
        (blockWriterWrite blankWriter ⟨true, [], []⟩ (r.block (farDevice (2 ^ 32)))).ops := by
  refine ⟨⟨farDeviceParse (2 ^ 32) (by decide) (by decide), rfl⟩, ?_⟩
  have decoded : msgpackDecodeBlock (farDevice (2 ^ 32)) = .ok ⟨0, 0, 16, 1⟩ := by decide +kernel
  refine ⟨_, decoded, ?_, ?_⟩
  · decide +kernel
  · decide +kernel

end Go2Cloud.Grammar
