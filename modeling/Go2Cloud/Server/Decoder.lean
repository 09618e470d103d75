import Go2Cloud.Client.Msgpack
import Go2Cloud.Client.Wire
import Go2Cloud.Lib.Incremental
import Go2Cloud.Lib.Readers

/-! The receiver's decoder (server/protocol_decoder.c) and the decode loop of
handle_session (server/main.c). A parse position is the rest of the buffer from
that position on; every read of the source goes through `byteAt` or `bytesAt`,
which keep a read past the end apart from the source's own error returns. -/
namespace Go2Cloud.Decoder
open Bytes Protocol Wire Msgpack Incremental
open Readers (bind_eq_ok)

inductive DecodeErr where
  | malformed
  | outOfBounds
  deriving DecidableEq, Repr

def byteAt (buf : List UInt8) (i : Nat) : Except DecodeErr UInt8 :=
  match buf[i]? with
  | some b => .ok b
  | none => .error .outOfBounds

def bytesAt (buf : List UInt8) (i n : Nat) : Except DecodeErr (List UInt8) :=
  if i + n ≤ buf.length then .ok ((buf.drop i).take n) else .error .outOfBounds

def readSigned (buf : List UInt8) (width : Nat) : Except DecodeErr (Int × Nat) :=
  -- one of the int8/int16/int32/int64 cases, `width` bytes after the tag
  if buf.length < width + 1 then .error .malformed
  else do
    let bytes ← bytesAt buf 1 width
    .ok (signedValue bytes, width + 1)

def msgpackReadInt (buf : List UInt8) : Except DecodeErr (Int × Nat) :=
  -- the value read and the number of bytes it took
  if buf.length < 1 then .error .malformed
  else do
    let tag ← byteAt buf 0
    if tag ≤ 0x7f then .ok (tag.toNat, 1)
    else if tag ≥ 0xe0 then .ok (signedValue [tag], 1)
    else if tag = msgpackInt8 then readSigned buf 1
    else if tag = msgpackInt16 then readSigned buf 2
    else if tag = msgpackInt32 then readSigned buf 4
    else if tag = msgpackInt64 then readSigned buf 8
    else .error .malformed

def expectByte (key : UInt8) (rest : List UInt8) : Except DecodeErr (List UInt8) :=
  -- `if (pos >= buf_len || buf[pos] != key) return -1; pos++;`
  if rest.length = 0 then .error .malformed
  else do
    let b ← byteAt rest 0
    if b ≠ key then .error .malformed else .ok (rest.drop 1)

def readLength (width : Nat) (rest : List UInt8) : Except DecodeErr (Nat × List UInt8) :=
  -- a big-endian length of `width` bytes and what follows it
  if rest.length < width then .error .malformed
  else do
    let bytes ← bytesAt rest 0 width
    .ok (beValue bytes, rest.drop width)

def readBinLength (tag : UInt8) (rest : List UInt8) : Except DecodeErr (Nat × List UInt8) :=
  if tag = msgpackBin8 then readLength 1 rest
  else if tag = msgpackBin16 then readLength 2 rest
  else if tag = msgpackBin32 then readLength 4 rest
  else .error .malformed

def readBin (rest : List UInt8) : Except DecodeErr (List UInt8) :=
  if rest.length = 0 then .error .malformed
  else do
    let tag ← byteAt rest 0
    let (len, body) ← readBinLength tag (rest.drop 1)
    if len > body.length then .error .malformed else bytesAt body 0 len

def msgpackDecodeBlock (buf : List UInt8) : Except DecodeErr Block := do
  let rest ← expectByte msgpackFixmap3 buf
  let rest ← expectByte 0x00 rest
  let (devno, n) ← msgpackReadInt rest
  let rest ← expectByte 0x01 (rest.drop n)
  let (offset, n) ← msgpackReadInt rest
  let rest ← expectByte 0x02 (rest.drop n)
  let data ← readBin rest
  -- out_devno is int32_t: a wider integer is truncated
  .ok ⟨Int32.ofInt devno, Int64.ofInt offset, data⟩

def recvBufSize : Nat := 4 * 1024 * 1024
def maxFrameLen : Nat := 100 * 1024 * 1024

def decodeData (z : Zstd) (zstdData : List UInt8) : Except DecodeErr Block :=
  -- a data frame behind its magic: decompressed into out->data, then decoded
  if zstdData.length = 0 then .error .malformed
  else
    match z.frameContentSize zstdData with
    | .error => .error .malformed
    | .unknown => .error .malformed
    | .known size =>
      if size > decodedDataCap then .error .malformed
      else
        match z.decompress size zstdData with
        | none => .error .malformed
        | some out => msgpackDecodeBlock out

def decodeControl (frameData : List UInt8) : Except DecodeErr Control :=
  if frameData.length = Control.incremental.len ∧ frameData = Control.incremental.bytes then
    .ok .incremental
  else if frameData.length = Control.endIncremental.len ∧
      frameData = Control.endIncremental.bytes then
    .ok .endIncremental
  else .error .malformed

def decodeFrame (z : Zstd) (frameData : List UInt8) : Except DecodeErr Msg :=
  if frameData.length ≥ frameMagicLen ∧ frameData.take frameMagicLen = frameMagic then
    (decodeData z (frameData.drop frameMagicLen)).map .block
  else (decodeControl frameData).map .control

abbrev DecodeStep := Outcome DecodeErr Msg

def frameLen (buf : List UInt8) : Nat := beValue (buf.take tcpFrameHeaderSize)

def frameData (buf : List UInt8) : List UInt8 := (buf.drop tcpFrameHeaderSize).take (frameLen buf)

/-- The part of protocol_decode after the new bytes are appended; the second
component is recv_buf[0..recv_len) on return. A complete frame is taken out of
the buffer whether or not it decodes. -/
def decodeBuffered (z : Zstd) (buf : List UInt8) : DecodeStep × List UInt8 :=
  if buf.length < tcpFrameHeaderSize then (.more, buf)
  else if frameLen buf > maxFrameLen then (.fail .malformed, buf)
  else
    let totalNeeded := tcpFrameHeaderSize + frameLen buf
    if buf.length < totalNeeded then (.more, buf)
    else (.ofExcept (decodeFrame z (frameData buf)), buf.drop totalNeeded)

def protocolDecode (z : Zstd) (buf chunk : List UInt8) : DecodeStep × List UInt8 :=
  if chunk.length > 0 ∧ buf.length + chunk.length > recvBufSize then (.fail .malformed, buf)
  else decodeBuffered z (buf ++ chunk)

abbrev SessionRun := Drained UInt8 Msg

def handleChunk (z : Zstd) (buf chunk : List UInt8) : SessionRun :=
  drainLoop (fun buf => protocolDecode z buf []) (buf.length + chunk.length + 1)
    (protocolDecode z buf chunk)

/-- handle_session over the chunks that successive recv calls return; after an
error the session is removed and reads no more. -/
def handleSession (z : Zstd) : List UInt8 → List (List UInt8) → SessionRun
  | buf, [] => ⟨[], false, buf⟩
  | buf, chunk :: chunks =>
    let now := handleChunk z buf chunk
    if now.failed then now
    else
      let later := handleSession z now.buf chunks
      { later with items := now.items ++ later.items }

@[simp] theorem byteAt_cons_zero (b : UInt8) (rest : List UInt8) :
    byteAt (b :: rest) 0 = .ok b := rfl

theorem bytesAt_append (pre body rest : List UInt8) {i n : Nat}
    (hi : pre.length = i) (hn : body.length = n) :
    bytesAt (pre ++ (body ++ rest)) i n = .ok body := by
  have inside : i + n ≤ (pre ++ (body ++ rest)).length := by
    simp only [List.length_append]
    omega
  rw [bytesAt, if_pos inside, List.drop_left' hi, List.take_left' hn]

@[simp] theorem expectByte_cons (key : UInt8) (rest : List UInt8) :
    expectByte key (key :: rest) = .ok rest := by
  simp [expectByte, bind, Except.bind]

theorem readSigned_signedBytes (width : Nat) (tag : UInt8) (rest : List UInt8) {v : Int}
    (low : -((256 ^ width : Nat) : Int) ≤ v * 2) (high : v * 2 < ((256 ^ width : Nat) : Int)) :
    readSigned (tag :: (signedBytes width v ++ rest)) width = .ok (v, width + 1) := by
  have long : ¬ (tag :: (signedBytes width v ++ rest)).length < width + 1 := by simp
  have read : bytesAt (tag :: (signedBytes width v ++ rest)) 1 width =
      .ok (signedBytes width v) :=
    bytesAt_append [tag] _ rest rfl (signedBytes_length width v)
  rw [readSigned, if_neg long, read]
  simp only [bind, Except.bind, signedValue_signedBytes width v low high]

theorem signedBytes_one {v : Int} (low : -128 ≤ v) (high : v ≤ 127) :
    ∃ tag : UInt8, signedBytes 1 v = [tag] ∧ signedValue [tag] = v ∧
      (tag.toNat : Int) = v % 256 := by
  have value := signedValue_signedBytes 1 v (by norm_num; omega) (by norm_num; omega)
  obtain ⟨tag, single⟩ : ∃ tag, signedBytes 1 v = [tag] := ⟨_, rfl⟩
  refine ⟨tag, single, by rw [← single]; exact value, ?_⟩
  rw [single, signedValue] at value
  have small := tag.toNat_lt
  simp only [beValue, List.length_nil, pow_zero, mul_one, Nat.add_zero, List.length_cons,
    Nat.zero_add, pow_one] at value
  have residue : (tag.toNat : Int).bmod 256 % ((256 : Nat) : Int) = tag.toNat % ((256 : Nat) : Int) :=
    Int.bmod_emod
  rw [value] at residue
  omega

theorem msgpackReadInt_fixint {tag : UInt8} (rest : List UInt8) {v : Int}
    (value : signedValue [tag] = v) (residue : (tag.toNat : Int) = v % 256)
    (low : -32 ≤ v) (high : v ≤ 127) : msgpackReadInt (tag :: rest) = .ok (v, 1) := by
  have long : ¬ (tag :: rest).length < 1 := by simp
  rw [msgpackReadInt, if_neg long, byteAt_cons_zero]
  simp only [bind, Except.bind]
  by_cases nonneg : 0 ≤ v
  · have le : tag ≤ 0x7f := by
      rw [UInt8.le_iff_toNat_le]
      simp only [UInt8.reduceToNat]
      omega
    rw [if_pos le, residue, Int.emod_eq_of_lt nonneg (by omega)]
  · have nle : ¬ tag ≤ 0x7f := by
      rw [UInt8.le_iff_toNat_le]
      simp only [UInt8.reduceToNat]
      omega
    have ge : tag ≥ 0xe0 := by
      rw [ge_iff_le, UInt8.le_iff_toNat_le]
      simp only [UInt8.reduceToNat]
      omega
    rw [if_neg nle, if_pos ge, value]

theorem msgpackReadInt_int32Bytes (rest : List UInt8) {v : Int} (low : -2 ^ 31 ≤ v)
    (high : v < 2 ^ 31) :
    msgpackReadInt (int32Bytes v ++ rest) = .ok (v, (int32Bytes v).length) := by
  by_cases fix : -32 ≤ v ∧ v ≤ 127
  · have single : int32Bytes v = signedBytes 1 v := by
      unfold int32Bytes
      split_ifs <;> first | rfl | omega
    obtain ⟨tag, bytes, value, residue⟩ := signedBytes_one (v := v) (by omega) (by omega)
    rw [single, bytes]
    exact msgpackReadInt_fixint rest value residue fix.1 fix.2
  · unfold int32Bytes
    rw [if_neg (by omega), if_neg (by omega)]
    split_ifs
    · exact readSigned_signedBytes 1 msgpackInt8 rest (by norm_num; omega) (by norm_num; omega)
    · exact readSigned_signedBytes 2 msgpackInt16 rest (by norm_num; omega) (by norm_num; omega)
    · exact readSigned_signedBytes 4 msgpackInt32 rest (by norm_num; omega) (by norm_num; omega)

theorem msgpackReadInt_int64Bytes (rest : List UInt8) {v : Int} (low : -2 ^ 63 ≤ v)
    (high : v < 2 ^ 63) :
    msgpackReadInt (int64Bytes v ++ rest) = .ok (v, (int64Bytes v).length) :=
  readSigned_signedBytes 8 msgpackInt64 rest (by norm_num; omega) (by norm_num; omega)

theorem readLength_beBytes (width : Nat) (body : List UInt8) {n : Nat} (h : n < 256 ^ width) :
    readLength width (beBytes width n ++ body) = .ok (n, body) := by
  have long : ¬ (beBytes width n ++ body).length < width := by simp
  have read : bytesAt (beBytes width n ++ body) 0 width = .ok (beBytes width n) :=
    bytesAt_append [] _ body rfl (beBytes_length width n)
  rw [readLength, if_neg long, read]
  simp only [bind, Except.bind, beValue_beBytes_of_lt h, List.drop_left' (beBytes_length width n)]

theorem readBinLength_binHeader (body : List UInt8) {n : Nat} (h : n < 2 ^ 32) :
    ∃ tag len, binHeader n = tag :: len ∧ readBinLength tag (len ++ body) = .ok (n, body) := by
  unfold binHeader
  split_ifs with short medium
  · exact ⟨_, _, rfl, readLength_beBytes 1 body (by omega)⟩
  · exact ⟨_, _, rfl, readLength_beBytes 2 body (by omega)⟩
  · exact ⟨_, _, rfl, readLength_beBytes 4 body (by omega)⟩

theorem readBin_binHeader {data : List UInt8} (rest : List UInt8) (h : data.length < 2 ^ 32) :
    readBin (binHeader data.length ++ (data ++ rest)) = .ok data := by
  obtain ⟨tag, len, header, read⟩ := readBinLength_binHeader (data ++ rest) h
  have body : bytesAt (data ++ rest) 0 data.length = .ok data :=
    bytesAt_append [] data rest rfl rfl
  simp [header, readBin, bind, Except.bind, read, body]

/-- The receiver reads back what the client's encoder wrote, and looks no further. -/
theorem msgpackDecodeBlock_append (b : Block) (rest : List UInt8) (h : b.data.length < 2 ^ 32) :
    msgpackDecodeBlock (blockBytes b ++ rest) = .ok b := by
  have devno := b.devno.toInt_lt
  have devno' := b.devno.le_toInt
  have offset := b.offset.toInt_lt
  have offset' := b.offset.le_toInt
  simp only [msgpackDecodeBlock, blockBytes, List.cons_append, List.nil_append, expectByte_cons,
    List.append_assoc, bind, Except.bind, msgpackReadInt_int32Bytes _ devno' devno,
    msgpackReadInt_int64Bytes _ offset' offset, List.drop_left, readBin_binHeader rest h,
    Int32.ofInt_toInt, Int64.ofInt_toInt]

theorem msgpackDecodeBlock_blockBytes (b : Block) (h : b.data.length < 2 ^ 32) :
    msgpackDecodeBlock (blockBytes b) = .ok b := by
  simpa using msgpackDecodeBlock_append b [] h

/-- Whatever the writer held and however its allocations went: bytes left by an
encode that returned 0 are those of the block, and decode to it. -/
theorem msgpackDecodeBlock_encoded (b : Block) (short : b.data.length < 2 ^ 32)
    (s s' : WriterState) (encoded : msgpackEncodeBlock b s = some (true, s')) :
    s'.writer.bytes = blockBytes b ∧
      ∀ rest, msgpackDecodeBlock (s'.writer.bytes ++ rest) = .ok b := by
  have bytes := msgpackEncodeBlock_bytes encoded
  rw [bytes]
  exact ⟨rfl, fun rest => msgpackDecodeBlock_append b rest short⟩

theorem msgpackDecodeBlock_encoded_negative_devno :
    ∃ s', msgpackEncodeBlock ⟨-7, 512, [1, 2, 3]⟩ (writerInit [false]) = some (true, s') ∧
      msgpackDecodeBlock (s'.writer.bytes ++ [0xff]) = .ok ⟨-7, 512, [1, 2, 3]⟩ := by
  obtain ⟨s', encoded, -, -⟩ := msgpackEncodeBlock_spec ⟨-7, 512, [1, 2, 3]⟩
    (s := writerInit [false]) (by simp [HeapOk, writerInit]) (by decide) (by decide)
  exact ⟨s', encoded, (msgpackDecodeBlock_encoded _ (by decide) _ s' encoded).2 [0xff]⟩

theorem expectByte_rest {key : UInt8} {buf rest : List UInt8} (h : expectByte key buf = .ok rest) :
    rest = buf.drop 1 := by
  unfold expectByte at h
  split at h
  · cases h
  · obtain ⟨b, -, h⟩ := bind_eq_ok.mp h
    split at h
    · cases h
    · exact (Except.ok.inj h).symm

theorem bytesAt_length_le {buf bytes : List UInt8} {i n : Nat} (h : bytesAt buf i n = .ok bytes) :
    bytes.length ≤ buf.length := by
  unfold bytesAt at h
  split at h
  · rw [← Except.ok.inj h]
    simp only [List.length_take, List.length_drop]
    omega
  · cases h

theorem readLength_rest {width n : Nat} {buf rest : List UInt8}
    (h : readLength width buf = .ok (n, rest)) : rest = buf.drop width := by
  unfold readLength at h
  split at h
  · cases h
  · obtain ⟨bytes, -, h⟩ := bind_eq_ok.mp h
    exact (congrArg Prod.snd (Except.ok.inj h)).symm

theorem readBinLength_rest_le {tag : UInt8} {n : Nat} {buf rest : List UInt8}
    (h : readBinLength tag buf = .ok (n, rest)) : rest.length ≤ buf.length := by
  unfold readBinLength at h
  split_ifs at h
  all_goals
    rw [readLength_rest h, List.length_drop]
    exact Nat.sub_le _ _

theorem readBin_length_le {buf data : List UInt8} (h : readBin buf = .ok data) :
    data.length ≤ buf.length := by
  unfold readBin at h
  split at h
  · cases h
  · obtain ⟨tag, -, h⟩ := bind_eq_ok.mp h
    obtain ⟨⟨n, body⟩, len, h⟩ := bind_eq_ok.mp h
    have body_le := readBinLength_rest_le len
    rw [List.length_drop] at body_le
    simp only at h
    split at h
    · cases h
    · have data_le := bytesAt_length_le h
      omega

theorem msgpackDecodeBlock_length_le {buf : List UInt8} {b : Block}
    (h : msgpackDecodeBlock buf = .ok b) : b.data.length ≤ buf.length := by
  obtain ⟨r₁, h₁, h⟩ := bind_eq_ok.mp h
  obtain ⟨r₂, h₂, h⟩ := bind_eq_ok.mp h
  obtain ⟨⟨devno, n⟩, -, h⟩ := bind_eq_ok.mp h
  obtain ⟨r₃, h₃, h⟩ := bind_eq_ok.mp h
  obtain ⟨⟨offset, m⟩, -, h⟩ := bind_eq_ok.mp h
  obtain ⟨r₄, h₄, h⟩ := bind_eq_ok.mp h
  obtain ⟨data, bin, h⟩ := bind_eq_ok.mp h
  have data_le := readBin_length_le bin
  rw [expectByte_rest h₄, expectByte_rest h₃, expectByte_rest h₂, expectByte_rest h₁] at data_le
  simp only [List.length_drop] at data_le
  rw [← Except.ok.inj h]
  simp only
  omega

theorem decodeData_ok {z : Zstd} {zstdData : List UInt8} {b : Block}
    (h : decodeData z zstdData = .ok b) :
    ∃ size out, size ≤ decodedDataCap ∧ z.decompress size zstdData = some out ∧
      msgpackDecodeBlock out = .ok b := by
  unfold decodeData at h
  split at h
  · cases h
  cases content : z.frameContentSize zstdData with
  | error => rw [content] at h; cases h
  | unknown => rw [content] at h; cases h
  | known size =>
    rw [content] at h
    simp only at h
    split at h
    · cases h
    next small =>
      cases out : z.decompress size zstdData with
      | none => rw [out] at h; cases h
      | some bytes =>
        rw [out] at h
        exact ⟨size, bytes, Nat.le_of_not_gt small, out, h⟩

theorem decodeFrame_dataFits {z : Zstd} (hz : z.Lawful) {frameData : List UInt8} {m : Msg}
    (h : decodeFrame z frameData = .ok m) : m.DataFits := by
  unfold decodeFrame at h
  split at h
  · cases hd : decodeData z (frameData.drop frameMagicLen) with
    | error e => rw [hd] at h; cases h
    | ok b =>
      rw [hd] at h
      obtain rfl := Except.ok.inj h
      obtain ⟨size, out, small, decompressed, decoded⟩ := decodeData_ok hd
      calc b.data.length ≤ out.length := msgpackDecodeBlock_length_le decoded
        _ ≤ size := hz.capped _ _ _ decompressed
        _ ≤ decodedDataCap := small
  · cases hc : decodeControl frameData with
    | error e => rw [hc] at h; cases h
    | ok c =>
      rw [hc] at h
      obtain rfl := Except.ok.inj h
      trivial

end Go2Cloud.Decoder
