import Go2Cloud.Lib.CheckedMemory
import Go2Cloud.Lib.Transition
import Go2Cloud.Server.Grammar
import Go2Cloud.Server.Segmentation

/-! protocol_decode on the memory it works in: session->recv_buf and out->data
(server/protocol_decoder.c). Every access is checked against the size of its array, and
`none` is an access outside. The calls are those of handle_session (server/main.c). -/
namespace Go2Cloud.DecoderMemory
open Bytes Protocol Wire Decoder Incremental CheckedMemory Transition Segmentation

-- sizeof(out->data)
def decodedDataSize : Nat := 1024 * 1024 + 4096

structure Session where
  recvBuf : Memory UInt8 recvBufSize
  recvLen : Nat

def Session.pending (s : Session) : List UInt8 := s.recvBuf.front s.recvLen

inductive ResultType where
  -- decode_result_t, as far as protocol_decode sets it
  | dataBlock
  | ctlIncremental
  | ctlEndIncremental
  deriving DecidableEq, Repr

structure DecodedMsg where
  type : ResultType
  devno : Int32
  offset : Int64
  data : Memory UInt8 decodedDataSize
  dataLen : Nat

inductive Rc where
  -- return values 0, 1 and -1
  | more
  | decoded
  | failed
  deriving DecidableEq, Repr

def moveBlock (data : Memory UInt8 decodedDataSize) (r : Grammar.Parsed) :
    Option (Memory UInt8 decodedDataSize) :=
  -- `if (block_ptr != out->data) memmove(out->data, block_ptr, block_len);`
  if r.data ≠ 0 then data.move 0 r.data r.len else some data

def decodeDataFrame (z : Zstd) (s : Session) (frameLen : Nat) (out : DecodedMsg) :
    Option (Bool × DecodedMsg) :=
  -- the data frame behind its magic; the flag is false for `goto decode_error`
  let zstdLen := frameLen - frameMagicLen
  if zstdLen = 0 then some (false, out)
  else do
    let zstdData ← s.recvBuf.read (tcpFrameHeaderSize + frameMagicLen) zstdLen
    match z.frameContentSize zstdData with
    | .error => some (false, out)
    | .unknown => some (false, out)
    | .known size =>
      if size > decodedDataCap then some (false, out)
      else do
        -- ZSTD_decompress may use all of the destination it is given
        let _ ← out.data.read 0 size
        match z.decompress size zstdData with
        | none => some (false, out)
        | some bytes => do
          let data ← out.data.write 0 bytes
          let buf ← data.read 0 bytes.length
          match Grammar.msgpackDecodeBlock buf with
          | .error .outOfBounds => none
          | .error .malformed => some (false, { out with data := data })
          | .ok r => do
            let data ← moveBlock data r
            some (true, ⟨.dataBlock, r.devno, r.offset, data, r.len⟩)

def frameIs (s : Session) (len : Nat) (text : List UInt8) : Option Bool :=
  -- `memcmp(frame_data, text, len) == 0`
  (s.recvBuf.read tcpFrameHeaderSize len).map fun bytes => decide (bytes = text)

def isControl (s : Session) (frameLen : Nat) (c : Control) : Option Bool :=
  if frameLen = c.len then frameIs s c.len c.bytes else some false

def decodeControlFrame (s : Session) (frameLen : Nat) (out : DecodedMsg) :
    Option (Bool × DecodedMsg) := do
  if ← isControl s frameLen .incremental then some (true, { out with type := .ctlIncremental })
  else if ← isControl s frameLen .endIncremental then
    some (true, { out with type := .ctlEndIncremental })
  else
    -- the warning prints the first bytes of the frame
    let _ ← s.recvBuf.read tcpFrameHeaderSize (min frameLen 64)
    some (false, out)

def hasMagic (s : Session) (frameLen : Nat) : Option Bool :=
  if frameLen ≥ frameMagicLen then frameIs s frameMagicLen frameMagic else some false

def decodeFrame (z : Zstd) (s : Session) (frameLen : Nat) (out : DecodedMsg) :
    Option (Bool × DecodedMsg) := do
  if ← hasMagic s frameLen then decodeDataFrame z s frameLen out else decodeControlFrame s frameLen out

def Session.consume (s : Session) (total : Nat) : Option Session :=
  -- the processed bytes are moved out of the buffer
  let remaining := s.recvLen - total
  if remaining > 0 then do
    let recvBuf ← s.recvBuf.move 0 total remaining
    some ⟨recvBuf, remaining⟩
  else some ⟨s.recvBuf, remaining⟩

def decodeBuffered (z : Zstd) (s : Session) (out : DecodedMsg) : Option (Rc × Session × DecodedMsg) :=
  if s.recvLen < tcpFrameHeaderSize then some (.more, s, out)
  else do
    let header ← s.recvBuf.read 0 tcpFrameHeaderSize
    let frameLen := beValue header
    if frameLen > maxFrameLen then some (.failed, s, out)
    else if s.recvLen < tcpFrameHeaderSize + frameLen then some (.more, s, out)
    else do
      let (ok, out) ← decodeFrame z s frameLen out
      let s ← s.consume (tcpFrameHeaderSize + frameLen)
      some (if ok then .decoded else .failed, s, out)

def Session.append (s : Session) (chunk : List UInt8) : Option Session :=
  if chunk.length > 0 then do
    let recvBuf ← s.recvBuf.write s.recvLen chunk
    some ⟨recvBuf, s.recvLen + chunk.length⟩
  else some s

def protocolDecode (z : Zstd) (s : Session) (chunk : List UInt8) (out : DecodedMsg) :
    Option (Rc × Session × DecodedMsg) :=
  if chunk.length > 0 ∧ s.recvLen + chunk.length > recvBufSize then some (.failed, s, out)
  else do
    let s ← s.append chunk
    decodeBuffered z s out

def DecodedMsg.message (out : DecodedMsg) : Msg :=
  match out.type with
  | .dataBlock => .block ⟨out.devno, out.offset, out.data.front out.dataLen⟩
  | .ctlIncremental => .control .incremental
  | .ctlEndIncremental => .control .endIncremental

def frameOutcome (ok : Bool) (out : DecodedMsg) : DecodeStep :=
  if ok then .item out.message else .fail .malformed

def outcome (rc : Rc) (out : DecodedMsg) : DecodeStep :=
  match rc with
  | .more => .more
  | .decoded => .item out.message
  | .failed => .fail .malformed

def DecodedMsg.Fits (out : DecodedMsg) : Prop := out.type = .dataBlock → out.dataLen ≤ decodedDataSize

def Capped (z : Zstd) : Prop := ∀ cap src out, z.decompress cap src = some out → out.length ≤ cap

theorem decodedDataCap_le : decodedDataCap ≤ decodedDataSize := by decide

theorem parsed_inside {buf : List UInt8} {r : Grammar.Parsed}
    (h : Grammar.msgpackDecodeBlock buf = .ok r) : r.data + r.len ≤ buf.length := by
  obtain ⟨p, rfl⟩ := Grammar.msgpackDecodeBlock_ok_iff.mp h
  have length := congrArg List.length p.split
  rw [List.length_append, List.length_append] at length
  simp only [Grammar.Parse.dataPos]
  omega

theorem moveBlock_front {data : Memory UInt8 decodedDataSize} {bytes : List UInt8}
    (front : data.front bytes.length = bytes) (small : bytes.length ≤ decodedDataSize)
    {r : Grammar.Parsed} (h : Grammar.msgpackDecodeBlock bytes = .ok r) :
    ∃ data', moveBlock data r = some data' ∧
      data'.front r.len = (bytes.drop r.data).take r.len := by
  -- the decompressed bytes are in the front of `data`; the block's part of them is moved to the
  -- beginning
  have inside := parsed_inside h
  have part : ∀ n ≤ bytes.length, data.front n = bytes.take n := by
    intro n le
    rw [← front, Memory.front, Memory.front, List.take_take, Nat.min_eq_left (by omega)]
  by_cases moved : r.data ≠ 0
  · obtain ⟨data', move, front'⟩ := data.move_front r.data r.len (by omega)
    refine ⟨data', by rw [moveBlock, if_pos moved, move], ?_⟩
    rw [front', part _ inside, List.drop_take, Nat.add_sub_cancel_left]
  · refine ⟨data, by rw [moveBlock, if_neg moved], ?_⟩
    rw [not_not.mp moved, List.drop_zero, part r.len (by omega)]

theorem decodeDataFrame_refines {z : Zstd} (capped : Capped z) {s : Session} {frameLen : Nat}
    (out : DecodedMsg) (inside : s.recvLen ≤ recvBufSize) (magic : frameMagicLen ≤ frameLen)
    (whole : tcpFrameHeaderSize + frameLen ≤ s.recvLen) :
    ∃ ok out', decodeDataFrame z s frameLen out = some (ok, out') ∧ (ok = true → out'.Fits) ∧
      .ofExcept ((Decoder.decodeData z
        ((s.pending.drop (tcpFrameHeaderSize + frameMagicLen)).take (frameLen - frameMagicLen))).map Msg.block) =
        frameOutcome ok out' := by
  have read := s.recvBuf.read_front (i := tcpFrameHeaderSize + frameMagicLen)
    (n := frameLen - frameMagicLen) (k := s.recvLen) (by omega) inside
  have length : ((s.pending.drop (tcpFrameHeaderSize + frameMagicLen)).take
      (frameLen - frameMagicLen)).length = frameLen - frameMagicLen := by
    rw [List.length_take, List.length_drop, Session.pending, s.recvBuf.front_length inside]
    omega
  rw [← Session.pending] at read
  generalize (s.pending.drop (tcpFrameHeaderSize + frameMagicLen)).take (frameLen - frameMagicLen) =
    zstdData at read length ⊢
  have refused : ∀ out', ∃ ok out'', some (false, out') = some (ok, out'') ∧ (ok = true → out''.Fits) ∧
      (.fail .malformed : DecodeStep) = frameOutcome ok out'' :=
    fun out' => ⟨false, out', rfl, by simp, rfl⟩
  rw [decodeDataFrame, Decoder.decodeData, length]
  by_cases empty : frameLen - frameMagicLen = 0
  · rw [if_pos empty, if_pos empty]
    exact refused out
  rw [if_neg empty, if_neg empty, read]
  simp only [Option.bind_eq_bind, Option.bind_some]
  cases content : z.frameContentSize zstdData with
  | error => exact refused out
  | unknown => exact refused out
  | known size =>
    by_cases large : size > decodedDataCap
    · simp only [if_pos large]
      exact refused out
    have room : size ≤ decodedDataSize := (Nat.le_of_not_gt large).trans decodedDataCap_le
    have destination := out.data.read_front (i := 0) (n := size) (Nat.zero_add size).le room
    simp only [if_neg large, destination, Option.bind_some]
    cases decompressed : z.decompress size zstdData with
    | none => exact refused out
    | some bytes =>
      have small := capped _ _ _ decompressed
      obtain ⟨data, written, front⟩ := out.data.write_front 0 bytes (by omega)
      rw [Nat.zero_add, Memory.front_zero, List.nil_append] at front
      have read_back := data.read_front (i := 0) (n := bytes.length) (Nat.zero_add _).le (by omega)
      rw [front, List.drop_zero, List.take_length] at read_back
      simp only [written, Option.bind_some, read_back, Grammar.decoder_msgpackDecodeBlock]
      cases parsed : Grammar.msgpackDecodeBlock bytes with
      | error e =>
        obtain rfl := Grammar.msgpackDecodeBlock_fails parsed
        exact refused _
      | ok r =>
        obtain ⟨data', moved, front'⟩ := moveBlock_front front (by omega) parsed
        have inside := parsed_inside parsed
        simp only [moved, Option.bind_some]
        refine ⟨true, _, rfl, fun _ _ => ?_, ?_⟩
        · simp only
          omega
        · simp only [Except.map, Outcome.ofExcept, frameOutcome, DecodedMsg.message, front', if_true,
            Grammar.Parsed.block]

theorem frameIs_pending {s : Session} {len : Nat} (inside : s.recvLen ≤ recvBufSize)
    (whole : tcpFrameHeaderSize + len ≤ s.recvLen) (text : List UInt8) :
    frameIs s len text = some (decide ((s.pending.drop tcpFrameHeaderSize).take len = text)) := by
  rw [frameIs, s.recvBuf.read_front whole inside]
  rfl

theorem decodeControlFrame_refines {s : Session} {frameLen : Nat} (out : DecodedMsg)
    (inside : s.recvLen ≤ recvBufSize) (whole : tcpFrameHeaderSize + frameLen ≤ s.recvLen) :
    ∃ ok out', decodeControlFrame s frameLen out = some (ok, out') ∧ (ok = true → out'.Fits) ∧
      .ofExcept ((decodeControl ((s.pending.drop tcpFrameHeaderSize).take frameLen)).map Msg.control) =
        frameOutcome ok out' := by
  have length : ((s.pending.drop tcpFrameHeaderSize).take frameLen).length = frameLen := by
    rw [List.length_take, List.length_drop, Session.pending, s.recvBuf.front_length inside]
    omega
  have control : ∀ c : Control, isControl s frameLen c =
      some (decide (((s.pending.drop tcpFrameHeaderSize).take frameLen).length = c.len ∧
        (s.pending.drop tcpFrameHeaderSize).take frameLen = c.bytes)) := by
    intro c
    rw [isControl, length]
    split
    next same =>
      rw [frameIs_pending inside (by omega), same]
      simp
    next other => simp [other]
  have warning := s.recvBuf.read_front (i := tcpFrameHeaderSize) (n := min frameLen 64)
    (k := s.recvLen) (by omega) inside
  simp only [decodeControlFrame, control, warning, Option.bind_eq_bind, Option.bind_some, decodeControl,
    decide_eq_true_eq]
  split
  · exact ⟨true, _, rfl, by simp [DecodedMsg.Fits], rfl⟩
  split
  · exact ⟨true, _, rfl, by simp [DecodedMsg.Fits], rfl⟩
  · exact ⟨false, out, rfl, by simp, rfl⟩

theorem decodeFrame_refines {z : Zstd} (capped : Capped z) {s : Session} {frameLen : Nat}
    (out : DecodedMsg) (inside : s.recvLen ≤ recvBufSize)
    (whole : tcpFrameHeaderSize + frameLen ≤ s.recvLen) :
    ∃ ok out', decodeFrame z s frameLen out = some (ok, out') ∧ (ok = true → out'.Fits) ∧
      .ofExcept (Decoder.decodeFrame z ((s.pending.drop tcpFrameHeaderSize).take frameLen)) =
        frameOutcome ok out' := by
  have length : ((s.pending.drop tcpFrameHeaderSize).take frameLen).length = frameLen := by
    rw [List.length_take, List.length_drop, Session.pending, s.recvBuf.front_length inside]
    omega
  rw [Decoder.decodeFrame, length, decodeFrame, hasMagic]
  by_cases long : frameLen ≥ frameMagicLen
  · have first : ((s.pending.drop tcpFrameHeaderSize).take frameLen).take frameMagicLen =
        (s.pending.drop tcpFrameHeaderSize).take frameMagicLen := by
      rw [List.take_take, Nat.min_eq_left long]
    rw [if_pos long, frameIs_pending inside (by omega), first]
    simp only [Option.bind_eq_bind, Option.bind_some, decide_eq_true_eq]
    by_cases magic : (s.pending.drop tcpFrameHeaderSize).take frameMagicLen = frameMagic
    · have data : ((s.pending.drop tcpFrameHeaderSize).take frameLen).drop frameMagicLen =
          (s.pending.drop (tcpFrameHeaderSize + frameMagicLen)).take (frameLen - frameMagicLen) := by
        rw [List.drop_take, List.drop_drop]
      rw [if_pos magic, if_pos ⟨long, magic⟩, data]
      exact decodeDataFrame_refines capped out inside long whole
    · rw [if_neg magic, if_neg fun both => magic both.2]
      exact decodeControlFrame_refines out inside whole
  · rw [if_neg long, if_neg fun both => long both.1]
    simp only [Option.bind_eq_bind, Option.bind_some, Bool.false_eq_true, if_false]
    exact decodeControlFrame_refines out inside whole

theorem consume_pending {s : Session} {total : Nat} (inside : s.recvLen ≤ recvBufSize)
    (whole : total ≤ s.recvLen) :
    ∃ t, s.consume total = some t ∧ t.recvLen = s.recvLen - total ∧ t.pending = s.pending.drop total := by
  rw [Session.consume]
  by_cases left : s.recvLen - total > 0
  · obtain ⟨recvBuf, moved, front⟩ :=
      s.recvBuf.move_front total (s.recvLen - total) (by omega)
    simp only [if_pos left, moved, Option.bind_eq_bind, Option.bind_some]
    refine ⟨_, rfl, rfl, ?_⟩
    rw [Session.pending, front, Session.pending, Nat.add_sub_cancel' whole]
  · simp only [if_neg left]
    refine ⟨_, rfl, rfl, ?_⟩
    have length : s.pending.length = s.recvLen := s.recvBuf.front_length inside
    have none_left : s.recvLen - total = 0 := by omega
    rw [Session.pending, none_left, Memory.front_zero, List.drop_of_length_le (by omega)]

theorem append_pending {s : Session} {chunk : List UInt8} (room : s.recvLen + chunk.length ≤ recvBufSize) :
    ∃ t, s.append chunk = some t ∧ t.recvLen = s.recvLen + chunk.length ∧
      t.pending = s.pending ++ chunk := by
  rw [Session.append]
  by_cases bytes : chunk.length > 0
  · obtain ⟨recvBuf, written, front⟩ := s.recvBuf.write_front s.recvLen chunk room
    simp only [if_pos bytes, written, Option.bind_eq_bind, Option.bind_some]
    exact ⟨_, rfl, rfl, front⟩
  · have empty : chunk = [] := List.eq_nil_of_length_eq_zero (by omega)
    rw [if_neg bytes, empty]
    exact ⟨s, rfl, rfl, (List.append_nil _).symm⟩

theorem decodeBuffered_refines {z : Zstd} (capped : Capped z) {s : Session} (out : DecodedMsg)
    (inside : s.recvLen ≤ recvBufSize) :
    ∃ rc t out', decodeBuffered z s out = some (rc, t, out') ∧ t.recvLen ≤ s.recvLen ∧
      (rc = .decoded → out'.Fits) ∧
      Decoder.decodeBuffered z s.pending = (outcome rc out', t.pending) := by
  have length : s.pending.length = s.recvLen := s.recvBuf.front_length inside
  simp only [decodeBuffered, Decoder.decodeBuffered, length]
  by_cases short : s.recvLen < tcpFrameHeaderSize
  · simp only [if_pos short]
    exact ⟨.more, s, out, rfl, le_rfl, by simp, rfl⟩
  have header := s.recvBuf.read_front (i := 0) (n := tcpFrameHeaderSize) (by omega) inside
  rw [List.drop_zero, ← Session.pending] at header
  have value : beValue (s.pending.take tcpFrameHeaderSize) = frameLen s.pending := rfl
  simp only [if_neg short, header, Option.bind_eq_bind, Option.bind_some, value]
  by_cases large : frameLen s.pending > maxFrameLen
  · simp only [if_pos large]
    exact ⟨.failed, s, out, rfl, le_rfl, by simp, rfl⟩
  by_cases part : s.recvLen < tcpFrameHeaderSize + frameLen s.pending
  · simp only [if_neg large, if_pos part]
    exact ⟨.more, s, out, rfl, le_rfl, by simp, rfl⟩
  have whole : tcpFrameHeaderSize + frameLen s.pending ≤ s.recvLen := by omega
  obtain ⟨ok, out', decoded, fits, same⟩ := decodeFrame_refines capped out inside whole
  obtain ⟨t, consumed, left, pending⟩ := consume_pending inside whole
  simp only [if_neg large, if_neg part, decoded, Option.bind_some, consumed, frameData, same, ← pending]
  refine ⟨_, t, out', rfl, by omega, ?_, ?_⟩
  · cases ok with
    | false => simp
    | true => exact fun _ => fits rfl
  · cases ok <;> rfl

/-- On the memory of the session and the message protocol_decode does what the model on
byte lists says, and touches nothing outside. -/
theorem protocolDecode_refines {z : Zstd} (capped : Capped z) {s : Session} (chunk : List UInt8)
    (out : DecodedMsg) (inside : s.recvLen ≤ recvBufSize) :
    ∃ rc t out', protocolDecode z s chunk out = some (rc, t, out') ∧ t.recvLen ≤ recvBufSize ∧
      (rc = .decoded → out'.Fits) ∧
      Decoder.protocolDecode z s.pending chunk = (outcome rc out', t.pending) := by
  have length : s.pending.length = s.recvLen := s.recvBuf.front_length inside
  rw [protocolDecode, Decoder.protocolDecode, length]
  by_cases full : chunk.length > 0 ∧ s.recvLen + chunk.length > recvBufSize
  · rw [if_pos full, if_pos full]
    exact ⟨.failed, s, out, rfl, inside, by simp, rfl⟩
  · have room : s.recvLen + chunk.length ≤ recvBufSize := by omega
    obtain ⟨t, appended, longer, pending⟩ := append_pending room
    obtain ⟨rc, u, out', decoded, shorter, fits, same⟩ :=
      decodeBuffered_refines capped (s := t) out (by omega)
    rw [if_neg full, if_neg full, appended, ← pending, same]
    exact ⟨rc, u, out', decoded, by omega, fits, rfl⟩

structure Call where
  out : DecodedMsg
  chunk : List UInt8

structure State where
  session : Session
  out : DecodedMsg
  rc : Rc

/-- handle_session passes a received chunk on after return value 0 and calls again
without one after 1; after -1 the session is removed. -/
def Enabled (s : State) (c : Call) : Prop :=
  match s.rc with
  | .more => 1 ≤ c.chunk.length ∧ c.chunk.length ≤ recvChunkSize
  | .decoded => c.chunk = []
  | .failed => False

instance (s : State) (c : Call) : Decidable (Enabled s c) := by
  unfold Enabled
  split <;> infer_instance

def step (z : Zstd) (s : State) (c : Call) : Option State :=
  if Enabled s c then
    (protocolDecode z s.session c.chunk c.out).map fun (rc, session, out) => ⟨session, out, rc⟩
  else none

-- a new session; nothing is assumed of what is in the memory
def start (recvBuf : Memory UInt8 recvBufSize) (out : DecodedMsg) : State := ⟨⟨recvBuf, 0⟩, out, .more⟩

def Complete (buf : List UInt8) : Prop := tcpFrameHeaderSize + frameLen buf ≤ buf.length

theorem recvBufSize_le_maxFrameLen : recvBufSize ≤ maxFrameLen := by decide

structure Safe (s : State) : Prop where
  inside : s.session.recvLen ≤ recvBufSize
  fits : s.rc = .decoded → s.out.Fits

theorem step_safe {z : Zstd} (capped : Capped z) {s : State} (safe : Safe s) {c : Call}
    (enabled : Enabled s c) :
    ∃ t, step z s c = some t ∧ Safe t ∧
      Decoder.protocolDecode z s.session.pending c.chunk = (outcome t.rc t.out, t.session.pending) := by
  obtain ⟨rc, t, out, decoded, inside, fits, same⟩ :=
    protocolDecode_refines capped c.chunk c.out safe.inside
  exact ⟨⟨t, out, rc⟩, by simp [step, enabled, decoded], ⟨inside, fits⟩, same⟩

theorem run_safe {z : Zstd} (capped : Capped z) {s t : State} {calls : List Call}
    (h : run (step z) s calls = some t) (safe : Safe s) : Safe t := by
  refine run_invariant (fun s c t safe hs => ?_) h safe
  by_cases enabled : Enabled s c
  · obtain ⟨t', performed, safe', -⟩ := step_safe capped safe enabled
    rw [Option.some.inj (hs.symm.trans performed)]
    exact safe'
  · simp [step, enabled] at hs

theorem step_consumes {z : Zstd} (capped : Capped z) {s t : State} {c : Call} (safe : Safe s)
    (h : step z s c = some t)
    (taken : t.rc = .decoded ∨ t.rc = .failed ∧
      s.session.recvLen + c.chunk.length ≤ recvBufSize ∧ Complete (s.session.pending ++ c.chunk)) :
    t.session.recvLen + tcpFrameHeaderSize ≤ s.session.recvLen + c.chunk.length := by
  have enabled : Enabled s c := by
    by_contra disabled
    simp [step, disabled] at h
  obtain ⟨t', performed, safe', same⟩ := step_safe capped safe enabled
  obtain rfl := Option.some.inj (h.symm.trans performed)
  have before : s.session.pending.length = s.session.recvLen := s.session.recvBuf.front_length safe.inside
  have after : t.session.pending.length = t.session.recvLen := t.session.recvBuf.front_length safe'.inside
  have total : (s.session.pending ++ c.chunk).length = s.session.recvLen + c.chunk.length := by
    rw [List.length_append, before]
  rw [Decoder.protocolDecode, before] at same
  split at same
  next full =>
    rcases taken with decoded | ⟨-, room, -⟩
    · simp [decoded, outcome] at same
    · omega
  next =>
    have complete : Complete (s.session.pending ++ c.chunk) ∧ t.session.pending =
        (s.session.pending ++ c.chunk).drop
          (tcpFrameHeaderSize + frameLen (s.session.pending ++ c.chunk)) := by
      rcases taken with decoded | ⟨-, room, complete⟩
      · rw [decoded] at same
        obtain ⟨-, whole, left⟩ := decodeBuffered_item same
        exact ⟨whole, left⟩
      · -- a frame longer than the limit is never complete: it does not fit recv_buf
        have small : frameLen (s.session.pending ++ c.chunk) ≤ maxFrameLen := by
          have le := recvBufSize_le_maxFrameLen
          rw [Complete, total] at complete
          omega
        rw [decodeBuffered_complete z small complete, Prod.mk.injEq] at same
        exact ⟨complete, same.2.symm⟩
    obtain ⟨whole, left⟩ := complete
    rw [Complete, total] at whole
    have length := congrArg List.length left
    rw [List.length_drop, total, after] at length
    omega

theorem decode_loop_ends {z : Zstd} (capped : Capped z) {s : State} (safe : Safe s)
    (outs : Nat → DecodedMsg) :
    ∃ n t, n ≤ s.session.recvLen / tcpFrameHeaderSize + 1 ∧
      run (step z) s ((List.range n).map fun k => ⟨outs k, []⟩) = some t ∧ t.rc ≠ .decoded := by
  -- each message leaves fewer bytes in the buffer
  induction len : s.session.recvLen using Nat.strongRecOn generalizing s outs with
  | ind len' ih =>
    by_cases done : s.rc ≠ .decoded
    · exact ⟨0, s, Nat.zero_le _, rfl, done⟩
    · have enabled : Enabled s ⟨outs 0, []⟩ := by simp [Enabled, not_not.mp done]
      obtain ⟨t, performed, safe', -⟩ := step_safe capped safe enabled
      by_cases last : t.rc ≠ .decoded
      · exact ⟨1, t, Nat.le_add_left _ _, by simp [run, performed], last⟩
      · have shorter := step_consumes capped safe performed (.inl (not_not.mp last))
        simp only [List.length_nil, Nat.add_zero, tcpFrameHeaderSize] at shorter ⊢
        obtain ⟨n, u, bound, rest, ended⟩ :=
          ih t.session.recvLen (by omega) safe' (fun k => outs (k + 1)) rfl
        simp only [tcpFrameHeaderSize] at bound
        refine ⟨n + 1, u, by omega, ?_, ended⟩
        rw [List.range_succ_eq_map, List.map_cons, List.map_map, run, performed]
        exact rest

/-- Whatever the peer sends and however it is cut into chunks, and whatever zstd returns
within its destination: recv_len stays within recv_buf, a delivered block within
out->data, the next call touches nothing outside the two arrays, a call that takes a
frame takes four bytes or more, and the decode loop ends. -/
theorem decoder_memory_safe (z : Zstd)
    (capped : ∀ cap src out, z.decompress cap src = some out → out.length ≤ cap)
    (recvBuf : Memory UInt8 recvBufSize) (out : DecodedMsg) (calls : List Call) (s : State)
    (h : run (step z) (start recvBuf out) calls = some s) :
    s.session.recvLen ≤ recvBufSize ∧
    (s.rc = .decoded → s.out.type = .dataBlock → s.out.dataLen ≤ decodedDataSize) ∧
    (∀ c, Enabled s c → ∃ t, step z s c = some t ∧
      (t.rc = .decoded ∨ t.rc = .failed ∧
        s.session.recvLen + c.chunk.length ≤ recvBufSize ∧ Complete (s.session.pending ++ c.chunk) →
          t.session.recvLen + 4 ≤ s.session.recvLen + c.chunk.length)) ∧
    ∀ outs : Nat → DecodedMsg, ∃ n t, n ≤ s.session.recvLen / 4 + 1 ∧
      run (step z) s ((List.range n).map fun k => ⟨outs k, []⟩) = some t ∧ t.rc ≠ .decoded := by
  have safe : Safe s := run_safe capped h ⟨Nat.zero_le _, by simp [start]⟩
  refine ⟨safe.inside, safe.fits, fun c enabled => ?_, decode_loop_ends capped safe⟩
  obtain ⟨t, performed, -⟩ := step_safe capped safe enabled
  exact ⟨t, performed, step_consumes capped safe performed⟩

-- memory from calloc
def zeroed (size : Nat) : Memory UInt8 size := ⟨List.replicate size 0, List.length_replicate⟩

def zeroedMsg : DecodedMsg := ⟨.dataBlock, 0, 0, zeroed decodedDataSize, 0⟩

-- a header that announces 2^32 - 1 bytes, and a part of the next
def hostileChunk : Call := ⟨zeroedMsg, [0xff, 0xff, 0xff, 0xff, 0x00, 0x00]⟩

theorem decoder_memory_safe_hostile :
    ∃ s, run (step storedZstd) (start (zeroed recvBufSize) zeroedMsg) [hostileChunk] = some s ∧
      s.session.recvLen ≤ recvBufSize := by
  have capped := storedZstd_lawful.capped
  obtain ⟨s, performed, -⟩ := step_safe capped (s := start (zeroed recvBufSize) zeroedMsg)
    ⟨Nat.zero_le _, by simp [start]⟩ (c := hostileChunk) ⟨by decide, by decide⟩
  have h : run (step storedZstd) (start (zeroed recvBufSize) zeroedMsg) [hostileChunk] = some s := by
    rw [run, performed]
    rfl
  exact ⟨s, h, (decoder_memory_safe storedZstd capped _ _ _ s h).1⟩

end Go2Cloud.DecoderMemory
