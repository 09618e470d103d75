import Go2Cloud.Client.Queue
import Go2Cloud.Server.Segmentation

/-! The wire format end to end: what the client encodes, queues and sends is what
the receiver's decode loop delivers, for every cut of the byte stream. -/
namespace Go2Cloud.RoundTrip
open Bytes Protocol Msgpack Wire Queue Decoder Incremental Segmentation

inductive Sending where
  | block (b : Block) (hash : UInt64) (writer : WriterState) (level : Int)
      (script : List SendResult)
  | control (c : Control) (script : List SendResult)

def Sending.msg : Sending → Msg
  | .block b _ _ _ _ => .block b
  | .control c _ => .control c

def Sending.Ok : Sending → Prop
  | .block b _ writer _ script => b.data.length ≤ blockSize ∧ HeapOk writer ∧
      writer.writer.capacity < sizeWrap ∧ Delivers script
  | .control _ script => Delivers script

def accepted (sent : SendOutcome) : Option (List UInt8) :=
  if sent.ok then some sent.accepted else none

/-- Encode, queue and send one message: the bytes the socket took, or `none` if
any of the routines returned an error. -/
def transmitOne (z : Zstd) : Sending → Option (List UInt8)
  | .block b hash writer level script => do
    let (encoded, w) ← msgpackEncodeBlock b writer
    guard encoded
    let (rc, q) := queuePush queueInit true b.devno b.offset hash w.writer.bytes
    guard (rc = .ok)
    let (entry, _) ← queuePop q
    let payload ← entry.payload
    accepted (wireSend z level payload sendScratchSize script)
  | .control c script => accepted (wireSendControl c script)

def transmit (z : Zstd) : List Sending → Option (List UInt8)
  | [] => some []
  | s :: rest => do
    let bytes ← transmitOne z s
    let later ← transmit z rest
    some (bytes ++ later)

theorem queuePop_queuePush_init (devno : Int32) (offset : Int64) (hash : UInt64)
    {payload : List UInt8} (h : payload.length ≤ queueEntryMaxPayload) :
    ∃ q q' entry, queuePush queueInit true devno offset hash payload = (.ok, q) ∧
      queuePop q = some (entry, q') ∧ entry.payload = some payload := by
  have fits : ¬ payload.length > queueEntryMaxPayload := by omega
  have room : queueInit.count < queueCapacity := by decide
  refine ⟨fillHead queueInit room ⟨devno, offset, hash, some payload, payload.length, true⟩,
    _, _, ?_, rfl, ?_⟩
  · simp only [queuePush, if_neg fits, dif_pos room]
    rfl
  · rfl

theorem decodeFrame_data {z : Zstd} (hz : z.Lawful) {b : Block} {level : Int} {c : List UInt8}
    (len : b.data.length ≤ blockSize)
    (h : z.compress (zstdCompressBound (blockBytes b).length) (blockBytes b) level = some c) :
    decodeFrame z (frameMagic ++ c) = .ok (.block b) := by
  have total := blockBytes_length_le b
  have small : (blockBytes b).length < 2 ^ 21 := by
    simp only [blockSize] at len
    omega
  have sized := hz.sized _ _ _ small h
  have nonempty : c.length ≠ 0 := by
    intro empty
    rw [List.length_eq_zero_iff.mp empty, hz.empty] at sized
    cases sized
  have admitted : ¬ (blockBytes b).length > decodedDataCap := by
    have cap : decodedDataCap = 0x101000 := rfl
    simp only [blockSize] at len
    omega
  have data : decodeData z c = .ok b := by
    simp only [decodeData, if_neg nonempty, sized, if_neg admitted, hz.inverts _ _ _ small h]
    exact msgpackDecodeBlock_blockBytes b (by simp only [blockSize] at len; omega)
  have three : frameMagic.length = frameMagicLen := rfl
  have magic : (frameMagic ++ c).length ≥ frameMagicLen ∧
      (frameMagic ++ c).take frameMagicLen = frameMagic := by
    refine ⟨?_, List.take_left' three⟩
    rw [List.length_append]
    omega
  rw [decodeFrame, if_pos magic, List.drop_left' three, data]
  rfl

theorem decodeFrame_control (z : Zstd) (c : Control) :
    decodeFrame z c.bytes = .ok (.control c) := by
  cases c <;> rfl

theorem transmitOne_frame {z : Zstd} (hz : z.Lawful) {s : Sending} (ok : s.Ok) :
    ∃ payload, transmitOne z s = some (frame payload) ∧ decodeFrame z payload = .ok s.msg ∧
      payload.length ≤ recvBufSize - recvChunkSize - tcpFrameHeaderSize := by
  -- one message: the routines succeed and the bytes are one frame that decodes to it and fits
  -- beside a chunk in the receive buffer
  cases s with
  | control c script =>
    obtain ⟨sent, bytes, -⟩ := wireSendControl_delivers c ok
    refine ⟨c.bytes, ?_, decodeFrame_control z c, by cases c <;> decide⟩
    simp only [transmitOne, accepted, sent, bytes, if_true]
  | block b hash writer level script =>
    obtain ⟨len, heap, size, delivers⟩ := ok
    have total := blockBytes_length_le b
    simp only [blockSize] at len
    obtain ⟨w, encoded, bytes, -⟩ := msgpackEncodeBlock_spec b heap size (by omega)
    obtain ⟨q, q', entry, pushed, popped, payload⟩ :=
      queuePop_queuePush_init b.devno b.offset hash
        (show (blockBytes b).length ≤ queueEntryMaxPayload by
          simp only [queueEntryMaxPayload]; omega)
    obtain ⟨c, compressed, sent, out, -⟩ := wireSend_delivers hz level
      (show (blockBytes b).length < 2 ^ 21 by omega)
      (show zstdCompressBound (blockBytes b).length + 7 ≤ sendScratchSize by
        simp only [zstdCompressBound, sendScratchSize]; omega) delivers
    refine ⟨frameMagic ++ c, ?_, decodeFrame_data hz len compressed, ?_⟩
    · simp [transmitOne, encoded, guard, bytes, pushed, popped, payload, accepted, sent, out]
    · have bound := hz.bounded _ _ _ (show (blockBytes b).length < 2 ^ 21 by omega) compressed
      simp only [List.length_append, frameMagic, List.length_cons, List.length_nil,
        zstdCompressBound, recvBufSize, recvChunkSize, tcpFrameHeaderSize] at *
      omega

theorem decodeBuffered_frame (z : Zstd) {payload : List UInt8}
    (fits : payload.length ≤ recvBufSize - recvChunkSize - tcpFrameHeaderSize)
    (rest : List UInt8) :
    decodeBuffered z (frame payload ++ rest) = (.ofExcept (decodeFrame z payload), rest) := by
  simp only [recvBufSize, recvChunkSize, tcpFrameHeaderSize] at fits
  have small : payload.length < 2 ^ 32 := by omega
  have len := frameLen_frame small rest
  rw [decodeBuffered_complete z, frameData_frame small, len, drop_frame]
  · rw [len, maxFrameLen]
    omega
  · rw [len, List.length_append]
    simp [frame]

/-- The stream of a whole sequence drains to exactly that sequence. -/
theorem transmit_drains {z : Zstd} (hz : z.Lawful) {items : List Sending}
    (ok : ∀ s ∈ items, s.Ok) :
    ∃ stream, transmit z items = some stream ∧ HeadersOk stream ∧
      drain (decodeBuffered z) stream = ⟨items.map Sending.msg, false, []⟩ := by
  induction items with
  | nil => exact ⟨[], rfl, headersOk_nil, rfl⟩
  | cons s items ih =>
    obtain ⟨payload, sent, decodes, fits⟩ := transmitOne_frame hz (ok s (List.mem_cons_self ..))
    obtain ⟨later, rest, headers, drains⟩ := ih fun s' hs => ok s' (List.mem_cons_of_mem _ hs)
    have step : decodeBuffered z (frame payload ++ later) = (.item s.msg, later) := by
      rw [decodeBuffered_frame z fits, decodes]
      rfl
    refine ⟨frame payload ++ later, ?_, headersOk_frame fits headers, ?_⟩
    · simp [transmit, sent, rest]
    · rw [drain_item (decodeBuffered_stable z) step, drains, List.map_cons]

/-- Wire round trip: every routine on the way accepts the messages, and every
segmentation of the byte stream delivers exactly them and leaves nothing behind. -/
theorem transmit_round_trip (z : Zstd) (hz : z.Lawful) (items : List Sending)
    (ok : ∀ s ∈ items, s.Ok) :
    ∃ stream, transmit z items = some stream ∧
      ∀ chunks, Segments stream chunks →
        handleSession z [] chunks = ⟨items.map Sending.msg, false, []⟩ := by
  obtain ⟨stream, sent, headers, drains⟩ := transmit_drains hz ok
  refine ⟨stream, sent, fun chunks seg => ?_⟩
  have run := seg.drain z headers
  rw [drains] at run
  obtain ⟨items', failed, buf⟩ := run
  cases h : handleSession z [] chunks with
  | mk msgs bad rest =>
    rw [h] at items' failed buf
    simp only at items' failed buf
    rw [items', failed, buf failed]

/-- A short block followed by the end marker, sent through a slow socket. -/
theorem transmit_round_trip_block_then_end :
    ∃ stream, transmit storedZstd
        [.block ⟨0, 0x0102030405060708, [9, 10, 11]⟩ 7 (writerInit []) 3
            [.sent 1, .wouldBlock, .sent 2],
          .control .endIncremental [.wouldBlock]] = some stream ∧
      ∀ chunks, Segments stream chunks → handleSession storedZstd [] chunks =
        ⟨[.block ⟨0, 0x0102030405060708, [9, 10, 11]⟩, .control .endIncremental], false, []⟩ :=
  transmit_round_trip storedZstd storedZstd_lawful _ (by
    intro s hs
    simp only [List.mem_cons, List.not_mem_nil, or_false] at hs
    rcases hs with rfl | rfl
    · exact ⟨by decide, by simp [HeapOk, writerInit], by decide, by simp [Delivers]⟩
    · simp [Sending.Ok, Delivers])

end Go2Cloud.RoundTrip
