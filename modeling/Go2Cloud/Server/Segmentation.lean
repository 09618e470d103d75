import Go2Cloud.Server.Decoder

/-! Packet boundaries. The receive buffer holds four MiB and a chunk at most
64 KiB, so the decoder sees the same frames however the stream is cut, as long as
every frame either fits beside one more chunk or is refused by its header. -/
namespace Go2Cloud.Segmentation
open Bytes Protocol Wire Decoder Incremental

-- sizeof(tmp_buf) in handle_session
def recvChunkSize : Nat := 65536

theorem frameLen_append {s : List UInt8} (h : tcpFrameHeaderSize ≤ s.length) (t : List UInt8) :
    frameLen (s ++ t) = frameLen s := by
  rw [frameLen, List.take_append_of_le_length h, frameLen]

theorem frameData_append {s : List UInt8} (h : tcpFrameHeaderSize + frameLen s ≤ s.length)
    (t : List UInt8) : frameData (s ++ t) = frameData s := by
  have header : tcpFrameHeaderSize ≤ s.length := by omega
  have body : frameLen s ≤ (s.drop tcpFrameHeaderSize).length := by
    rw [List.length_drop]
    omega
  rw [frameData, frameLen_append header, List.drop_append_of_le_length header,
    List.take_append_of_le_length body, frameData]

theorem decodeBuffered_tooLarge (z : Zstd) {s : List UInt8} (header : tcpFrameHeaderSize ≤ s.length)
    (large : maxFrameLen < frameLen s) : decodeBuffered z s = (.fail .malformed, s) := by
  rw [decodeBuffered, if_neg (by omega), if_pos large]

theorem decodeBuffered_complete (z : Zstd) {s : List UInt8} (small : frameLen s ≤ maxFrameLen)
    (whole : tcpFrameHeaderSize + frameLen s ≤ s.length) :
    decodeBuffered z s =
      (.ofExcept (decodeFrame z (frameData s)), s.drop (tcpFrameHeaderSize + frameLen s)) := by
  simp only [decodeBuffered]
  rw [if_neg (by omega), if_neg (by omega), if_neg (by omega)]

theorem decodeBuffered_cases (z : Zstd) (s : List UInt8) :
    ((tcpFrameHeaderSize ≤ s.length →
        frameLen s ≤ maxFrameLen ∧ s.length < tcpFrameHeaderSize + frameLen s) ∧
      decodeBuffered z s = (.more, s)) ∨
    (tcpFrameHeaderSize ≤ s.length ∧ maxFrameLen < frameLen s ∧
      decodeBuffered z s = (.fail .malformed, s)) ∨
    (frameLen s ≤ maxFrameLen ∧ tcpFrameHeaderSize + frameLen s ≤ s.length ∧
      decodeBuffered z s = (.ofExcept (decodeFrame z (frameData s)),
        s.drop (tcpFrameHeaderSize + frameLen s))) := by
  by_cases header : tcpFrameHeaderSize ≤ s.length
  · by_cases large : maxFrameLen < frameLen s
    · exact .inr (.inl ⟨header, large, decodeBuffered_tooLarge z header large⟩)
    · by_cases whole : tcpFrameHeaderSize + frameLen s ≤ s.length
      · have small : frameLen s ≤ maxFrameLen := by omega
        exact .inr (.inr ⟨small, whole, decodeBuffered_complete z small whole⟩)
      · refine .inl ⟨fun _ => ⟨by omega, by omega⟩, ?_⟩
        simp only [decodeBuffered]
        rw [if_neg (by omega), if_neg large, if_pos (by omega)]
  · refine .inl ⟨fun h => absurd h header, ?_⟩
    rw [decodeBuffered, if_pos (by omega)]

theorem decodeBuffered_item {z : Zstd} {s r : List UInt8} {m : Msg}
    (h : decodeBuffered z s = (.item m, r)) :
    frameLen s ≤ maxFrameLen ∧ tcpFrameHeaderSize + frameLen s ≤ s.length ∧
      r = s.drop (tcpFrameHeaderSize + frameLen s) := by
  rcases decodeBuffered_cases z s with ⟨-, e⟩ | ⟨-, -, e⟩ | ⟨small, whole, e⟩
  · simp [h] at e
  · simp [h] at e
  · rw [h, Prod.mk.injEq] at e
    exact ⟨small, whole, e.2⟩

theorem decodeBuffered_append {z : Zstd} {s : List UInt8} (t : List UInt8)
    (decided : (decodeBuffered z s).1 ≠ .more) :
    decodeBuffered z (s ++ t) = ((decodeBuffered z s).1, (decodeBuffered z s).2 ++ t) := by
  rcases decodeBuffered_cases z s with ⟨-, e⟩ | ⟨header, large, e⟩ | ⟨small, whole, e⟩
  · exact absurd (congrArg Prod.fst e) decided
  · have same := frameLen_append header t
    rw [e, decodeBuffered_tooLarge z (by rw [List.length_append]; omega) (by omega)]
  · have header : tcpFrameHeaderSize ≤ s.length := by omega
    have same := frameLen_append header t
    rw [e, decodeBuffered_complete z (by omega) (by rw [same, List.length_append]; omega), same,
      frameData_append whole, List.drop_append_of_le_length whole]

theorem decodeBuffered_stable (z : Zstd) : Stable (decodeBuffered z) where
  waits := by
    intro s r h
    rcases decodeBuffered_cases z s with ⟨-, e⟩ | ⟨-, -, e⟩ | ⟨-, -, e⟩
    · rw [h, Prod.mk.injEq] at e
      exact e.2
    · simp [h] at e
    · rw [h] at e
      cases hd : decodeFrame z (frameData s) <;> simp [hd, Outcome.ofExcept] at e
  shrinks := by
    intro s m r h
    obtain ⟨-, whole, rfl⟩ := decodeBuffered_item h
    simp only [List.length_drop, tcpFrameHeaderSize] at whole ⊢
    omega
  item_append := by
    intro s m r t h
    rw [decodeBuffered_append t (by simp [h]), h]
  fail_append := by
    intro s e r t h
    rw [decodeBuffered_append t (by simp [h]), h]

inductive FrameBoundary (stream : List UInt8) : List UInt8 → Prop where
  | start : FrameBoundary stream stream
  | next {s : List UInt8} : FrameBoundary stream s → frameLen s ≤ maxFrameLen →
      tcpFrameHeaderSize + frameLen s ≤ s.length →
      FrameBoundary stream (s.drop (tcpFrameHeaderSize + frameLen s))

/-- Every frame header declares a length that fits beside one more chunk in the
receive buffer, or one that is refused at once. -/
def HeadersOk (stream : List UInt8) : Prop :=
  ∀ s, FrameBoundary stream s → tcpFrameHeaderSize ≤ s.length →
    frameLen s ≤ recvBufSize - recvChunkSize - tcpFrameHeaderSize ∨ maxFrameLen < frameLen s

theorem FrameBoundary.trans {a b c : List UInt8} (h : FrameBoundary a b) (h' : FrameBoundary b c) :
    FrameBoundary a c := by
  induction h' with
  | start => exact h
  | next _ small whole ih => exact ih.next small whole

theorem HeadersOk.of_boundary {a b : List UInt8} (h : HeadersOk a) (hb : FrameBoundary a b) :
    HeadersOk b :=
  fun s hs => h s (hb.trans hs)

theorem HeadersOk.of_append {a b : List UInt8} (h : HeadersOk (a ++ b)) : HeadersOk a := by
  intro s hs header
  have position : FrameBoundary (a ++ b) (s ++ b) := by
    induction hs with
    | start => exact .start
    | @next s _ small whole ih =>
      have header : tcpFrameHeaderSize ≤ s.length := by omega
      have same := frameLen_append header b
      rw [← List.drop_append_of_le_length whole, ← same]
      exact (ih header).next (by omega) (by rw [same, List.length_append]; omega)
  rw [← frameLen_append header b]
  exact h _ position (by rw [List.length_append]; omega)

theorem drain_boundary (z : Zstd) (s t : List UInt8)
    (ok : (drain (decodeBuffered z) s).failed = false) :
    FrameBoundary (s ++ t) ((drain (decodeBuffered z) s).buf ++ t) := by
  have stable := decodeBuffered_stable z
  induction s using drain_induction stable with
  | more s hs => rw [drain_more hs]; exact .start
  | fail s e r hs => simp [drain_fail hs] at ok
  | item s m r hs ih =>
    obtain ⟨small, whole, rfl⟩ := decodeBuffered_item hs
    rw [drain_item stable hs] at ok ⊢
    have header : tcpFrameHeaderSize ≤ s.length := by omega
    have same := frameLen_append header t
    have step : FrameBoundary (s ++ t) (s.drop (tcpFrameHeaderSize + frameLen s) ++ t) := by
      rw [← List.drop_append_of_le_length whole, ← same]
      exact FrameBoundary.start.next (by omega) (by rw [same, List.length_append]; omega)
    exact step.trans (ih ok)

theorem waiting_room {z : Zstd} {buf t : List UInt8} (h : HeadersOk (buf ++ t))
    (waiting : decodeBuffered z buf = (.more, buf)) :
    buf.length + recvChunkSize ≤ recvBufSize := by
  by_cases header : tcpFrameHeaderSize ≤ buf.length
  · have same := frameLen_append header t
    have fits := h _ .start (by rw [List.length_append]; omega)
    rcases decodeBuffered_cases z buf with ⟨short, -⟩ | ⟨-, -, e⟩ | ⟨-, -, e⟩
    · obtain ⟨small, short⟩ := short header
      simp only [recvBufSize, recvChunkSize, tcpFrameHeaderSize] at *
      omega
    · simp [waiting] at e
    · rw [waiting] at e
      cases hd : decodeFrame z (frameData buf) <;> simp [hd, Outcome.ofExcept] at e
  · simp only [recvBufSize, recvChunkSize, tcpFrameHeaderSize] at *
    omega

theorem frameLen_frame {payload : List UInt8} (h : payload.length < 2 ^ 32) (rest : List UInt8) :
    frameLen (frame payload ++ rest) = payload.length := by
  rw [frameLen, frame, List.append_assoc, List.take_left' (beBytes_length _ _),
    beValue_beBytes_of_lt (by simpa [tcpFrameHeaderSize] using h)]

theorem drop_frame (payload rest : List UInt8) :
    (frame payload ++ rest).drop (tcpFrameHeaderSize + payload.length) = rest :=
  List.drop_left' (by simp [frame])

theorem frameData_frame {payload : List UInt8} (h : payload.length < 2 ^ 32) (rest : List UInt8) :
    frameData (frame payload ++ rest) = payload := by
  rw [frameData, frameLen_frame h, frame, List.append_assoc, List.drop_left' (beBytes_length _ _),
    List.take_left' rfl]

theorem headersOk_nil : HeadersOk [] := by
  intro s hs
  have empty : s = [] := by
    induction hs with
    | start => rfl
    | next _ _ _ ih => rw [ih, List.drop_nil]
  simp [empty, tcpFrameHeaderSize]

theorem headersOk_frame {payload rest : List UInt8}
    (fits : payload.length ≤ recvBufSize - recvChunkSize - tcpFrameHeaderSize)
    (h : HeadersOk rest) : HeadersOk (frame payload ++ rest) := by
  have small : payload.length < 2 ^ 32 := by
    simp only [recvBufSize, recvChunkSize, tcpFrameHeaderSize] at fits
    omega
  intro s hs
  have position : s = frame payload ++ rest ∨ FrameBoundary rest s := by
    induction hs with
    | start => exact .inl rfl
    | next _ short whole ih =>
      rcases ih with rfl | later
      · rw [frameLen_frame small, drop_frame]
        exact .inr .start
      · exact .inr (later.next short whole)
  rcases position with rfl | later
  · intro _
    rw [frameLen_frame small]
    exact .inl fits
  · exact h s later

theorem protocolDecode_nil (z : Zstd) (buf : List UInt8) :
    protocolDecode z buf [] = decodeBuffered z buf := by
  simp [protocolDecode]

theorem handleChunk_eq_drain (z : Zstd) {buf chunk : List UInt8}
    (room : buf.length + chunk.length ≤ recvBufSize) :
    handleChunk z buf chunk = drain (decodeBuffered z) (buf ++ chunk) := by
  have appended : protocolDecode z buf chunk = decodeBuffered z (buf ++ chunk) := by
    rw [protocolDecode, if_neg (by omega)]
  have loop : (fun buf => protocolDecode z buf []) = decodeBuffered z :=
    funext (protocolDecode_nil z)
  rw [handleChunk, appended, loop]
  exact drain_eq_drainLoop (decodeBuffered_stable z) (by rw [List.length_append]; omega)

structure SameOutcome (a b : SessionRun) : Prop where
  items : a.items = b.items
  failed : a.failed = b.failed
  buf : a.failed = false → a.buf = b.buf

/-- From any waiting buffer, handling the chunks one by one is draining the
whole stream at once. -/
theorem handleSession_drain (z : Zstd) (buf : List UInt8) (chunks : List (List UInt8))
    (sizes : ∀ chunk ∈ chunks, chunk.length ≤ recvChunkSize)
    (h : HeadersOk (buf ++ chunks.flatten)) (waiting : decodeBuffered z buf = (.more, buf)) :
    SameOutcome (handleSession z buf chunks)
      (drain (decodeBuffered z) (buf ++ chunks.flatten)) := by
  have stable := decodeBuffered_stable z
  induction chunks generalizing buf with
  | nil =>
    rw [List.flatten_nil, List.append_nil, drain_more waiting]
    exact ⟨rfl, rfl, fun _ => rfl⟩
  | cons chunk chunks ih =>
    have room := waiting_room h waiting
    have size := sizes chunk (List.mem_cons_self ..)
    have now := handleChunk_eq_drain z (show buf.length + chunk.length ≤ recvBufSize by omega)
    rw [List.flatten_cons, ← List.append_assoc] at h ⊢
    rw [handleSession]
    cases failed : (handleChunk z buf chunk).failed with
    | true =>
      rw [now] at failed
      obtain ⟨items, failed'⟩ :=
        drain_append_failed stable (buf ++ chunk) chunks.flatten failed
      simp only [if_true, now]
      exact ⟨items.symm, by rw [failed, failed'], fun ok => by simp [failed] at ok⟩
    | false =>
      rw [now] at failed
      have rest := ih _ (fun c hc => sizes c (List.mem_cons_of_mem _ hc))
        (h.of_boundary (drain_boundary z _ _ failed)) (drain_waits stable _ failed)
      rw [drain_append stable _ _ failed]
      simp only [Bool.false_eq_true, if_false, now]
      exact ⟨by simp only [rest.items], rest.failed, rest.buf⟩

structure Segments (stream : List UInt8) (chunks : List (List UInt8)) : Prop where
  joined : chunks.flatten = stream
  nonempty : ∀ chunk ∈ chunks, 1 ≤ chunk.length
  sizes : ∀ chunk ∈ chunks, chunk.length ≤ recvChunkSize

theorem Segments.drain {stream : List UInt8} {chunks : List (List UInt8)}
    (seg : Segments stream chunks) (z : Zstd) (h : HeadersOk stream) :
    SameOutcome (handleSession z [] chunks) (drain (decodeBuffered z) stream) := by
  have empty : decodeBuffered z [] = (.more, []) := rfl
  have run := handleSession_drain z [] chunks seg.sizes (by rw [List.nil_append, seg.joined]; exact h)
    empty
  rwa [List.nil_append, seg.joined] at run

/-- Messages, outcome and leftover do not depend on how the stream was cut. -/
theorem handleSession_segmentation_irrelevant (z : Zstd) (stream : List UInt8)
    (h : HeadersOk stream) (first second : List (List UInt8))
    (hf : Segments stream first) (hs : Segments stream second) :
    (handleSession z [] first).items = (handleSession z [] second).items ∧
      (handleSession z [] first).failed = (handleSession z [] second).failed ∧
      ((handleSession z [] first).failed = false →
        (handleSession z [] first).buf = (handleSession z [] second).buf) := by
  have a := hf.drain z h
  have b := hs.drain z h
  refine ⟨a.items.trans b.items.symm, a.failed.trans b.failed.symm, fun ok => ?_⟩
  exact (a.buf ok).trans (b.buf (by rw [b.failed, ← a.failed, ok])).symm

/-- The end marker's frame, received whole and with the header cut in two. -/
theorem handleSession_segmentation_irrelevant_endMarker :
    (handleSession storedZstd [] [frame Control.endIncremental.bytes]).items =
        (handleSession storedZstd [] [(frame Control.endIncremental.bytes).take 2,
          (frame Control.endIncremental.bytes).drop 2]).items ∧
      (handleSession storedZstd [] [frame Control.endIncremental.bytes]).failed =
        (handleSession storedZstd [] [(frame Control.endIncremental.bytes).take 2,
          (frame Control.endIncremental.bytes).drop 2]).failed ∧
      ((handleSession storedZstd [] [frame Control.endIncremental.bytes]).failed = false →
        (handleSession storedZstd [] [frame Control.endIncremental.bytes]).buf =
          (handleSession storedZstd [] [(frame Control.endIncremental.bytes).take 2,
            (frame Control.endIncremental.bytes).drop 2]).buf) := by
  have headers : HeadersOk (frame Control.endIncremental.bytes) := by
    rw [← List.append_nil (frame _)]
    exact headersOk_frame (by decide) headersOk_nil
  exact handleSession_segmentation_irrelevant storedZstd _ headers _ _
    ⟨by simp, by decide, by decide⟩ ⟨by simp, by decide, by decide⟩

end Go2Cloud.Segmentation
