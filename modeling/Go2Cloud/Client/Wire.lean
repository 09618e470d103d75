import Go2Cloud.Lib.Framing
import Go2Cloud.Protocol
import Mathlib.Tactic.Linarith

/-! Framing and sending (client/wire.c). The zstd library is a parameter; what
the client and the receiver rely on is `Zstd.Lawful`. A socket is a script of
send() results, after which it takes whatever is offered. -/
namespace Go2Cloud.Wire
open Bytes Protocol

inductive ContentSize where
  | error
  | unknown
  | known (size : Nat)
  deriving DecidableEq, Repr

/-- ZSTD_compress, ZSTD_getFrameContentSize and ZSTD_decompress; `none` is an
error code. The first argument of both coders is the destination capacity. -/
structure Zstd where
  compress : Nat → List UInt8 → Int → Option (List UInt8)
  frameContentSize : List UInt8 → ContentSize
  decompress : Nat → List UInt8 → Option (List UInt8)

-- scratch buffer of one pool connection (client/pool.h)
def sendScratchSize : Nat := 0x130000

def zstdCompressBound (srcSize : Nat) : Nat := srcSize + srcSize / 8 + 64

/-- Documented behaviour of the library, for sources of less than 2 MiB and a
destination of ZSTD_COMPRESS_BOUND bytes. -/
structure Zstd.Lawful (z : Zstd) : Prop where
  compresses : ∀ src level, src.length < 2 ^ 21 →
    ∃ c, z.compress (zstdCompressBound src.length) src level = some c
  bounded : ∀ src level c, src.length < 2 ^ 21 →
    z.compress (zstdCompressBound src.length) src level = some c →
      c.length ≤ zstdCompressBound src.length
  sized : ∀ src level c, src.length < 2 ^ 21 →
    z.compress (zstdCompressBound src.length) src level = some c →
      z.frameContentSize c = .known src.length
  inverts : ∀ src level c, src.length < 2 ^ 21 →
    z.compress (zstdCompressBound src.length) src level = some c →
      z.decompress src.length c = some src
  empty : z.frameContentSize [] = .error
  capped : ∀ cap src out, z.decompress cap src = some out → out.length ≤ cap

def contentSizeField (n : Nat) : List UInt8 :=
  if n < 256 then 0x20 :: beBytes 1 n else 0xa0 :: (beBytes 4 n).reverse

def storedFrame (src : List UInt8) : List UInt8 :=
  0x28 :: 0xb5 :: 0x2f :: 0xfd ::
    (contentSizeField src.length ++ ((beBytes 3 (8 * src.length + 1)).reverse ++ src))

def storedHeader : List UInt8 → Option (Nat × List UInt8)
  | 0x28 :: 0xb5 :: 0x2f :: 0xfd :: 0x20 :: rest =>
    if rest.length < 1 then none else some (beValue (rest.take 1), rest.drop 1)
  | 0x28 :: 0xb5 :: 0x2f :: 0xfd :: 0xa0 :: rest =>
    if rest.length < 4 then none else some (beValue (rest.take 4).reverse, rest.drop 4)
  | _ => none

/-- The part of zstd that only stores. -/
def storedZstd : Zstd where
  compress := fun cap src _ =>
    if (storedFrame src).length ≤ cap then some (storedFrame src) else none
  frameContentSize := fun src =>
    match storedHeader src with
    | none => .error
    | some (size, _) => .known size
  decompress := fun cap src =>
    match storedHeader src with
    | none => none
    | some (_, blocks) => if (blocks.drop 3).length ≤ cap then some (blocks.drop 3) else none

theorem storedHeader_storedFrame {src : List UInt8} (h : src.length < 2 ^ 21) :
    storedHeader (storedFrame src) =
      some (src.length, (beBytes 3 (8 * src.length + 1)).reverse ++ src) := by
  unfold storedFrame contentSizeField
  split
  next short =>
    have size : beValue (beBytes 1 src.length) = src.length :=
      beValue_beBytes_of_lt (by omega)
    simp only [List.cons_append, storedHeader]
    rw [if_neg (by simp), List.take_left' (beBytes_length 1 _), List.drop_left' (beBytes_length 1 _),
      size]
  next long =>
    have size : beValue (beBytes 4 src.length) = src.length :=
      beValue_beBytes_of_lt (by norm_num at h ⊢; omega)
    have four : (beBytes 4 src.length).reverse.length = 4 := by simp
    simp only [List.cons_append, storedHeader]
    rw [if_neg (by simp), List.take_left' four, List.drop_left' four, List.reverse_reverse, size]

theorem storedFrame_length_le (src : List UInt8) :
    (storedFrame src).length ≤ zstdCompressBound src.length := by
  unfold storedFrame contentSizeField zstdCompressBound
  split <;> simp <;> omega

theorem storedZstd_compress {src c : List UInt8} {cap : Nat} {level : Int}
    (h : storedZstd.compress cap src level = some c) : c = storedFrame src := by
  simp only [storedZstd] at h
  split at h
  · exact (Option.some.inj h).symm
  · simp at h

theorem storedZstd_lawful : storedZstd.Lawful where
  compresses := by
    intro src level _
    exact ⟨storedFrame src, if_pos (storedFrame_length_le src)⟩
  bounded := by
    intro src level c _ h
    rw [storedZstd_compress h]
    exact storedFrame_length_le src
  sized := by
    intro src level c small h
    simp only [storedZstd_compress h, storedZstd, storedHeader_storedFrame small]
  inverts := by
    intro src level c small h
    have three : (beBytes 3 (8 * src.length + 1)).reverse.length = 3 := by simp
    simp only [storedZstd_compress h, storedZstd, storedHeader_storedFrame small]
    rw [List.drop_left' three, if_pos le_rfl]
  empty := rfl
  capped := by
    intro cap src out h
    simp only [storedZstd] at h
    split at h
    · simp at h
    · split at h
      next fits =>
        rw [← Option.some.inj h]
        exact fits
      · simp at h

inductive SendResult where
  | sent (n : Nat)
  | wouldBlock
  | error
  deriving DecidableEq, Repr

structure SendOutcome where
  ok : Bool
  accepted : List UInt8
  script : List SendResult
  deriving DecidableEq, Repr

def sendAll : List SendResult → List UInt8 → SendOutcome
  | script, [] => ⟨true, [], script⟩
  | [], data => ⟨true, data, []⟩
  | .wouldBlock :: script, data => sendAll script data
  | .error :: script, _ => ⟨false, [], script⟩
  | .sent n :: script, data =>
    if n = 0 then ⟨false, [], script⟩
    else
      let rest := sendAll script (data.drop n)
      { rest with accepted := data.take n ++ rest.accepted }

def frame (payload : List UInt8) : List UInt8 :=
  beBytes tcpFrameHeaderSize payload.length ++ payload

def wireSend (z : Zstd) (level : Int) (msg : List UInt8) (scratchCap : Nat)
    (script : List SendResult) : SendOutcome :=
  let zstdBound := zstdCompressBound msg.length
  if zstdBound + frameMagicLen + tcpFrameHeaderSize > scratchCap then ⟨false, [], script⟩
  else
    match z.compress zstdBound msg level with
    | none => ⟨false, [], script⟩
    | some compressed => sendAll script (frame (frameMagic ++ compressed))

def wireSendControl (c : Control) (script : List SendResult) : SendOutcome :=
  -- header and text go out in two send_all calls
  let header := sendAll script (beBytes tcpFrameHeaderSize c.len)
  if header.ok then
    let text := sendAll header.script c.bytes
    { text with accepted := header.accepted ++ text.accepted }
  else header

def Delivers (script : List SendResult) : Prop :=
  ∀ r ∈ script, r = .wouldBlock ∨ ∃ n, 0 < n ∧ r = .sent n

/-- Whatever the short counts and EAGAIN results, the socket accepts the data
once and in order. -/
theorem sendAll_delivers {script : List SendResult} (h : Delivers script) (data : List UInt8) :
    (sendAll script data).ok = true ∧ (sendAll script data).accepted = data ∧
      Delivers (sendAll script data).script := by
  induction script generalizing data with
  | nil => cases data <;> simp [sendAll, Delivers]
  | cons result script ih =>
    have later : Delivers script := fun r hr => h r (List.mem_cons_of_mem _ hr)
    cases data with
    | nil => exact ⟨rfl, rfl, h⟩
    | cons b data =>
      rcases h result (List.mem_cons_self ..) with rfl | ⟨n, positive, rfl⟩
      · exact ih later (b :: data)
      · obtain ⟨ok, accepted, rest⟩ := ih later ((b :: data).drop n)
        have nonzero : n ≠ 0 := by omega
        simp only [sendAll, if_neg nonzero]
        exact ⟨ok, by rw [accepted, List.take_append_drop], rest⟩

theorem sendAll_within (script : List SendResult) (data : List UInt8) :
    (sendAll script data).accepted <+: data := by
  fun_induction sendAll script data with
  | case1 => exact List.nil_prefix
  | case2 => exact List.prefix_refl _
  | case3 _ _ _ ih => exact ih
  | case4 => exact List.nil_prefix
  | case5 => exact List.nil_prefix
  | case6 n script data nonempty positive rest ih => exact Framing.take_append_within ih

theorem sendAll_accepted {script : List SendResult} {data : List UInt8}
    (h : (sendAll script data).ok = true) : (sendAll script data).accepted = data := by
  fun_induction sendAll script data with
  | case1 => rfl
  | case2 => rfl
  | case3 _ _ _ ih => exact ih h
  | case4 => simp at h
  | case5 => simp at h
  | case6 n script data nonempty positive rest ih =>
    simp only [rest, ih h, List.take_append_drop]

def FailsAtOnce : List SendResult → Prop
  | [] => False
  | .wouldBlock :: script => FailsAtOnce script
  | .error :: _ => True
  | .sent n :: _ => n = 0

instance decidableFailsAtOnce : (script : List SendResult) → Decidable (FailsAtOnce script)
  | [] => .isFalse id
  | .wouldBlock :: script => decidableFailsAtOnce script
  | .error :: _ => .isTrue trivial
  | .sent n :: _ => inferInstanceAs (Decidable (n = 0))

theorem sendAll_accepted_eq_nil (script : List SendResult) {data : List UInt8} (h : data ≠ []) :
    (sendAll script data).accepted = [] ↔ FailsAtOnce script := by
  fun_induction sendAll script data with
  | case1 => contradiction
  | case2 => simpa [FailsAtOnce] using h
  | case3 _ _ _ ih => exact ih h
  | case4 => simp [FailsAtOnce]
  | case5 => simp [FailsAtOnce]
  | case6 n script data nonempty positive rest ih => simp [FailsAtOnce, positive, h]

def wireFrame (z : Zstd) (level : Int) (msg : List UInt8) (scratchCap : Nat) :
    Option (List UInt8) :=
  if zstdCompressBound msg.length + frameMagicLen + tcpFrameHeaderSize > scratchCap then none
  else (z.compress (zstdCompressBound msg.length) msg level).map fun compressed =>
    frame (frameMagic ++ compressed)

theorem wireSend_eq_sendAll {z : Zstd} {level : Int} {msg data : List UInt8} {scratchCap : Nat}
    (h : wireFrame z level msg scratchCap = some data) (script : List SendResult) :
    wireSend z level msg scratchCap script = sendAll script data := by
  unfold wireFrame at h
  split at h
  · simp at h
  next room =>
    obtain ⟨compressed, zstd, rfl⟩ := Option.map_eq_some_iff.mp h
    simp only [wireSend, if_neg room, zstd]

theorem frame_ne_nil (payload : List UInt8) : frame payload ≠ [] := by
  intro empty
  have := congrArg List.length empty
  simp [frame, tcpFrameHeaderSize] at this

theorem wireFrame_ne_nil {z : Zstd} {level : Int} {msg data : List UInt8} {scratchCap : Nat}
    (h : wireFrame z level msg scratchCap = some data) : data ≠ [] := by
  unfold wireFrame at h
  split at h
  · simp at h
  · obtain ⟨compressed, -, rfl⟩ := Option.map_eq_some_iff.mp h
    exact frame_ne_nil _

theorem wireSendControl_within (c : Control) (script : List SendResult) :
    (wireSendControl c script).accepted <+: frame c.bytes := by
  have header := sendAll_within script (beBytes tcpFrameHeaderSize c.len)
  simp only [wireSendControl, frame, Control.bytes_length]
  split
  next ok =>
    rw [sendAll_accepted ok]
    exact (List.prefix_append_right_inj _).mpr (sendAll_within _ _)
  · exact header.trans (List.prefix_append _ _)

theorem wireSendControl_accepted_eq_nil (c : Control) (script : List SendResult) :
    (wireSendControl c script).accepted = [] ↔ FailsAtOnce script := by
  have nonempty : beBytes tcpFrameHeaderSize c.len ≠ [] := by
    intro empty
    have := congrArg List.length empty
    simp [tcpFrameHeaderSize] at this
  rw [← sendAll_accepted_eq_nil script nonempty]
  simp only [wireSendControl]
  split
  next ok => simp [sendAll_accepted ok, nonempty]
  · rfl

theorem wireSend_delivers {z : Zstd} (hz : z.Lawful) (level : Int) {msg : List UInt8}
    (len : msg.length < 2 ^ 21) {scratchCap : Nat}
    (room : zstdCompressBound msg.length + 7 ≤ scratchCap)
    {script : List SendResult} (h : Delivers script) :
    ∃ c, z.compress (zstdCompressBound msg.length) msg level = some c ∧
      (wireSend z level msg scratchCap script).ok = true ∧
      (wireSend z level msg scratchCap script).accepted = frame (frameMagic ++ c) ∧
      Delivers (wireSend z level msg scratchCap script).script := by
  obtain ⟨c, compressed⟩ := hz.compresses msg level len
  have fits : ¬ zstdCompressBound msg.length + frameMagicLen + tcpFrameHeaderSize > scratchCap := by
    simp only [frameMagicLen, tcpFrameHeaderSize]
    omega
  obtain ⟨ok, accepted, rest⟩ := sendAll_delivers h (frame (frameMagic ++ c))
  refine ⟨c, compressed, ?_⟩
  simp only [wireSend, if_neg fits, compressed]
  exact ⟨ok, accepted, rest⟩

theorem wireSendControl_delivers (c : Control) {script : List SendResult} (h : Delivers script) :
    (wireSendControl c script).ok = true ∧ (wireSendControl c script).accepted = frame c.bytes ∧
      Delivers (wireSendControl c script).script := by
  obtain ⟨ok, accepted, rest⟩ := sendAll_delivers h (beBytes tcpFrameHeaderSize c.len)
  obtain ⟨ok', accepted', rest'⟩ := sendAll_delivers rest c.bytes
  simp only [wireSendControl, ok, if_true]
  exact ⟨ok', by rw [accepted, accepted', frame, Control.bytes_length], rest'⟩

end Go2Cloud.Wire
