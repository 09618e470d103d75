import Go2Cloud.Lib.Bytes

/-! Wire constants and message types shared by client and receiver
(include/protocol.h). Sizes are in bytes; both hosts are little-endian. -/
namespace Go2Cloud.Protocol
open Bytes

def tcpFrameHeaderSize : Nat := 4
def frameMagic : List UInt8 := [0x61, 0x62, 0x63]
def frameMagicLen : Nat := 3

def msgpackFixmap3 : UInt8 := 0x93
def msgpackBin8 : UInt8 := 0xc4
def msgpackBin16 : UInt8 := 0xc5
def msgpackBin32 : UInt8 := 0xc6
def msgpackInt8 : UInt8 := 0xd0
def msgpackInt16 : UInt8 := 0xd1
def msgpackInt32 : UInt8 := 0xd2
def msgpackInt64 : UInt8 := 0xd3

def blockSize : Nat := 0x100000
def blockSizeMax : Nat := blockSize
def binlogSizeLimit : Nat := 0x280000000
def socketPoolTarget : Nat := 7
def backpressureQueueDepth : Nat := 40
def retransmitMinIntervalSec : Int := 121
def maxIncrementalRounds : Nat := 60
def convergenceZeroRounds : Nat := 3
def msgpackBufInitialCap : Nat := 0x2000

-- a C string literal as stored: its characters and the terminating zero
def cString (s : String) : List UInt8 := s.toList.map (fun c => UInt8.ofNat c.toNat) ++ [0]

inductive Control where
  | incremental
  | endIncremental
  deriving DecidableEq, Repr

def Control.text : Control → List UInt8
  -- the literal the two ends name for a control message
  | .incremental => cString "ctlIncremental"
  | .endIncremental => cString "ctlEndIncremental"

/-- CTL_INCREMENTAL_LEN counts the terminating zero, CTL_END_INCREMENTAL_LEN does not. -/
def Control.len : Control → Nat
  | .incremental => 15
  | .endIncremental => 17

def Control.bytes (c : Control) : List UInt8 := c.text.take c.len

theorem Control.bytes_length (c : Control) : c.bytes.length = c.len := by
  cases c <;> decide

structure Block where
  devno : Int32
  offset : Int64
  data : List UInt8
  deriving DecidableEq, Repr

def Block.key (b : Block) : Int32 × Int64 := (b.devno, b.offset)

inductive Msg where
  | block (b : Block)
  | control (c : Control)
  deriving DecidableEq, Repr

-- size of the data array of the receiver's decoded_msg_t
def decodedDataCap : Nat := blockSizeMax + 4096

def Msg.DataFits : Msg → Prop
  | .block b => b.data.length ≤ decodedDataCap
  | .control _ => True

instance : (m : Msg) → Decidable m.DataFits
  | .block b => inferInstanceAs (Decidable (b.data.length ≤ decodedDataCap))
  | .control _ => .isTrue trivial

structure ServerResponse where
  type : Int32
  devno : Int32
  size : Int32
  offset : Int64
  deriving DecidableEq, Repr

def serverResponseSize : Nat := 20
def responseAck : Int32 := 0
def responseBinlog : Int32 := 1
def responseServerDone : Int32 := 2
def responseAckAlt : Int32 := 4

def leSigned (width : Nat) (v : Int) : List UInt8 := (signedBytes width v).reverse

def ServerResponse.toBytes (r : ServerResponse) : List UInt8 :=
  leSigned 4 r.type.toInt ++ leSigned 4 r.devno.toInt ++
    leSigned 4 r.size.toInt ++ leSigned 8 r.offset.toInt

def ServerResponse.ofBytes (bytes : List UInt8) : ServerResponse where
  -- the memcpy of SERVER_RESPONSE_SIZE received bytes into a server_response_t
  type := Int32.ofInt (signedValue (bytes.take 4).reverse)
  devno := Int32.ofInt (signedValue ((bytes.drop 4).take 4).reverse)
  size := Int32.ofInt (signedValue ((bytes.drop 8).take 4).reverse)
  offset := Int64.ofInt (signedValue ((bytes.drop 12).take 8).reverse)

@[simp] theorem leSigned_length (width : Nat) (v : Int) : (leSigned width v).length = width := by
  simp [leSigned]

theorem signedValue_int32 (v : Int32) : signedValue (signedBytes 4 v.toInt) = v.toInt := by
  have low := v.le_toInt
  have high := v.toInt_lt
  apply signedValue_signedBytes <;> norm_num at * <;> omega

theorem signedValue_int64 (v : Int64) : signedValue (signedBytes 8 v.toInt) = v.toInt := by
  have low := v.le_toInt
  have high := v.toInt_lt
  apply signedValue_signedBytes <;> norm_num at * <;> omega

theorem ofInt_leSigned_int32 (v : Int32) :
    Int32.ofInt (signedValue (leSigned 4 v.toInt).reverse) = v := by
  rw [leSigned, List.reverse_reverse, signedValue_int32, Int32.ofInt_toInt]

theorem ofInt_leSigned_int64 (v : Int64) :
    Int64.ofInt (signedValue (leSigned 8 v.toInt).reverse) = v := by
  rw [leSigned, List.reverse_reverse, signedValue_int64, Int64.ofInt_toInt]

@[simp] theorem ServerResponse.toBytes_length (r : ServerResponse) :
    r.toBytes.length = serverResponseSize := by
  simp [toBytes, serverResponseSize]

theorem ServerResponse.ofBytes_toBytes (r : ServerResponse) : ofBytes r.toBytes = r := by
  have fields : ∀ a b c d : List UInt8, a.length = 4 → b.length = 4 → c.length = 4 →
      d.length = 8 → (a ++ b ++ c ++ d).take 4 = a ∧ ((a ++ b ++ c ++ d).drop 4).take 4 = b ∧
        ((a ++ b ++ c ++ d).drop 8).take 4 = c ∧ ((a ++ b ++ c ++ d).drop 12).take 8 = d := by
    intro a b c d ha hb hc hd
    refine ⟨?_, ?_, ?_, ?_⟩
    · simp [ha]
    · simp [ha, hb]
    · simp [List.take_append, List.drop_append, ha, hb, hc]
    · rw [List.drop_left' (by simp [ha, hb, hc]), ← hd, List.take_length]
  obtain ⟨ht, hn, hs, ho⟩ := fields (leSigned 4 r.type.toInt) (leSigned 4 r.devno.toInt)
    (leSigned 4 r.size.toInt) (leSigned 8 r.offset.toInt) (by simp) (by simp) (by simp) (by simp)
  rw [ofBytes, toBytes, ht, hn, hs, ho]
  simp only [ofInt_leSigned_int32, ofInt_leSigned_int64]

end Go2Cloud.Protocol
