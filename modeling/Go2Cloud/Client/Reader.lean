import Go2Cloud.Lib.ByteStore
import Go2Cloud.Protocol

/-! Block readers (client/block_io.c): a volume snapshot or a physical drive. -/
namespace Go2Cloud.Reader
open Protocol

abbrev ReadData := {data : List UInt8 // data.length ≤ blockSize}

theorem readData_fits (data : ReadData) : data.1.length ≤ blockSize := data.2

theorem threeBytes_fit : ([1, 2, 3] : List UInt8).length ≤ blockSize := by decide

theorem block_end_le {blk n : Nat} (h : blk < n) : blk * blockSize + blockSize ≤ n * blockSize := by
  have next : (blk + 1) * blockSize ≤ n * blockSize := Nat.mul_le_mul_right _ h
  rwa [Nat.add_mul, Nat.one_mul] at next

theorem block_around {n x : Nat} (h : x < n * blockSize) :
    x / blockSize < n ∧ x / blockSize * blockSize ≤ x ∧
      x < x / blockSize * blockSize + blockSize :=
  ⟨Nat.div_lt_of_lt_mul (Nat.mul_comm n blockSize ▸ h), Nat.div_mul_le_self x blockSize,
    Nat.lt_div_mul_add (by decide)⟩

structure BlockReader where
  totalBytes : Nat
  content : Nat → UInt8

/-- Bytes asked for: the block, or what is left, as a uint64_t difference. -/
def toRead (totalBytes offset : Nat) : Nat :=
  min blockSize ((totalBytes + 2 ^ 64 - offset) % 2 ^ 64)

/-- A read past the end of the device returns no bytes. -/
def blockReaderRead (r : BlockReader) (offset : Nat) : List UInt8 :=
  ByteStore.read r.content offset (min (toRead r.totalBytes offset) (r.totalBytes - offset))

theorem toRead_eq {totalBytes offset : Nat} (h : offset ≤ totalBytes) (size : totalBytes < 2 ^ 64) :
    toRead totalBytes offset = min blockSize (totalBytes - offset) := by
  have split : totalBytes + 2 ^ 64 - offset = (totalBytes - offset) + 2 ^ 64 := by omega
  rw [toRead, split, Nat.add_mod_right, Nat.mod_eq_of_lt (by omega)]

end Go2Cloud.Reader
