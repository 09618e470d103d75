import Mathlib.Data.List.Basic
import Mathlib.Tactic.Ring
import Mathlib.Tactic.NormNum

/-! Fixed-width byte strings: big-endian and little-endian digits of a natural
number, and the two's-complement reading of a byte string. A width counts bytes. -/
namespace Go2Cloud.Bytes

def beBytes : (width : Nat) → Nat → List UInt8
  | 0, _ => []
  | width + 1, n => UInt8.ofNat (n / 256 ^ width) :: beBytes width n

def beValue : List UInt8 → Nat
  | [] => 0
  | b :: rest => b.toNat * 256 ^ rest.length + beValue rest

@[simp] theorem beBytes_length (width n : Nat) : (beBytes width n).length = width := by
  induction width with
  | zero => rfl
  | succ width ih => simp [beBytes, ih]

theorem beValue_beBytes (width n : Nat) : beValue (beBytes width n) = n % 256 ^ width := by
  induction width with
  | zero => simp [beBytes, beValue, Nat.mod_one]
  | succ width ih =>
    have digit : (UInt8.ofNat (n / 256 ^ width)).toNat = n / 256 ^ width % 256 := by simp
    rw [beBytes, beValue, beBytes_length, ih, digit, pow_succ, Nat.mod_mul]
    ring

theorem beValue_append (u v : List UInt8) :
    beValue (u ++ v) = beValue u * 256 ^ v.length + beValue v := by
  induction u with
  | nil => simp [beValue]
  | cons b u ih =>
    rw [List.cons_append, beValue, beValue, ih, List.length_append, pow_add]
    ring

theorem beValue_beBytes_of_lt {width n : Nat} (h : n < 256 ^ width) :
    beValue (beBytes width n) = n := by
  rw [beValue_beBytes, Nat.mod_eq_of_lt h]

def signedValue (bytes : List UInt8) : Int :=
  (beValue bytes : Int).bmod (256 ^ bytes.length)

def signedBytes (width : Nat) (v : Int) : List UInt8 :=
  beBytes width (v % (256 ^ width : Nat)).toNat

@[simp] theorem signedBytes_length (width : Nat) (v : Int) :
    (signedBytes width v).length = width := by
  simp [signedBytes]

theorem signedValue_signedBytes (width : Nat) (v : Int)
    (low : -((256 ^ width : Nat) : Int) ≤ v * 2) (high : v * 2 < ((256 ^ width : Nat) : Int)) :
    signedValue (signedBytes width v) = v := by
  have pos : (0 : Int) < ((256 ^ width : Nat) : Int) := by positivity
  have nonneg := Int.emod_nonneg v (ne_of_gt pos)
  have below := Int.emod_lt_of_pos v pos
  have value : (beValue (signedBytes width v) : Int) = v % ((256 ^ width : Nat) : Int) := by
    rw [signedBytes, beValue_beBytes_of_lt (by omega)]
    exact Int.toNat_of_nonneg nonneg
  rw [signedValue, signedBytes_length, value, Int.emod_bmod]
  exact Int.bmod_eq_of_le_mul_two low high

theorem signedValue_range (bytes : List UInt8) :
    -((256 ^ bytes.length : Nat) : Int) ≤ signedValue bytes * 2 ∧
      signedValue bytes * 2 < ((256 ^ bytes.length : Nat) : Int) := by
  have pos : 0 < 256 ^ bytes.length := by positivity
  have low := Int.le_bmod (x := beValue bytes) pos
  have high := Int.bmod_lt (x := beValue bytes) pos
  rw [← signedValue] at low high
  generalize 256 ^ bytes.length = m at *
  omega

end Go2Cloud.Bytes
