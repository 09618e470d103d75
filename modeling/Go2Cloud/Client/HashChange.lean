import Go2Cloud.Client.Hash
import Go2Cloud.Lib.Words
import Mathlib.Data.Nat.ModEq
import Mathlib.Tactic.IntervalCases

/-! Which single-byte changes of a block the hash notices. The four lanes never
merge two states, so a change goes unnoticed only where the word it is in is not
read, or where its product with HASH_MUL, an even number, stays the same. -/
namespace Go2Cloud.Hash
open Bytes Words Function

theorem hashRot_inverse : hashRot * 0xbd9325dff2ad473d = 1 := by decide

theorem mixLane_injective (input : UInt64) : Injective fun lane => mixLane lane input := by
  intro lane lane' same
  have sums := rotate_injective (mul_injective hashRot_inverse same)
  exact (UInt64.add_left_inj _).mp sums

theorem mixLane_input_iff (lane input input' : UInt64) :
    mixLane lane input = mixLane lane input' ↔ input * hashMul = input' * hashMul := by
  constructor
  · intro same
    have sums := rotate_injective (mul_injective hashRot_inverse same)
    exact (UInt64.add_right_inj _).mp sums
  · intro same
    rw [mixLane, mixLane, same]

theorem fmix64_injective : Injective fmix64 := by
  intro h h' same
  have first : (0xff51afd7ed558ccd : UInt64) * 0x4f74430c22a54005 = 1 := by decide
  have second : (0xc4ceb9fe1a85ec53 : UInt64) * 0x9cb4b2f8129337db = 1 := by decide
  have unmixed := mul_injective second (xorShift_injective same)
  exact xorShift_injective (mul_injective first (xorShift_injective unmixed))

theorem finish_lane_iff (result lane lane' : UInt64) :
    finish result lane = finish result lane' ↔ lane = lane' := by
  refine ⟨fun same => ?_, fun same => by rw [same]⟩
  have mixed := mul_injective hashRot_inverse ((UInt64.add_left_inj _).mp same)
  exact fmix64_injective ((UInt64.xor_right_inj _).mp mixed)

theorem finish_result_iff (result result' lane : UInt64) :
    finish result lane = finish result' lane ↔ result = result' := by
  refine ⟨fun same => ?_, fun same => by rw [same]⟩
  have mixed := mul_injective hashRot_inverse ((UInt64.add_left_inj _).mp same)
  exact (UInt64.xor_left_inj _).mp mixed

def Lanes.lane (l : Lanes) : Fin 4 → UInt64
  | 0 => l.hash
  | 1 => l.stateB
  | 2 => l.stateC
  | 3 => l.stateD

def Lanes.result (l : Lanes) : UInt64 :=
  finish (finish (finish (finish hashXorConst l.hash) l.stateB) l.stateC) l.stateD

theorem Lanes.result_eq_iff {l l' : Lanes} (k : Fin 4) (others : ∀ j, j ≠ k → l.lane j = l'.lane j) :
    l.result = l'.result ↔ l.lane k = l'.lane k := by
  unfold Lanes.result
  match k, others with
  | 0, same =>
    have b : l.stateB = l'.stateB := same 1 (by decide)
    have c : l.stateC = l'.stateC := same 2 (by decide)
    have d : l.stateD = l'.stateD := same 3 (by decide)
    rw [b, c, d, finish_result_iff, finish_result_iff, finish_result_iff, finish_lane_iff]
    rfl
  | 1, same =>
    have a : l.hash = l'.hash := same 0 (by decide)
    have c : l.stateC = l'.stateC := same 2 (by decide)
    have d : l.stateD = l'.stateD := same 3 (by decide)
    rw [a, c, d, finish_result_iff, finish_result_iff, finish_lane_iff]
    rfl
  | 2, same =>
    have a : l.hash = l'.hash := same 0 (by decide)
    have b : l.stateB = l'.stateB := same 1 (by decide)
    have d : l.stateD = l'.stateD := same 3 (by decide)
    rw [a, b, d, finish_result_iff, finish_lane_iff]
    rfl
  | 3, same =>
    have a : l.hash = l'.hash := same 0 (by decide)
    have b : l.stateB = l'.stateB := same 1 (by decide)
    have c : l.stateC = l'.stateC := same 2 (by decide)
    rw [a, b, c, finish_lane_iff]
    rfl

theorem foldl_mixWords_lane (data : List UInt8) (n : Nat) (start : Lanes) (k : Fin 4) :
    ((List.range n).foldl (mixWords data) start).lane k =
      (List.range n).foldl (fun lane i => mixLane lane (word data (4 * i + k))) (start.lane k) := by
  induction n with
  | zero => rfl
  | succ n ih =>
    rw [List.range_succ, List.foldl_append, List.foldl_append, List.foldl_cons, List.foldl_cons,
      List.foldl_nil, List.foldl_nil, ← ih]
    match k with
    | 0 | 1 | 2 | 3 => rfl

section Change
variable (before after : List UInt8)

theorem word_other (x y : UInt8) {i : Nat} (h : i ≠ before.length / 8) :
    word (before ++ x :: after) i = word (before ++ y :: after) i := by
  have chunk : ((before ++ x :: after).drop (8 * i)).take 8 =
      ((before ++ y :: after).drop (8 * i)).take 8 := by
    rcases Nat.lt_or_gt_of_ne h with earlier | later
    · have inside : 8 * i + 8 ≤ before.length := by omega
      rw [List.drop_append_of_le_length (by omega), List.drop_append_of_le_length (by omega),
        List.take_append_of_le_length (by rw [List.length_drop]; omega),
        List.take_append_of_le_length (by rw [List.length_drop]; omega)]
    · obtain ⟨n, past⟩ : ∃ n, 8 * i = before.length + (n + 1) := ⟨8 * i - before.length - 1, by omega⟩
      rw [past, List.drop_length_add_append, List.drop_length_add_append, List.drop_succ_cons,
        List.drop_succ_cons]
  rw [word, word, chunk]

theorem word_changed : ∃ rest, ∀ x, word (before ++ x :: after) (before.length / 8) =
    UInt64.ofNat (rest + x.toNat * 256 ^ (before.length % 8)) := by
  have start : 8 * (before.length / 8) ≤ before.length := by omega
  refine ⟨beValue (after.take (7 - before.length % 8)).reverse * 256 ^ (before.length % 8 + 1) +
    beValue (before.drop (8 * (before.length / 8))).reverse, fun x => ?_⟩
  have chunk : ((before ++ x :: after).drop (8 * (before.length / 8))).take 8 =
      before.drop (8 * (before.length / 8)) ++ x :: after.take (7 - before.length % 8) := by
    rw [List.drop_append_of_le_length start, List.take_append, List.length_drop,
      List.take_of_length_le (by rw [List.length_drop]; omega),
      show 8 - (before.length - 8 * (before.length / 8)) = 7 - before.length % 8 + 1 by omega,
      List.take_succ_cons]
  have low : (before.drop (8 * (before.length / 8))).reverse.length = before.length % 8 := by
    rw [List.length_reverse, List.length_drop]
    omega
  rw [word, chunk, List.reverse_append, List.reverse_cons, List.append_assoc, List.singleton_append,
    beValue_append, beValue, List.length_cons, low]
  congr 1
  ring

end Change

theorem mul_hashMul_iff (w w' : UInt64) : w * hashMul = w' * hashMul ↔ w * 2 = w' * 2 := by
  -- HASH_MUL is twice an odd number, so only the words modulo 2^63 count
  have half : hashMul * 0xee2223920cc49b21 = 2 := by decide
  have double : (2 : UInt64) * 0x615a68d9eaa6a8e1 = hashMul := by decide
  constructor
  · intro same
    rw [← half, ← UInt64.mul_assoc, same, UInt64.mul_assoc]
  · intro same
    rw [← double, ← UInt64.mul_assoc, same, UInt64.mul_assoc]

theorem double_eq_iff {x y : UInt8} (differ : x ≠ y) (rest : Nat) {m : Nat} (place : m < 8) :
    UInt64.ofNat (rest + x.toNat * 256 ^ m) * 2 = UInt64.ofNat (rest + y.toNat * 256 ^ m) * 2 ↔
      m = 7 ∧ y = x + 128 := by
  -- only the top bit of a word is lost by doubling it
  have hx := x.toNat_lt
  have hy := y.toNat_lt
  have values : x.toNat ≠ y.toNat := fun same => differ (UInt8.toNat_inj.mp same)
  rw [← UInt64.toNat_inj, ← UInt8.toNat_inj]
  simp only [UInt64.toNat_mul, UInt64.toNat_ofNat', UInt64.reduceToNat, UInt8.toNat_add,
    UInt8.reduceToNat]
  interval_cases m <;> norm_num <;> omega

def hashRounds (len : Nat) : Nat := (len / 8 - if len % 8 = 0 then 4 else 0) / 4

def startLanes (seed : UInt64) : Lanes :=
  ⟨seed + hashInitA, seed + hashInitB, seed + hashInitC, seed⟩

def hashLanes (data : List UInt8) (seed : UInt64) : Lanes :=
  (List.range (hashRounds data.length)).foldl (mixWords data) (startLanes seed)

theorem hashBlock_long {data : List UInt8} (long : 32 ≤ data.length) (seed : UInt64) :
    hashBlock data seed = (hashLanes data seed).result + UInt64.ofNat data.length := by
  rw [hashBlock, if_neg (by omega)]
  rfl

theorem hashLanes_lane (data : List UInt8) (seed : UInt64) (k : Fin 4) :
    (hashLanes data seed).lane k = (List.range (hashRounds data.length)).foldl
      (fun lane i => mixLane lane (word data (4 * i + k))) ((startLanes seed).lane k) :=
  foldl_mixWords_lane data _ _ k

section OneWord
variable (seed : UInt64) {data data' : List UInt8} (length : data'.length = data.length)
include length

theorem hashLanes_lane_congr {k : Fin 4}
    (same : ∀ i < hashRounds data.length, word data (4 * i + k) = word data' (4 * i + k)) :
    (hashLanes data seed).lane k = (hashLanes data' seed).lane k := by
  rw [hashLanes_lane, hashLanes_lane, length]
  exact foldl_range_congr mixLane same _

theorem hashBlock_congr (long : 32 ≤ data.length)
    (same : ∀ i < 4 * hashRounds data.length, word data i = word data' i) :
    hashBlock data seed = hashBlock data' seed := by
  have lanes : ∀ k, (hashLanes data seed).lane k = (hashLanes data' seed).lane k := fun k =>
    hashLanes_lane_congr seed length fun i hi => same _ (by omega)
  rw [hashBlock_long long, hashBlock_long (length ▸ long), length, UInt64.add_left_inj]
  exact (Lanes.result_eq_iff 0 fun k _ => lanes k).mpr (lanes 0)

theorem hashBlock_eq_iff_double (long : 32 ≤ data.length) {j : Nat}
    (read : j < 4 * hashRounds data.length)
    (others : ∀ i < 4 * hashRounds data.length, i ≠ j → word data i = word data' i) :
    hashBlock data seed = hashBlock data' seed ↔ word data j * 2 = word data' j * 2 := by
  let k : Fin 4 := ⟨j % 4, Nat.mod_lt _ (by decide)⟩
  have lane : k.val = j % 4 := rfl
  have place : 4 * (j / 4) + k.val = j := by omega
  have unchanged : ∀ m, m ≠ k → (hashLanes data seed).lane m = (hashLanes data' seed).lane m := by
    intro m other
    refine hashLanes_lane_congr seed length fun i hi => others _ (by omega) fun hit => ?_
    exact other (Fin.ext (by omega))
  rw [hashBlock_long long, hashBlock_long (length ▸ long), length, UInt64.add_left_inj,
    Lanes.result_eq_iff k unchanged, hashLanes_lane, hashLanes_lane, length,
    foldl_range_eq_iff mixLane_injective (j := j / 4) (by omega)
      (fun i hi other => others _ (by omega) (by omega)),
    mixLane_input_iff, mul_hashMul_iff, place]

end OneWord

theorem double_eq_iff_mod (w w' : UInt64) :
    w * 2 = w' * 2 ↔ w.toNat ≡ w'.toNat [MOD 2 ^ 63] := by
  have hw := w.toNat_lt
  have hw' := w'.toNat_lt
  have two : (2 : UInt64).toNat = 2 := rfl
  rw [← UInt64.toNat_inj, UInt64.toNat_mul, UInt64.toNat_mul, Nat.ModEq, two]
  omega

/-- Two blocks of the same length, at least 32, that differ at most in one of the words the
main loop reads: their hashes are equal exactly when these words agree modulo 2^63. -/
theorem hashBlock_eq_iff_word (seed : UInt64) (data data' : List UInt8) (j : Nat)
    (length : data'.length = data.length) (long : 32 ≤ data.length)
    (read : j < 4 * hashRounds data.length)
    (others : ∀ i < 4 * hashRounds data.length, i ≠ j → word data i = word data' i) :
    hashBlock data seed = hashBlock data' seed ↔
      (word data j).toNat ≡ (word data' j).toNat [MOD 2 ^ 63] := by
  rw [hashBlock_eq_iff_double seed length long read others]
  exact double_eq_iff_mod _ _

/-- The top bit of the first word does not count, its lowest bit does. -/
theorem hashBlock_eq_iff_word_first :
    hashBlock (List.replicate 64 0) 7 = hashBlock (List.replicate 7 0 ++ 128 :: List.replicate 56 0) 7 ∧
      hashBlock (List.replicate 64 0) 7 ≠ hashBlock (1 :: List.replicate 63 0) 7 :=
  ⟨(hashBlock_eq_iff_word 7 _ _ 0 (by decide) (by decide) (by decide) (by decide)).mpr (by decide),
    mt (hashBlock_eq_iff_word 7 _ _ 0 (by decide) (by decide) (by decide) (by decide)).mp (by decide)⟩

section OneByte
variable (seed : UInt64) (before after : List UInt8) {x y : UInt8}

/-- The hash of a block of at least 32 bytes notices a change of one byte exactly
when the byte is among those the main loop reads and is not the last of its word
changed in its top bit only. -/
theorem hashBlock_ne_iff (differ : x ≠ y) (long : 32 ≤ (before ++ x :: after).length) :
    hashBlock (before ++ x :: after) seed ≠ hashBlock (before ++ y :: after) seed ↔
      before.length < 32 * hashRounds (before ++ x :: after).length ∧
        ¬ (before.length % 8 = 7 ∧ y = x + 128) := by
  have length : (before ++ y :: after).length = (before ++ x :: after).length := by simp
  have others : ∀ i, i ≠ before.length / 8 →
      word (before ++ x :: after) i = word (before ++ y :: after) i := fun i =>
    word_other before after x y
  by_cases read : before.length < 32 * hashRounds (before ++ x :: after).length
  · obtain ⟨rest, value⟩ := word_changed before after
    rw [ne_eq, hashBlock_eq_iff_double seed length long (j := before.length / 8) (by omega)
      (fun i _ => others i), value, value, double_eq_iff differ rest (Nat.mod_lt _ (by decide))]
    exact ⟨fun seen => ⟨read, seen⟩, fun seen => seen.2⟩
  · have same := hashBlock_congr seed length long fun i hi => others i (by omega)
    exact ⟨fun seen => absurd same seen, fun seen => absurd seen.1 read⟩

end OneByte

theorem hashBlock_ne_first_byte :
    hashBlock (0 :: List.replicate 63 0) 0 ≠ hashBlock (1 :: List.replicate 63 0) 0 :=
  (hashBlock_ne_iff 0 [] (List.replicate 63 0) (by decide) (by decide)).mpr (by decide)

/-- Two changes that go unnoticed: the last byte of 32, and the top bit of the
first word of 64. -/
theorem hashBlock_misses_byte :
    hashBlock (List.replicate 31 0 ++ [0]) 0 = hashBlock (List.replicate 31 0 ++ [1]) 0 ∧
      hashBlock (List.replicate 7 0 ++ 0 :: List.replicate 56 0) 0 =
        hashBlock (List.replicate 7 0 ++ 128 :: List.replicate 56 0) 0 := by
  decide +kernel

end Go2Cloud.Hash
