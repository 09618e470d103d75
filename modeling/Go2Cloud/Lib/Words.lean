import Mathlib.Data.UInt
import Mathlib.Data.List.Basic
import Mathlib.Logic.Function.Basic

/-! Maps on 64-bit words that never merge two words, and folds of maps that never
merge two states. -/
namespace Go2Cloud.Words
open Function

theorem mul_injective {c inverse : UInt64} (h : c * inverse = 1) :
    Injective fun x : UInt64 => x * c := by
  intro x y same
  have back := congrArg (· * inverse) same
  simpa only [UInt64.mul_assoc, h, UInt64.mul_one] using back

theorem xorShift_xorShift (x : UInt64) :
    (x ^^^ (x >>> 33)) ^^^ ((x ^^^ (x >>> 33)) >>> 33) = x := by
  -- two shifts by more than half the width leave nothing, so the map undoes itself
  apply UInt64.toBitVec_inj.mp
  apply BitVec.eq_of_getLsbD_eq
  intro i hi
  have gone : x.toBitVec.getLsbD (33 + (33 + i)) = false := BitVec.getLsbD_of_ge _ _ (by omega)
  simp [gone]

theorem xorShift_injective : Injective fun x : UInt64 => x ^^^ (x >>> 33) := by
  intro x y same
  simp only at same
  rw [← xorShift_xorShift x, same, xorShift_xorShift]

theorem rotate_rotate (x : UInt64) :
    (((x <<< 31) ||| (x >>> 33)) <<< 33) ||| (((x <<< 31) ||| (x >>> 33)) >>> 31) = x := by
  -- the rotation by 31 is undone by the rotation by 33
  apply UInt64.toBitVec_inj.mp
  apply BitVec.eq_of_getLsbD_eq
  intro i hi
  have gone : x.toBitVec.getLsbD (33 + (31 + i)) = false := BitVec.getLsbD_of_ge _ _ (by omega)
  by_cases low : i < 33
  · have inside : 31 + i < 64 := by omega
    have high : ¬ 31 + i < 31 := by omega
    simp [gone, low, inside, high, BitVec.getLsbD_eq_getElem hi]
  · have outside : ¬ 31 + i < 64 := by omega
    have short : i - 33 < 31 := by omega
    have place : 33 + (i - 33) = i := by omega
    simp [gone, low, outside, short, place, hi]

theorem rotate_injective : Injective fun x : UInt64 => (x <<< 31) ||| (x >>> 33) := by
  intro x y same
  simp only at same
  rw [← rotate_rotate x, same, rotate_rotate]

variable {σ β : Type}

theorem foldl_range_congr (step : σ → β → σ) {xs ys : Nat → β} {n : Nat}
    (same : ∀ i < n, xs i = ys i) (s : σ) :
    (List.range n).foldl (fun s i => step s (xs i)) s =
      (List.range n).foldl (fun s i => step s (ys i)) s := by
  induction n with
  | zero => rfl
  | succ n ih =>
    rw [List.range_succ, List.foldl_append, List.foldl_append, List.foldl_cons, List.foldl_cons,
      ih fun i hi => same i (Nat.lt_succ_of_lt hi), same n (Nat.lt_succ_self n)]
    rfl

/-- Where no step merges two states, two folds whose inputs differ at one place
end in the same state exactly when the step at that place gives the same state. -/
theorem foldl_range_eq_iff {step : σ → β → σ} (injective : ∀ b, Injective fun s => step s b)
    {xs ys : Nat → β} {n j : Nat} (inside : j < n) (others : ∀ i < n, i ≠ j → xs i = ys i) (s : σ) :
    (List.range n).foldl (fun s i => step s (xs i)) s =
        (List.range n).foldl (fun s i => step s (ys i)) s ↔
      step ((List.range j).foldl (fun s i => step s (xs i)) s) (xs j) =
        step ((List.range j).foldl (fun s i => step s (xs i)) s) (ys j) := by
  induction n with
  | zero => cases inside
  | succ n ih =>
    rw [List.range_succ, List.foldl_append, List.foldl_append, List.foldl_cons, List.foldl_cons,
      List.foldl_nil, List.foldl_nil]
    rcases Nat.lt_succ_iff_lt_or_eq.mp inside with before | rfl
    · rw [others n (by omega) (by omega), ← ih before fun i hi => others i (by omega)]
      exact (injective (ys n)).eq_iff
    · rw [foldl_range_congr step (fun i hi => others i (by omega) (by omega)) s]

end Go2Cloud.Words
