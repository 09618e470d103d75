import Mathlib.Data.List.Basic

/-! Images: total maps from addresses to cells, with ranges read and written as
lists of cells. -/
namespace Go2Cloud.ByteStore

variable {α : Type}

def write (img : Nat → α) (pos : Nat) (cells : List α) : Nat → α := fun a =>
  if pos ≤ a then (cells[a - pos]?).getD (img a) else img a

def read (img : Nat → α) (pos len : Nat) : List α := (List.range len).map fun i => img (pos + i)

@[simp] theorem read_length (img : Nat → α) (pos len : Nat) : (read img pos len).length = len := by
  simp [read]

theorem read_getElem? (img : Nat → α) (pos : Nat) {len i : Nat} (h : i < len) :
    (read img pos len)[i]? = some (img (pos + i)) := by
  simp [read, h]

@[simp] theorem write_nil (img : Nat → α) (pos : Nat) : write img pos [] = img := by
  funext a
  simp [write]

theorem write_outside (img : Nat → α) {pos a : Nat} {cells : List α}
    (h : a < pos ∨ pos + cells.length ≤ a) : write img pos cells a = img a := by
  unfold write
  split
  · rw [List.getElem?_eq_none (by omega), Option.getD_none]
  · rfl

theorem write_inside (img : Nat → α) (pos : Nat) {cells : List α} {i : Nat}
    (h : i < cells.length) : write img pos cells (pos + i) = cells[i] := by
  rw [write, if_pos (Nat.le_add_right _ _), Nat.add_sub_cancel_left,
    List.getElem?_eq_getElem h, Option.getD_some]

theorem write_append (img : Nat → α) (pos : Nat) (a b : List α) :
    write img pos (a ++ b) = write (write img pos a) (pos + a.length) b := by
  funext x
  by_cases first : x < pos + a.length
  · rw [write_outside (write img pos a) (.inl first)]
    by_cases low : x < pos
    · rw [write_outside _ (.inl low), write_outside _ (.inl low)]
    · obtain ⟨i, rfl⟩ : ∃ i, x = pos + i := ⟨x - pos, by omega⟩
      have hi : i < a.length := by omega
      rw [write_inside _ _ hi, write_inside _ _ (by rw [List.length_append]; omega),
        List.getElem_append_left hi]
  · have skip : write img pos a x = img x := write_outside _ (.inr (by omega))
    obtain ⟨i, rfl⟩ : ∃ i, x = pos + a.length + i := ⟨x - (pos + a.length), by omega⟩
    rw [write, write, skip, if_pos (by omega), if_pos (by omega)]
    rw [show pos + a.length + i - pos = a.length + i by omega, List.getElem?_append_right (by omega)]
    rw [Nat.add_sub_cancel_left, Nat.add_sub_cancel_left]

theorem read_write_self (img : Nat → α) (pos : Nat) (cells : List α) :
    read (write img pos cells) pos cells.length = cells := by
  apply List.ext_getElem (by simp)
  intro i hi _
  have inside : i < cells.length := by simpa using hi
  simp [read, write_inside img pos inside]

theorem read_eq_read_iff {a b : Nat → α} {pos len : Nat} :
    read a pos len = read b pos len ↔ ∀ i < len, a (pos + i) = b (pos + i) := by
  simp [read]

theorem write_of_read {img src : Nat → α} {pos len : Nat} {cells : List α}
    (h : cells <+: read src pos len) (a : Nat) :
    write img pos cells a = src a ∨ write img pos cells a = img a := by
  by_cases inside : pos ≤ a ∧ a < pos + cells.length
  · left
    obtain ⟨i, rfl⟩ : ∃ i, a = pos + i := ⟨a - pos, by omega⟩
    have hi : i < cells.length := by omega
    rw [write_inside img pos hi, h.getElem hi]
    simp [read]
  · right
    exact write_outside img (by omega)

end Go2Cloud.ByteStore

/-! Half-open intervals of addresses and when a list of them covers another. -/
namespace Go2Cloud.Intervals

structure Interval where
  start : Nat
  stop : Nat
  deriving DecidableEq, Repr

def Interval.Has (r : Interval) (x : Nat) : Prop := r.start ≤ x ∧ x < r.stop

instance (r : Interval) (x : Nat) : Decidable (r.Has x) :=
  inferInstanceAs (Decidable (_ ∧ _))

def Covered (rs : List Interval) (x : Nat) : Prop := ∃ r ∈ rs, r.Has x

/-- A range is covered once its first point is and every interval that ends
inside it is continued by another. -/
theorem covered_iff_continued (rs : List Interval) (a b : Nat) :
    (∀ x, a ≤ x → x < b → Covered rs x) ↔
      ∀ x, (x = a ∨ ∃ r ∈ rs, x = r.stop) → a ≤ x → x < b → Covered rs x := by
  refine ⟨fun h x _ => h x, fun h x => ?_⟩
  induction x with
  | zero => exact fun low high => h 0 (.inl (by omega)) low high
  | succ x ih =>
    intro low high
    by_cases first : x + 1 = a
    · exact h _ (.inl first) low high
    · obtain ⟨r, member, inside⟩ := ih (by omega) (by omega)
      by_cases further : x + 1 < r.stop
      · exact ⟨r, member, by have := inside.1; omega, further⟩
      · exact h _ (.inr ⟨r, member, by have := inside.2; omega⟩) low high

end Go2Cloud.Intervals
