import Mathlib.Data.List.Basic

/-! Memory objects of a fixed size. An access names the cells it touches and gives
nothing if one of them is outside the object. -/
namespace Go2Cloud.CheckedMemory

structure Memory (α : Type) (size : Nat) where
  cells : List α
  length_cells : cells.length = size

namespace Memory

variable {α : Type} {size : Nat}

def front (m : Memory α size) (n : Nat) : List α := m.cells.take n

def read (m : Memory α size) (i n : Nat) : Option (List α) :=
  if i + n ≤ size then some ((m.cells.drop i).take n) else none

def write (m : Memory α size) (i : Nat) (xs : List α) : Option (Memory α size) :=
  if h : i + xs.length ≤ size then
    some ⟨m.cells.take i ++ (xs ++ m.cells.drop (i + xs.length)), by
      simp only [List.length_append, List.length_take, List.length_drop, m.length_cells]
      omega⟩
  else none

def move (m : Memory α size) (dst src n : Nat) : Option (Memory α size) := do
  let xs ← m.read src n
  m.write dst xs

@[simp] theorem front_zero (m : Memory α size) : m.front 0 = [] := rfl

theorem front_length (m : Memory α size) {n : Nat} (inside : n ≤ size) : (m.front n).length = n := by
  rw [front, List.length_take, m.length_cells]
  omega

theorem read_front (m : Memory α size) {i n k : Nat} (inside : i + n ≤ k) (le : k ≤ size) :
    m.read i n = some (((m.front k).drop i).take n) := by
  rw [read, if_pos (by omega), front, List.drop_take, List.take_take, Nat.min_eq_left (by omega)]

theorem write_front (m : Memory α size) (n : Nat) (xs : List α) (inside : n + xs.length ≤ size) :
    ∃ m', m.write n xs = some m' ∧ m'.front (n + xs.length) = m.front n ++ xs := by
  have before : (m.cells.take n).length = n := m.front_length (by omega)
  have both : (m.cells.take n ++ xs).length = n + xs.length := by rw [List.length_append, before]
  rw [write, dif_pos inside]
  refine ⟨_, rfl, ?_⟩
  simp only [front]
  rw [← List.append_assoc, ← both, List.take_left]

theorem move_front (m : Memory α size) (src n : Nat) (inside : src + n ≤ size) :
    ∃ m', m.move 0 src n = some m' ∧ m'.front n = (m.front (src + n)).drop src := by
  have moved := m.read_front (k := src + n) (Nat.le_refl _) inside
  have length : ((m.front (src + n)).drop src).length = n := by
    rw [List.length_drop, m.front_length inside]
    omega
  rw [List.take_of_length_le (Nat.le_of_eq length)] at moved
  obtain ⟨m', written, front⟩ := m.write_front 0 ((m.front (src + n)).drop src) (by omega)
  refine ⟨m', ?_, ?_⟩
  · rw [move, moved]
    exact written
  · rw [length, Nat.zero_add] at front
    exact front

end Memory

end Go2Cloud.CheckedMemory
