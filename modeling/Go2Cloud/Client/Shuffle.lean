import Go2Cloud.Client.Tracker
import Mathlib.Data.List.FinRange
import Mathlib.Data.List.Perm.Basic

/-! shuffle_blocks (client/main.c) on the four parallel arrays that
do_incremental_round fills from the tracker. The arrays have `size` cells, of
which the first `n` are in use; `rand k` is the value of the k-th rand() call. -/
namespace Go2Cloud.Shuffle
open Tracker
open scoped List

structure Columns (size : Nat) where
  -- the four arrays; their common length is part of the type
  devnos : Vector Int32 size
  offsets : Vector Int64 size
  hashes : Vector UInt64 size
  lastSents : Vector Int size

variable {size : Nat}

/-- The four swaps of one iteration; `none` is an access outside the arrays. -/
def swapAt (c : Columns size) (i j : Nat) : Option (Columns size) :=
  if h : i < size ∧ j < size then
    some
      { devnos := c.devnos.swap i j h.1 h.2
        offsets := c.offsets.swap i j h.1 h.2
        hashes := c.hashes.swap i j h.1 h.2
        lastSents := c.lastSents.swap i j h.1 h.2 }
  else none

def indices (rand : Nat → Nat) : (i k : Nat) → List (Nat × Nat)
  | 0, _ => []
  | i + 1, k => (i + 1, rand k % (i + 2)) :: indices rand i (k + 1)

def shuffleBlocks (rand : Nat → Nat) (n : Int) (c : Columns size) : Option (Columns size) :=
  (indices rand (n - 1).toNat 0).foldlM (fun c p => swapAt c p.1 p.2) c

def Columns.row (c : Columns size) (k : Fin size) : Int32 × Int64 × UInt64 × Int :=
  (c.devnos[k], c.offsets[k], c.hashes[k], c.lastSents[k])

def Columns.rows (c : Columns size) : List (Int32 × Int64 × UInt64 × Int) := List.ofFn c.row

theorem rows_length (c : Columns size) : c.rows.length = size := List.length_ofFn

theorem indices_le (rand : Nat → Nat) (i k : Nat) :
    ∀ p ∈ indices rand i k, p.1 ≤ i ∧ p.2 ≤ i := by
  induction i generalizing k with
  | zero => simp [indices]
  | succ i ih =>
    intro p member
    rcases List.mem_cons.mp member with rfl | later
    · have below := Nat.mod_lt (rand k) (show 0 < i + 2 by omega)
      exact ⟨le_rfl, by simp only; omega⟩
    · obtain ⟨first, second⟩ := ih (k + 1) p later
      exact ⟨by omega, by omega⟩

theorem indices_lt (rand : Nat → Nat) (n : Int) :
    ∀ p ∈ indices rand (n - 1).toNat 0, p.1 < n.toNat ∧ p.2 < n.toNat := by
  -- the loop body runs for positive `i` only, so `n` is positive when it does
  intro p member
  have bounds := indices_le rand (n - 1).toNat 0 p member
  by_cases positive : 0 < n
  · omega
  · have none_left : (n - 1).toNat = 0 := by omega
    rw [none_left] at member
    cases member

theorem row_swapAt (c : Columns size) (i j : Fin size) :
    ∃ c', swapAt c i j = some c' ∧ c'.row = c.row ∘ Equiv.swap i j := by
  -- all four arrays are swapped alike, so whole rows trade places
  refine ⟨_, dif_pos ⟨i.isLt, j.isLt⟩, ?_⟩
  funext k
  simp only [Columns.row, Function.comp_apply, Equiv.swap_apply_def, Fin.getElem_fin,
    Vector.getElem_swap, Fin.ext_iff]
  split_ifs <;> rfl

structure Shuffled (n : Nat) (c c' : Columns size) : Prop where
  perm : c'.rows ~ c.rows
  beyond : c'.rows.drop n = c.rows.drop n

theorem Shuffled.refl (n : Nat) (c : Columns size) : Shuffled n c c := ⟨.refl _, rfl⟩

theorem Shuffled.trans {n : Nat} {c c' c'' : Columns size} (h : Shuffled n c c')
    (h' : Shuffled n c' c'') : Shuffled n c c'' :=
  ⟨h'.perm.trans h.perm, h'.beyond.trans h.beyond⟩

theorem Shuffled.used {n : Nat} {c c' : Columns size} (h : Shuffled n c c') :
    c'.rows.take n ~ c.rows.take n := by
  have whole := h.perm
  rw [← List.take_append_drop n c'.rows, ← List.take_append_drop n c.rows, h.beyond] at whole
  exact (List.perm_append_right_iff _).mp whole

theorem swapAt_shuffled {n : Nat} (within : n ≤ size) (c : Columns size) {i j : Nat} (hi : i < n)
    (hj : j < n) : ∃ c', swapAt c i j = some c' ∧ Shuffled n c c' := by
  obtain ⟨c', swapped, rows⟩ := row_swapAt c ⟨i, by omega⟩ ⟨j, by omega⟩
  refine ⟨c', swapped, ?_, ?_⟩
  · rw [Columns.rows, rows]
    exact Equiv.Perm.ofFn_comp_perm _ _
  · refine List.ext_getElem (by simp only [List.length_drop, rows_length]) fun k hk _ => ?_
    simp only [List.getElem_drop, Columns.rows, List.getElem_ofFn, rows, Function.comp_apply]
    rw [Equiv.swap_apply_of_ne_of_ne]
    · simp only [ne_eq, Fin.mk.injEq]
      omega
    · simp only [ne_eq, Fin.mk.injEq]
      omega

theorem swaps_shuffled {n : Nat} (within : n ≤ size) {pairs : List (Nat × Nat)}
    (below : ∀ p ∈ pairs, p.1 < n ∧ p.2 < n) (c : Columns size) :
    ∃ c', pairs.foldlM (fun c p => swapAt c p.1 p.2) c = some c' ∧ Shuffled n c c' := by
  induction pairs generalizing c with
  | nil => exact ⟨c, rfl, .refl n c⟩
  | cons p pairs ih =>
    obtain ⟨hi, hj⟩ := below p List.mem_cons_self
    obtain ⟨m, first, step⟩ := swapAt_shuffled within c hi hj
    obtain ⟨c', rest, later⟩ := ih (fun q hq => below q (List.mem_cons_of_mem _ hq)) m
    refine ⟨c', ?_, step.trans later⟩
    rw [List.foldlM_cons, first]
    exact rest

/-- Every index stays below `n`, and the rows in use are permuted as whole rows. -/
theorem shuffleBlocks_perm (rand : Nat → Nat) (n : Int) (c : Columns size) (within : n ≤ size) :
    (∀ p ∈ indices rand (n - 1).toNat 0, p.1 < n ∧ p.2 < n) ∧
      ∃ c', shuffleBlocks rand n c = some c' ∧ c'.rows.take n.toNat ~ c.rows.take n.toNat ∧
        c'.rows.drop n.toNat = c.rows.drop n.toNat := by
  have below := indices_lt rand n
  obtain ⟨c', done, shuffled⟩ := swaps_shuffled (by omega) below c
  refine ⟨fun p hp => ?_, c', done, shuffled.used, shuffled.beyond⟩
  have bound := below p hp
  omega

theorem shuffleBlocks_perm_pair :
    ∃ c', shuffleBlocks (fun _ => 6) 2 (⟨#v[0, 1], #v[0, 512], #v[7, 8], #v[0, 5]⟩ : Columns 2) =
        some c' ∧
      c'.rows.take 2 ~ [(0, 0, 7, 0), (1, 512, 8, 5)] := by
  obtain ⟨-, c', done, perm, -⟩ := shuffleBlocks_perm (fun _ => 6) 2
    (⟨#v[0, 1], #v[0, 512], #v[7, 8], #v[0, 5]⟩ : Columns 2) (by decide)
  exact ⟨c', done, perm⟩

def columnsOf (r : Row) : Int32 × Int64 × UInt64 × Int := (r.devno, r.offset, r.hash, r.lastSent)

theorem isUnackedBatch_perm {db : BlockTable} {remoteId : String} {limit : Nat}
    {batch batch' : List Row} (perm : batch' ~ batch) (h : IsUnackedBatch db remoteId limit batch) :
    IsUnackedBatch db remoteId limit batch' := by
  obtain ⟨nodup, listed, length, first⟩ := h
  simp only [IsUnackedBatch, perm.mem_iff, perm.nodup_iff, perm.length_eq]
  exact ⟨nodup, listed, length, first⟩

theorem shuffleBlocks_batch (rand : Nat → Nat) (c : Columns size) {db : BlockTable}
    {remoteId : String} {limit : Nat} {batch : List Row} (within : batch.length ≤ size)
    (selected : IsUnackedBatch db remoteId limit batch)
    (stored : c.rows.take batch.length = batch.map columnsOf) :
    ∃ c' batch', shuffleBlocks rand batch.length c = some c' ∧
      c'.rows.take batch.length = batch'.map columnsOf ∧
      IsUnackedBatch db remoteId limit batch' := by
  obtain ⟨c', done, shuffled⟩ := swaps_shuffled within (indices_lt rand batch.length) c
  have perm := shuffled.used
  rw [stored] at perm
  have found : Relation.Comp (fun l batch' => l = batch'.map columnsOf) (fun a b => a ~ b)
      (c'.rows.take batch.length) batch := by
    rw [List.eq_map_comp_perm]
    exact perm
  obtain ⟨batch', rows, order⟩ := found
  exact ⟨c', batch', done, rows, isUnackedBatch_perm order selected⟩

end Go2Cloud.Shuffle
