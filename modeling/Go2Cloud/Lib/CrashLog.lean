import Go2Cloud.Lib.ByteStore
import Mathlib.Logic.Function.Basic

/-! Images behind a volatile cache: a log of writes and flushes, and what a crash
leaves of it. A write survives if a flush of its device follows; of the others any
cells may survive. -/
namespace Go2Cloud.CrashLog

inductive Op (ι α : Type) where
  | wrote (device : ι) (pos : Nat) (cells : List α)
  | synced (device : ι)
  deriving DecidableEq, Repr

variable {ι α : Type} [DecidableEq ι]

def Op.syncs (i : ι) : Op ι α → Bool
  | .wrote _ _ _ => false
  | .synced j => j = i

def unsynced (i : ι) : List (Op ι α) → List (Nat × List α)
  | [] => []
  | .synced _ :: later => unsynced i later
  | .wrote j pos cells :: later =>
    if j = i ∧ later.any (Op.syncs i) = false then (pos, cells) :: unsynced i later
    else unsynced i later

/-- The images after a crash. `keep n a` says whether the cell `a` of the write with
`n` operations behind it survives without a flush. -/
def crash (keep : Nat → Nat → Bool) : (ι → Nat → α) → List (Op ι α) → ι → Nat → α
  | images, [] => images
  | images, .synced _ :: later => crash keep images later
  | images, .wrote i pos cells :: later =>
    crash keep (Function.update images i fun a =>
      if later.any (Op.syncs i) || keep later.length a then ByteStore.write (images i) pos cells a
      else images i a) later

theorem unsynced_or_synced {i : ι} {pos : Nat} {cells : List α} {ops : List (Op ι α)}
    (h : .wrote i pos cells ∈ ops) : (pos, cells) ∈ unsynced i ops ∨
      ∃ before after, ops = before ++ .wrote i pos cells :: after ∧
        after.any (Op.syncs i) = true := by
  induction ops with
  | nil => cases h
  | cons op later ih =>
    rcases List.mem_cons.mp h with rfl | member
    · cases flushed : later.any (Op.syncs i) with
      | true => exact .inr ⟨[], later, rfl, flushed⟩
      | false =>
        left
        rw [unsynced, if_pos ⟨rfl, flushed⟩]
        exact List.mem_cons_self
    · rcases ih member with waits | ⟨before, after, rfl, flushed⟩
      · left
        cases op with
        | synced j => exact waits
        | wrote j pos' cells' =>
          unfold unsynced
          split
          · exact List.mem_cons_of_mem _ waits
          · exact waits
      · exact .inr ⟨op :: before, after, rfl, flushed⟩

def Copies (src : ι → Nat → α) : Op ι α → Prop
  | .wrote i pos cells => ∃ len, cells <+: ByteStore.read (src i) pos len
  | .synced _ => True

variable {src : ι → Nat → α} {images : ι → Nat → α} {ops : List (Op ι α)} {i : ι} {a : Nat}

theorem crash_copied (copies : ∀ op ∈ ops, Copies src op) (keep : Nat → Nat → Bool)
    (h : images i a = src i a) : crash keep images ops i a = src i a := by
  induction ops generalizing images with
  | nil => exact h
  | cons op later ih =>
    have rest := fun op' member => copies op' (List.mem_cons_of_mem op member)
    cases op with
    | synced j => exact ih rest h
    | wrote j pos cells =>
      refine ih rest ?_
      by_cases here : i = j
      · subst here
        rw [Function.update_self]
        split
        · obtain ⟨len, from_src⟩ := copies _ List.mem_cons_self
          rcases ByteStore.write_of_read from_src a with copied | kept
          · exact copied
          · rw [kept, h]
        · exact h
      · rw [Function.update_of_ne here, h]

/-- A flushed write that copies `src` survives every crash. -/
theorem crash_synced {pos : Nat} {cells : List α} {before after : List (Op ι α)}
    (copies : ∀ op ∈ before ++ .wrote i pos cells :: after, Copies src op)
    (keep : Nat → Nat → Bool) (flushed : after.any (Op.syncs i) = true) (low : pos ≤ a)
    (high : a < pos + cells.length) :
    crash keep images (before ++ .wrote i pos cells :: after) i a = src i a := by
  induction before generalizing images with
  | nil =>
    refine crash_copied (fun op member => copies op (List.mem_cons_of_mem _ member)) keep ?_
    rw [Function.update_self, flushed, Bool.true_or, if_pos rfl]
    obtain ⟨len, copied⟩ := copies _ List.mem_cons_self
    obtain ⟨n, rfl⟩ : ∃ n, a = pos + n := ⟨a - pos, by omega⟩
    have inside : n < cells.length := by omega
    rw [ByteStore.write_inside _ _ inside, copied.getElem inside]
    simp [ByteStore.read]
  | cons op before ih =>
    have rest := fun op' member => copies op' (List.mem_cons_of_mem op member)
    cases op with
    | synced j => exact ih rest
    | wrote j pos' cells' => exact ih rest

def playback (images : ι → Nat → α) (ops : List (Op ι α)) : ι → Nat → α :=
  crash (fun _ _ => true) images ops

theorem playback_wrote (images : ι → Nat → α) (j : ι) (pos : Nat) (cells : List α)
    (later : List (Op ι α)) :
    playback images (.wrote j pos cells :: later) =
      playback (Function.update images j (ByteStore.write (images j) pos cells)) later := by
  simp [playback, crash]

theorem playback_append (images : ι → Nat → α) (ops later : List (Op ι α)) :
    playback images (ops ++ later) = playback (playback images ops) later := by
  induction ops generalizing images with
  | nil => rfl
  | cons op ops ih =>
    cases op with
    | synced j => exact ih images
    | wrote j pos cells => rw [List.cons_append, playback_wrote, playback_wrote, ih]

theorem playback_syncs (images : ι → Nat → α) {ops : List (Op ι α)}
    (h : ∀ op ∈ ops, ∃ j, op = .synced j) : playback images ops = images := by
  induction ops with
  | nil => rfl
  | cons op ops ih =>
    obtain ⟨j, rfl⟩ := h op List.mem_cons_self
    exact ih fun op' member => h op' (List.mem_cons_of_mem _ member)

end Go2Cloud.CrashLog
