import Mathlib.Data.List.FinRange
import Mathlib.Data.List.Perm.Basic
import Mathlib.Logic.Function.Basic

/-! A fixed number of slots and the bag of what they hold. Changing one slot
exchanges what it held for what it holds now. -/
namespace Go2Cloud.Slots
open scoped List

variable {n : Nat} {α β : Type}

/-- What the slots hold, in slot order; `p` says what a slot counts for, if anything. -/
def held (p : α → Option β) (slots : Fin n → α) : List β :=
  (List.finRange n).filterMap fun i => p (slots i)

theorem held_length_le (p : α → Option β) (slots : Fin n → α) : (held p slots).length ≤ n := by
  have le := List.length_filterMap_le (fun i => p (slots i)) (List.finRange n)
  rwa [List.length_finRange] at le

theorem mem_held {p : α → Option β} {slots : Fin n → α} {b : β} :
    b ∈ held p slots ↔ ∃ i, p (slots i) = some b := by
  simp [held]

theorem held_split (p : α → Option β) (slots : Fin n → α) (i : Fin n) :
    held p slots ~ (p (slots i)).toList ++
      ((List.finRange n).erase i).filterMap fun j => p (slots j) := by
  have split := (List.perm_cons_erase (List.mem_finRange i)).filterMap fun j => p (slots j)
  rw [List.filterMap_cons] at split
  cases here : p (slots i) with
  | none =>
    rw [here] at split
    exact split
  | some b =>
    rw [here] at split
    exact split

theorem held_update (p : α → Option β) (slots : Fin n → α) (i : Fin n) (a : α) :
    held p (Function.update slots i a) ++ (p (slots i)).toList ~
      held p slots ++ (p a).toList := by
  have others : ((List.finRange n).erase i).filterMap (fun j => p (Function.update slots i a j)) =
      ((List.finRange n).erase i).filterMap fun j => p (slots j) := by
    refine List.filterMap_congr fun j member => ?_
    rw [Function.update_of_ne ((List.nodup_finRange n).mem_erase_iff.mp member).1]
  have before := held_split p slots i
  have after := held_split p (Function.update slots i a) i
  rw [others, Function.update_self] at after
  calc held p (Function.update slots i a) ++ (p (slots i)).toList
    _ ~ ((p a).toList ++ _) ++ (p (slots i)).toList := after.append_right _
    _ ~ (p (slots i)).toList ++ ((p a).toList ++ _) := List.perm_append_comm
    _ ~ (p (slots i)).toList ++ (_ ++ (p a).toList) := List.perm_append_comm.append_left _
    _ = ((p (slots i)).toList ++ _) ++ (p a).toList := (List.append_assoc _ _ _).symm
    _ ~ held p slots ++ (p a).toList := before.symm.append_right _

theorem held_update_same {p : α → Option β} {slots : Fin n → α} {i : Fin n} {a : α}
    (same : p a = p (slots i)) : held p (Function.update slots i a) = held p slots := by
  refine List.filterMap_congr fun j _ => ?_
  by_cases here : j = i
  · rw [here, Function.update_self, same]
  · rw [Function.update_of_ne here]

theorem held_length_lt {p : α → Option β} {slots slots' : Fin n → α}
    (more : ∀ j, (p (slots j)).isSome → (p (slots' j)).isSome) {i : Fin n}
    (without : p (slots i) = none) (with_it : (p (slots' i)).isSome) :
    (held p slots).length < (held p slots').length := by
  have others : (((List.finRange n).erase i).filterMap fun j => p (slots j)).length ≤
      (((List.finRange n).erase i).filterMap fun j => p (slots' j)).length := by
    rw [List.length_filterMap_eq_countP, List.length_filterMap_eq_countP]
    exact List.countP_mono_left fun j _ => more j
  obtain ⟨b, here⟩ := Option.isSome_iff_exists.mp with_it
  rw [(held_split p slots i).length_eq, (held_split p slots' i).length_eq, without, here]
  simpa using Nat.lt_succ_of_le others

end Go2Cloud.Slots
