import Mathlib.Data.List.Rotate
import Mathlib.Data.Nat.Count
import Mathlib.Data.Int.CardIntervalMod

/-! Round robin over a list of servers: the next server that passes a test is looked
for from where the last search ended. -/
namespace Go2Cloud.RoundRobin

variable {α β γ : Type*}

theorem filter_rotate_append {p : α → Bool} {a : α} {before after : List α}
    (skipped : ∀ x ∈ before, p x = false) (passes : p a = true) :
    ((before ++ a :: after).rotate (before.length + 1)).filter p = after.filter p ++ [a] := by
  have split : before ++ a :: after = (before ++ [a]) ++ after := by simp
  have none_before : before.filter p = [] := by
    simpa [List.filter_eq_nil_iff] using skipped
  have length : before.length + 1 = (before ++ [a]).length := by simp
  rw [split, length, List.rotate_append_length_eq]
  simp [List.filter_append, none_before, passes]

/-- Starting the next search behind the server found turns the list of those that pass
by one. -/
theorem filter_rotate_find {p : α → Bool} {l : List α} {a : α} (found : l.find? p = some a) :
    ∃ q, l[q]? = some a ∧ (l.rotate (q + 1)).filter p = (l.filter p).rotate 1 := by
  obtain ⟨passes, before, after, rfl, skipped⟩ := List.find?_eq_some_iff_append.mp found
  have skipped : ∀ x ∈ before, p x = false := by simpa using skipped
  refine ⟨before.length, by simp, ?_⟩
  have none_before : before.filter p = [] := by
    simpa [List.filter_eq_nil_iff] using skipped
  rw [filter_rotate_append skipped passes]
  simp [List.filter_append, none_before, passes]

def server (ring : List α) (i : Nat) : Option α := ring[i % ring.length]?

theorem server_rotate (ring : List α) (i : Nat) : server (ring.rotate 1) i = server ring (i + 1) := by
  cases ring with
  | nil => simp [server]
  | cons a l =>
    have positive : 0 < (a :: l).length := by simp
    simp only [server, List.length_rotate]
    rw [List.getElem?_rotate (Nat.mod_lt _ positive), Nat.mod_add_mod]

theorem server_zero (ring : List α) : server ring 0 = ring.head? := by
  cases ring <;> simp [server]

def share (ring : List α) (serve : α → β → Option γ) (items : List β) : List γ :=
  items.zipIdx.filterMap fun item => (server ring item.2).bind (serve · item.1)

theorem share_cons (ring : List α) (serve : α → β → Option γ) (item : β) (items : List β) :
    share ring serve (item :: items) =
      (ring.head?.bind (serve · item)).toList ++ share (ring.rotate 1) serve items := by
  have later : items.zipIdx 1 = items.zipIdx.map fun x => (x.1, x.2 + 1) := by
    simpa [Prod.map] using List.zipIdx_succ (l := items) (i := 0)
  simp only [share, List.zipIdx_cons, List.filterMap_cons, server_zero, Nat.zero_add, later,
    List.filterMap_map, Function.comp_def, server_rotate]
  cases ring.head?.bind (serve · item) <;> rfl

theorem share_congr {ring : List α} {serve serve' : α → β → Option γ}
    (same : ∀ a b, serve a b = serve' a b) (items : List β) :
    share ring serve items = share ring serve' items := by
  rw [show serve = serve' from funext₂ same]

theorem le_count_server {ring : List α} {a : α} (member : a ∈ ring) {p : Option α → Prop}
    [DecidablePred p] (here : p (some a)) (m : Nat) :
    m / ring.length ≤ Nat.count (fun i => p (server ring i)) m := by
  obtain ⟨j, inside, rfl⟩ := List.getElem_of_mem member
  have positive : 0 < ring.length := Nat.zero_lt_of_lt inside
  calc m / ring.length
      ≤ Nat.count (· ≡ j [MOD ring.length]) m := by
        rw [Nat.count_modEq_card m positive]
        exact Nat.le_add_right _ _
    _ ≤ Nat.count (fun i => p (server ring i)) m := by
        refine Nat.count_mono_left fun i _ congruent => ?_
        have same : i % ring.length = j := by
          rw [congruent, Nat.mod_eq_of_lt inside]
        simpa [server, same, inside] using here

end Go2Cloud.RoundRobin
