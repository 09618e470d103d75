import Mathlib.Data.List.Basic
import Mathlib.Logic.Function.Basic

/-! Messages on several first-in-first-out channels. If no other channel holds a
message of a kind when one of that kind is sent, those messages are received in the
order they were sent. -/
namespace Go2Cloud.Channels

variable {ι μ : Type} {p : μ → Bool} {sent done : List μ} {up : ι → List μ}

/-- Of the messages with `p`, those of `done` were received and the others wait on
one channel, all in the order of sending. -/
def InOrder (p : μ → Bool) (sent : List μ) (up : ι → List μ) (done : List μ) : Prop :=
  ∃ c, sent.filter p = done ++ (up c).filter p ∧ ∀ c', c' ≠ c → (up c').filter p = []

theorem InOrder.all_received (h : InOrder p sent up done) (empty : ∀ c, up c = []) :
    sent.filter p = done := by
  obtain ⟨c, order, -⟩ := h
  simpa [empty c] using order

variable [DecidableEq ι] {c : ι} {m : μ} {rest : List μ}

theorem mem_cleared {c' : ι} : m ∈ Function.update up c [] c' ↔ c' ≠ c ∧ m ∈ up c' := by
  by_cases here : c' = c
  · rw [here, Function.update_self]
    simp
  · rw [Function.update_of_ne here]
    simp [here]

theorem filter_update_of_not (up : ι → List μ) (c c' : ι) {l : List μ}
    (h : l.filter p = (up c).filter p) :
    (Function.update up c l c').filter p = (up c').filter p := by
  by_cases here : c' = c
  · rw [here, Function.update_self, h]
  · rw [Function.update_of_ne here]

theorem InOrder.send (h : InOrder p sent up done)
    (alone : p m = true → ∀ c', c' ≠ c → (up c').filter p = []) :
    InOrder p (sent ++ [m]) (Function.update up c (up c ++ [m])) done := by
  obtain ⟨lane, order, others⟩ := h
  cases kind : p m with
  | false =>
    refine ⟨lane, ?_, fun c' other => ?_⟩
    · rw [filter_update_of_not up c lane (by simp [kind])]
      simpa [kind] using order
    · rw [filter_update_of_not up c c' (by simp [kind])]
      exact others c' other
  | true =>
    refine ⟨c, ?_, fun c' other => ?_⟩
    · -- either `c` is the lane already, or nothing waits anywhere
      have waits : sent.filter p = done ++ (up c).filter p := by
        by_cases here : c = lane
        · rw [here]
          exact order
        · rw [order, alone kind lane (Ne.symm here), others c here]
      rw [Function.update_self, List.filter_append, List.filter_append, waits, List.append_assoc]
    · rw [Function.update_of_ne other]
      exact alone kind c' other

theorem InOrder.receive (h : InOrder p sent up done) (head : up c = m :: rest) :
    InOrder p sent (Function.update up c rest) (if p m then done ++ [m] else done) := by
  obtain ⟨lane, order, others⟩ := h
  cases kind : p m with
  | false =>
    have same : rest.filter p = (up c).filter p := by simp [head, kind]
    refine ⟨lane, ?_, fun c' other => ?_⟩
    · rw [filter_update_of_not up c lane same]
      simpa using order
    · rw [filter_update_of_not up c c' same]
      exact others c' other
  | true =>
    have here : c = lane := by
      by_contra other
      simpa [head, kind] using others c other
    subst here
    refine ⟨c, ?_, fun c' other => ?_⟩
    · rw [Function.update_self, if_pos rfl, List.append_assoc]
      simpa [head, kind] using order
    · rw [Function.update_of_ne other]
      exact others c' other

end Go2Cloud.Channels
