import Mathlib.Data.List.Basic
import Mathlib.Tactic.Tauto

/-! Frames written one after another to a byte stream that may refuse part of
one. The stream stays readable as long as a frame that was cut short is the last
one any symbol of which went out. -/
namespace Go2Cloud.Framing

structure Attempt (α : Type) where
  frame : List α
  accepted : List α
  within : accepted <+: frame
  deriving DecidableEq, Repr

variable {α : Type}

theorem take_append_within {frame rest : List α} {n : Nat} (h : rest <+: frame.drop n) :
    frame.take n ++ rest <+: frame := by
  have shifted := (List.prefix_append_right_inj (frame.take n)).mpr h
  rwa [List.take_append_drop] at shifted

def Attempt.Cut (a : Attempt α) : Prop := a.accepted ≠ [] ∧ a.accepted ≠ a.frame

instance [DecidableEq α] (a : Attempt α) : Decidable a.Cut :=
  inferInstanceAs (Decidable (a.accepted ≠ [] ∧ a.accepted ≠ a.frame))

def Broken (s : List (Attempt α)) : Prop := ∃ a ∈ s, a.Cut

instance [DecidableEq α] (s : List (Attempt α)) : Decidable (Broken s) :=
  inferInstanceAs (Decidable (∃ a ∈ s, a.Cut))

/-- Nothing goes out after a frame that was cut short. -/
def Framed : List (Attempt α) → Prop
  | [] => True
  | a :: rest => (a.Cut → ∀ b ∈ rest, b.accepted = []) ∧ Framed rest

instance decidableFramed [DecidableEq α] : (s : List (Attempt α)) → Decidable (Framed s)
  | [] => .isTrue trivial
  | a :: rest =>
    have := decidableFramed rest
    inferInstanceAs (Decidable ((a.Cut → ∀ b ∈ rest, b.accepted = []) ∧ Framed rest))

def taken (s : List (Attempt α)) : List α := s.flatMap Attempt.accepted

theorem framed_concat (s : List (Attempt α)) (a : Attempt α) :
    Framed (s ++ [a]) ↔ Framed s ∧ (Broken s → a.accepted = []) := by
  induction s with
  | nil => simp [Framed, Broken]
  | cons b rest ih =>
    simp only [List.cons_append, Framed, ih, Broken, List.mem_append, List.mem_cons,
      List.not_mem_nil, or_false, exists_eq_or_imp]
    constructor
    · rintro ⟨first, later, last⟩
      refine ⟨⟨fun cut c hc => first cut c (.inl hc), later⟩, ?_⟩
      rintro (cut | broken)
      · exact first cut a (.inr rfl)
      · exact last broken
    · rintro ⟨⟨first, later⟩, last⟩
      refine ⟨fun cut c hc => ?_, later, fun broken => last (.inr broken)⟩
      rcases hc with hc | rfl
      · exact first cut c hc
      · exact last (.inl cut)

theorem framed_modify (streams : List (List (Attempt α))) (k : Nat) (a : Attempt α) :
    (∀ s ∈ streams.modify k (· ++ [a]), Framed s) ↔
      (∀ s ∈ streams, Framed s) ∧ (Broken (streams.getD k []) → a.accepted = []) := by
  induction streams generalizing k with
  | nil => simp [Broken]
  | cons s streams ih =>
    cases k with
    | zero =>
      simp only [List.modify_zero_cons, List.forall_mem_cons, framed_concat, List.getD_cons_zero]
      tauto
    | succ k =>
      simp only [List.modify_succ_cons, List.forall_mem_cons, ih, List.getD_cons_succ]
      tauto

theorem taken_eq_nil {s : List (Attempt α)} (h : ∀ a ∈ s, a.accepted = []) : taken s = [] := by
  simpa [taken, List.flatMap_eq_nil_iff] using h

/-- What a framed stream holds: whole frames in order and at most one cut frame, last. -/
theorem Framed.taken_eq {s : List (Attempt α)} (h : Framed s) :
    ∃ (whole : List (List α)) (part : List α), taken s = whole.flatten ++ part ∧
      whole.Sublist (s.map Attempt.frame) ∧
      (part = [] ∨ ∃ a ∈ s, a.Cut ∧ part = a.accepted) := by
  induction s with
  | nil => exact ⟨[], [], rfl, List.Sublist.refl _, .inl rfl⟩
  | cons a rest ih =>
    obtain ⟨last, framed⟩ := h
    by_cases cut : a.Cut
    · refine ⟨[], a.accepted, ?_, List.nil_sublist _, .inr ⟨a, List.mem_cons_self, cut, rfl⟩⟩
      have silent := taken_eq_nil (last cut)
      simpa [taken] using silent
    · obtain ⟨whole, part, eq, sub, ends⟩ := ih framed
      have ends' : part = [] ∨ ∃ b ∈ a :: rest, b.Cut ∧ part = b.accepted :=
        ends.imp id fun ⟨b, hb, same⟩ => ⟨b, List.mem_cons_of_mem _ hb, same⟩
      have split : taken (a :: rest) = a.accepted ++ taken rest := rfl
      by_cases none_out : a.accepted = []
      · exact ⟨whole, part, by rw [split, none_out, eq]; rfl, sub.cons _, ends'⟩
      · have all_out : a.accepted = a.frame := by
          by_contra partly
          exact cut ⟨none_out, partly⟩
        exact ⟨a.frame :: whole, part, by rw [split, all_out, eq]; simp, sub.cons_cons _, ends'⟩

end Go2Cloud.Framing
