import Mathlib.Data.List.Basic
import Mathlib.Data.List.TakeWhile

/-! Maximal runs of a list between separators, and how they change when the list
grows at the front. -/
namespace Go2Cloud.Runs

variable {α : Type} {sep : α → Bool} {s run : List α}

/-- `run` is a nonempty stretch of `s` without separators, with a separator or an
end of `s` on either side. -/
def IsRun (sep : α → Bool) (s run : List α) : Prop :=
  run ≠ [] ∧ (∀ c ∈ run, sep c = false) ∧
    ∃ pre post, s = pre ++ (run ++ post) ∧ (∀ c ∈ pre.getLast?, sep c = true) ∧
      ∀ c ∈ post.head?, sep c = true

theorem not_isRun_nil : ¬ IsRun sep [] run := by
  rintro ⟨nonempty, -, pre, post, whole, -⟩
  simp at whole
  exact nonempty whole.2.1

theorem isRun_cons_sep {c : α} (hc : sep c = true) : IsRun sep (c :: s) run ↔ IsRun sep s run := by
  constructor
  · rintro ⟨nonempty, clear, pre, post, whole, left, right⟩
    refine ⟨nonempty, clear, ?_⟩
    cases pre with
    | nil =>
      cases run with
      | nil => exact absurd rfl nonempty
      | cons d run =>
        obtain ⟨rfl, -⟩ := List.cons.inj whole
        exact absurd hc (by simp [clear c List.mem_cons_self])
    | cons d pre =>
      refine ⟨pre, post, (List.cons.inj whole).2, fun e he => left e ?_, right⟩
      rw [List.getLast?_cons]
      exact congrArg some (by rw [he]; rfl)
  · rintro ⟨nonempty, clear, pre, post, rfl, left, right⟩
    refine ⟨nonempty, clear, c :: pre, post, rfl, fun d hd => ?_, right⟩
    rw [List.getLast?_cons] at hd
    cases last : pre.getLast? with
    | none =>
      rw [last] at hd
      exact (Option.some.inj hd) ▸ hc
    | some e =>
      rw [last] at hd
      exact (Option.some.inj hd) ▸ left e last

theorem isRun_dropWhile (s run : List α) : IsRun sep (s.dropWhile sep) run ↔ IsRun sep s run := by
  induction s with
  | nil => rfl
  | cons c s ih =>
    rw [List.dropWhile_cons]
    split
    next hc => rw [ih, isRun_cons_sep hc]
    next => rfl

theorem clear_head {p rest : List α} {c : α} (h : p.dropWhile sep = c :: rest) : sep c = false := by
  have head := List.head?_dropWhile_not sep p
  rw [h] at head
  simpa using head

theorem rest_length_lt {p rest : List α} {c : α} (h : p.dropWhile sep = c :: rest) :
    ((c :: rest).dropWhile fun c => !sep c).length < p.length := by
  have shorter : (c :: rest).length ≤ p.length := h ▸ (List.dropWhile_suffix sep).length_le
  have tail := (List.dropWhile_suffix (l := rest) fun c => !sep c).length_le
  rw [List.dropWhile_cons, clear_head h]
  simp only [Bool.not_false, if_true, List.length_cons] at shorter ⊢
  omega

theorem takeWhile_clear {pre rest : List α} (clear : ∀ c ∈ pre, sep c = false)
    (stop : ∀ c ∈ rest.head?, sep c = true) : (pre ++ rest).takeWhile (fun c => !sep c) = pre := by
  rw [List.takeWhile_append_of_pos fun c hc => by simp [clear c hc]]
  cases rest with
  | nil => simp
  | cons c rest => simp [stop c rfl]

theorem isRun_append {token rest : List α} (nonempty : token ≠ [])
    (clear : ∀ c ∈ token, sep c = false) (stop : ∀ c ∈ rest.head?, sep c = true) :
    IsRun sep (token ++ rest) run ↔ run = token ∨ IsRun sep rest run := by
  constructor
  · rintro ⟨some_run, clear_run, pre, post, whole, left, right⟩
    rcases List.eq_nil_or_concat pre with rfl | ⟨before, c, rfl⟩
    · left
      rw [List.nil_append] at whole
      rw [← takeWhile_clear clear stop, whole, takeWhile_clear clear_run right]
    · right
      have hc : sep c = true := left c (by simp)
      refine ⟨some_run, clear_run, ?_⟩
      rcases List.append_eq_append_iff.mp whole with ⟨mid, inside, after⟩ | ⟨mid, inside, after⟩
      · refine ⟨mid, post, after, fun d hd => left d ?_, right⟩
        rw [inside, List.getLast?_append, hd]
        rfl
      · have member : c ∈ token := by simp [inside]
        exact absurd hc (by simp [clear c member])
  · rintro (rfl | ⟨some_run, clear_run, pre, post, rfl, left, right⟩)
    · exact ⟨nonempty, clear, [], rest, rfl, by simp, stop⟩
    · refine ⟨some_run, clear_run, token ++ pre, post, by simp, fun c hc => ?_, right⟩
      cases pre with
      | nil =>
        cases run with
        | nil => exact absurd rfl some_run
        | cons d run =>
          exact absurd (stop d rfl) (by simp [clear_run d List.mem_cons_self])
      | cons d pre =>
        refine left c ?_
        rw [List.getLast?_append_cons] at hc
        exact hc

theorem isRun_first (run : List α) {p rest : List α} {c : α} (h : p.dropWhile sep = c :: rest) :
    (c :: rest).takeWhile (fun c => !sep c) ≠ [] ∧
      (IsRun sep p run ↔ run = (c :: rest).takeWhile (fun c => !sep c) ∨
        IsRun sep ((c :: rest).dropWhile fun c => !sep c) run) := by
  have nonempty : (c :: rest).takeWhile (fun c => !sep c) ≠ [] := by simp [clear_head h]
  refine ⟨nonempty, ?_⟩
  have split : p.dropWhile sep = (c :: rest).takeWhile (fun c => !sep c) ++
      (c :: rest).dropWhile fun c => !sep c := by
    rw [List.takeWhile_append_dropWhile, h]
  rw [← isRun_dropWhile p, split]
  refine isRun_append nonempty (fun d hd => ?_) fun d hd => ?_
  · simpa using List.mem_takeWhile_imp hd
  · have head := List.head?_dropWhile_not (fun c => !sep c) (c :: rest)
    rw [hd] at head
    simpa using head

end Go2Cloud.Runs
