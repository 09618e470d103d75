import Mathlib.Data.List.Basic

/-! Runs of a partial transition function and the rules for proving that
something holds along them. -/
namespace Go2Cloud.Transition

variable {σ α : Type}

def run (step : σ → α → Option σ) : σ → List α → Option σ
  | s, [] => some s
  | s, a :: as => (step s a).bind fun s' => run step s' as

/-- Every action of the run meets `cond` in the state it is performed in. -/
def Meets (step : σ → α → Option σ) (cond : σ → α → Prop) : σ → List α → Prop
  | _, [] => True
  | s, a :: as => cond s a ∧ ∀ s', step s a = some s' → Meets step cond s' as

instance decidableMeets (step : σ → α → Option σ) (cond : σ → α → Prop)
    [∀ s a, Decidable (cond s a)] : (s : σ) → (as : List α) → Decidable (Meets step cond s as)
  | _, [] => .isTrue trivial
  | s, a :: as =>
    match h : step s a with
    | none => decidable_of_iff (cond s a) (by simp [Meets, h])
    | some s' =>
      have := decidableMeets step cond s' as
      decidable_of_iff (cond s a ∧ Meets step cond s' as) (by simp [Meets, h])

variable {step : σ → α → Option σ}

theorem run_cons {s t : σ} {a : α} {as : List α} (h : run step s (a :: as) = some t) :
    ∃ s', step s a = some s' ∧ run step s' as = some t :=
  Option.bind_eq_some_iff.mp h

theorem run_invariant_of_meets {P : σ → Prop} {cond : σ → α → Prop}
    (preserved : ∀ s a s', P s → cond s a → step s a = some s' → P s')
    {s t : σ} {as : List α} (h : run step s as = some t) (meets : Meets step cond s as)
    (start : P s) : P t := by
  induction as generalizing s with
  | nil => exact (Option.some.inj h) ▸ start
  | cons a as ih =>
    obtain ⟨s', first, rest⟩ := run_cons h
    exact ih rest (meets.2 s' first) (preserved s a s' start meets.1 first)

theorem meets_of_forall {cond : σ → α → Prop} (s : σ) {as : List α}
    (h : ∀ a ∈ as, ∀ s, cond s a) : Meets step cond s as := by
  induction as generalizing s with
  | nil => trivial
  | cons a as ih =>
    exact ⟨h a List.mem_cons_self s, fun s' _ => ih s' fun b hb => h b (List.mem_cons_of_mem _ hb)⟩

theorem run_invariant {P : σ → Prop} (preserved : ∀ s a s', P s → step s a = some s' → P s')
    {s t : σ} {as : List α} (h : run step s as = some t) (start : P s) : P t := by
  have always : Meets step (fun _ _ => True) s as := meets_of_forall s fun _ _ _ => trivial
  exact run_invariant_of_meets (fun s a s' inv _ hs => preserved s a s' inv hs) h always start

/-- If each step keeps `P` exactly when it meets `cond`, a run ends in `P` exactly when
it starts in `P` and meets `cond` throughout. -/
theorem run_iff_meets {P : σ → Prop} {cond : σ → α → Prop}
    (exact_step : ∀ s a s', step s a = some s' → (P s' ↔ P s ∧ cond s a))
    {s t : σ} {as : List α} (h : run step s as = some t) :
    P t ↔ P s ∧ Meets step cond s as := by
  induction as generalizing s with
  | nil => simp [Meets, Option.some.inj h]
  | cons a as ih =>
    obtain ⟨s', first, rest⟩ := run_cons h
    rw [ih rest, exact_step s a s' first]
    simp [Meets, first, and_assoc]

/-- If from a state in `P` a step leads to `P` exactly when it meets `cond`, a run stays
in `P` all the way exactly when it meets `cond` throughout. -/
theorem always_iff_meets {P : σ → Prop} {cond : σ → α → Prop}
    (exact_step : ∀ s a s', P s → step s a = some s' → (P s' ↔ cond s a))
    {s t : σ} {as : List α} (h : run step s as = some t) (start : P s) :
    (∀ pre, pre <+: as → ∀ u, run step s pre = some u → P u) ↔ Meets step cond s as := by
  induction as generalizing s with
  | nil =>
    refine ⟨fun _ => trivial, fun _ pre within u hu => ?_⟩
    rw [List.prefix_nil.mp within] at hu
    exact (Option.some.inj hu) ▸ start
  | cons a as ih =>
    obtain ⟨s', first, rest⟩ := run_cons h
    constructor
    · intro always
      have next : P s' := always [a] ⟨as, rfl⟩ s' (by simp [run, first])
      refine ⟨(exact_step s a s' start first).mp next, fun s'' first' => ?_⟩
      obtain rfl : s' = s'' := Option.some.inj (first.symm.trans first')
      refine (ih rest next).mp fun pre within u hu => ?_
      exact always (a :: pre) (List.cons_prefix_cons.mpr ⟨rfl, within⟩) u (by simp [run, first, hu])
    · rintro ⟨here, later⟩ pre within u hu
      cases pre with
      | nil => exact (Option.some.inj hu) ▸ start
      | cons b pre =>
        obtain ⟨rfl, inner⟩ := List.cons_prefix_cons.mp within
        obtain ⟨s'', first', hu⟩ := run_cons hu
        obtain rfl : s' = s'' := Option.some.inj (first.symm.trans first')
        have next := (exact_step s b s' start first).mpr here
        exact (ih rest next).mpr (later s' first) pre inner u hu

theorem run_total (f : σ → α → σ) (s : σ) (as : List α) :
    run (fun s a => some (f s a)) s as = some (as.foldl f s) := by
  induction as generalizing s with
  | nil => rfl
  | cons a as ih => exact ih (f s a)

def trace {β : Type} (step : σ → α → Option σ) (obs : σ → α → List β) : σ → List α → List β
  | _, [] => []
  | s, a :: as => obs s a ++ ((step s a).elim [] fun s' => trace step obs s' as)

theorem run_invariant_trace {β : Type} {obs : σ → α → List β} {P : List β → σ → Prop}
    {cond : σ → α → Prop}
    (preserved : ∀ seen s a s', P seen s → cond s a → step s a = some s' → P (seen ++ obs s a) s')
    {s t : σ} {as : List α} (h : run step s as = some t) (meets : Meets step cond s as)
    {seen : List β} (start : P seen s) : P (seen ++ trace step obs s as) t := by
  induction as generalizing s seen with
  | nil =>
    rw [trace, List.append_nil]
    exact (Option.some.inj h) ▸ start
  | cons a as ih =>
    obtain ⟨s', first, rest⟩ := run_cons h
    rw [trace, first, Option.elim_some, ← List.append_assoc]
    exact ih rest (meets.2 s' first) (preserved seen s a s' start meets.1 first)

theorem meets_append {cond : σ → α → Prop} {s : σ} {as bs : List α} :
    Meets step cond s (as ++ bs) ↔
      Meets step cond s as ∧ ∀ t, run step s as = some t → Meets step cond t bs := by
  induction as generalizing s with
  | nil => simp [Meets, run]
  | cons a as ih =>
    cases next : step s a with
    | none => simp [Meets, run, next]
    | some s' => simp [Meets, run, next, ih, and_assoc]

theorem meets_and {cond cond' : σ → α → Prop} {s : σ} {as : List α} (h : Meets step cond s as)
    (h' : Meets step cond' s as) : Meets step (fun s a => cond s a ∧ cond' s a) s as := by
  induction as generalizing s with
  | nil => trivial
  | cons a as ih => exact ⟨⟨h.1, h'.1⟩, fun s' first => ih (h.2 s' first) (h'.2 s' first)⟩

theorem run_append (s : σ) (as bs : List α) :
    run step s (as ++ bs) = (run step s as).bind fun t => run step t bs := by
  induction as generalizing s with
  | nil => rfl
  | cons a as ih =>
    simp only [List.cons_append, run]
    cases step s a with
    | none => rfl
    | some s' => exact ih s'

theorem trace_append {β : Type} {obs : σ → α → List β} {s t : σ} {as : List α}
    (h : run step s as = some t) (bs : List α) :
    trace step obs s (as ++ bs) = trace step obs s as ++ trace step obs t bs := by
  induction as generalizing s with
  | nil =>
    cases Option.some.inj h
    rfl
  | cons a as ih =>
    obtain ⟨s', first, rest⟩ := run_cons h
    simp only [List.cons_append, trace, first, Option.elim_some, ih rest, List.append_assoc]

theorem run_simulates {τ β : Type} {step' : τ → β → Option τ} {obs : σ → α → List β} {f : σ → τ}
    (answers : ∀ s a s', step s a = some s' → run step' (f s) (obs s a) = some (f s'))
    {s t : σ} {as : List α} (h : run step s as = some t) :
    run step' (f s) (trace step obs s as) = some (f t) := by
  induction as generalizing s with
  | nil => exact congrArg (some ∘ f) (Option.some.inj h)
  | cons a as ih =>
    obtain ⟨s', first, rest⟩ := run_cons h
    rw [trace, first, Option.elim_some, run_append, answers s a s' first, Option.bind_some]
    exact ih rest

/-- A machine that answers every step of another by a run, and stays related to it, answers every
run. What the steps of the one may be (`may`), the answers of the other may be (`may'`). -/
theorem run_answers {τ β : Type} {step' : τ → β → Option τ} {R : σ → τ → Prop} (may : α → Prop)
    (may' : β → Prop)
    (answers : ∀ s a s' t, R s t → may a → step s a = some s' →
      ∃ bs t', run step' t bs = some t' ∧ R s' t' ∧ ∀ b ∈ bs, may' b)
    {s s' : σ} {t : τ} {as : List α} (start : R s t) (h : run step s as = some s')
    (allowed : ∀ a ∈ as, may a) :
    ∃ bs t', run step' t bs = some t' ∧ R s' t' ∧ ∀ b ∈ bs, may' b := by
  induction as generalizing s t with
  | nil => exact ⟨[], t, rfl, Option.some.inj h ▸ start, by simp⟩
  | cons a as ih =>
    obtain ⟨mid, first, rest⟩ := run_cons h
    obtain ⟨bs, u, runs, related, here⟩ := answers s a mid t start (allowed a List.mem_cons_self) first
    obtain ⟨cs, t', runs', related', later⟩ := ih related rest fun a member =>
      allowed a (List.mem_cons_of_mem _ member)
    refine ⟨bs ++ cs, t', by rw [run_append, runs, Option.bind_some, runs'], related', ?_⟩
    intro b member
    exact (List.mem_append.mp member).elim (here b) (later b)

/-- Two machines that stay related and look alike at every step look alike over
every run. -/
theorem lockstep {τ β : Type} {step' : τ → α → Option τ} {obs : σ → α → List β}
    {obs' : τ → α → List β} {R : σ → τ → Prop}
    (lock : ∀ s t a, R s t → obs s a = obs' t a ∧ Option.Rel R (step s a) (step' t a))
    {s : σ} {t : τ} (start : R s t) (as : List α) :
    trace step obs s as = trace step' obs' t as ∧ Option.Rel R (run step s as) (run step' t as) := by
  induction as generalizing s t with
  | nil => exact ⟨rfl, .some start⟩
  | cons a as ih =>
    obtain ⟨same, next⟩ := lock s t a start
    simp only [trace, run, same]
    generalize step s a = u, step' t a = v at next ⊢
    cases next with
    | none => exact ⟨rfl, .none⟩
    | some related =>
      obtain ⟨rest, ends⟩ := ih related
      exact ⟨by rw [Option.elim_some, Option.elim_some, rest], ends⟩

end Go2Cloud.Transition
