import Mathlib.Data.List.Basic

/-! Programs that call functions of an environment. A call returns any integer the
environment likes, which may depend on all calls before it; the program keeps a
state of its own. Loops take a bound, and a run that reaches it is stopped there,
so the runs for all bounds show every beginning of an unbounded run. -/
namespace Go2Cloud.Calls

variable {ε σ α β γ : Type}

abbrev Env (ε : Type) := List ε → ε → Int

/-- A run takes the state and the calls made so far to a result, or `none` when it
was stopped, the state and the calls made by then. -/
def Prog (ε σ α : Type) : Type := Env ε → σ × List ε → Option α × σ × List ε

instance : Monad (Prog ε σ) where
  pure a := fun _ w => (some a, w)
  bind m f := fun env w =>
    match m env w with
    | (some a, w') => f a env w'
    | (none, w') => (none, w')

def call (e : ε) : Prog ε σ Int := fun env w => (some (env w.2 e), w.1, w.2 ++ [e])

def perform (e : ε) : Prog ε σ Unit := do
  let _ ← call e
  return ()

def readState : Prog ε σ σ := fun _ w => (some w.1, w)

def modifyState (f : σ → σ) : Prog ε σ Unit := fun _ w => (some (), f w.1, w.2)

def stop : Prog ε σ α := fun _ w => (none, w)

def whenever (c : Prop) [Decidable c] (m : Prog ε σ Unit) : Prog ε σ Unit :=
  if c then m else pure ()

def andAlso (a b : Prog ε σ Bool) : Prog ε σ Bool := do
  if ← a then b else return false

def loop (body : β → Prog ε σ (β ⊕ γ)) : (fuel : Nat) → β → Prog ε σ γ
  -- go on with `inl`, leave with `inr`
  | 0, _ => stop
  | fuel + 1, b => body b >>= fun
    | .inl b' => loop body fuel b'
    | .inr c => pure c

def whileDo (fuel : Nat) (test : Prog ε σ Bool) (body : Prog ε σ Unit) : Prog ε σ Unit :=
  loop (fun _ => do
    if ← test then
      body
      return .inl ()
    else return .inr ()) fuel ()

def times (body : β → Prog ε σ (Bool × β)) : (n : Nat) → β → Prog ε σ β
  | 0, b => pure b
  | n + 1, b => body b >>= fun r => if r.1 then times body n r.2 else pure r.2

def repeatDo (n : Nat) (body : Prog ε σ Unit) : Prog ε σ Unit :=
  times (fun _ => do
    body
    return (true, ())) n ()

def callsOf (m : Prog ε σ α) (env : Env ε) (s : σ) : List ε := (m env (s, [])).2.2

/-- Whatever the environment returns, every call is in `P`. -/
def Only (P : ε → Prop) (m : Prog ε σ α) : Prop :=
  ∀ env w, ∃ made, (m env w).2.2 = w.2 ++ made ∧ ∀ e ∈ made, P e

variable {P : ε → Prop}

theorem only_pure (a : α) : Only P (pure a : Prog ε σ α) := fun _ _ => ⟨[], by simp [pure], by simp⟩

theorem only_stop : Only P (stop : Prog ε σ α) := fun _ _ => ⟨[], by simp [stop], by simp⟩

theorem only_readState : Only P (readState : Prog ε σ σ) :=
  fun _ _ => ⟨[], by simp [readState], by simp⟩

theorem only_modifyState (f : σ → σ) : Only P (modifyState f : Prog ε σ Unit) :=
  fun _ _ => ⟨[], by simp [modifyState], by simp⟩

theorem only_call {e : ε} (h : P e) : Only P (call e : Prog ε σ Int) :=
  fun _ _ => ⟨[e], rfl, by simpa using h⟩

theorem only_bind {m : Prog ε σ α} {f : α → Prog ε σ β} (first : Only P m)
    (rest : ∀ a, Only P (f a)) : Only P (m >>= f) := by
  intro env w
  obtain ⟨made, calls, all⟩ := first env w
  simp only [bind]
  cases result : m env w with
  | mk a w' =>
    rw [result] at calls
    cases a with
    | none => exact ⟨made, calls, all⟩
    | some a =>
      obtain ⟨later, calls', all'⟩ := rest a env w'
      refine ⟨made ++ later, ?_, fun e he => ?_⟩
      · have before : w'.2 = w.2 ++ made := calls
        rw [calls', before, List.append_assoc]
      · exact (List.mem_append.mp he).elim (all e) (all' e)

theorem Only.mono {Q : ε → Prop} {m : Prog ε σ α} (h : Only P m) (imp : ∀ e, P e → Q e) :
    Only Q m := fun env w =>
  let ⟨made, calls, all⟩ := h env w
  ⟨made, calls, fun e he => imp e (all e he)⟩

theorem only_perform {e : ε} (h : P e) : Only P (perform e : Prog ε σ Unit) :=
  only_bind (only_call h) fun _ => only_pure ()

theorem only_ite {c : Prop} [Decidable c] {m m' : Prog ε σ α} (h : Only P m) (h' : Only P m') :
    Only P (if c then m else m') := by
  split
  · exact h
  · exact h'

theorem only_guard {m : Prog ε σ α} {c : α → Prop} [∀ a, Decidable (c a)] {early : α → β}
    {rest : α → Prog ε σ β} (first : Only P m) (h : ∀ a, Only P (rest a)) :
    Only P (m >>= fun a => if c a then pure (early a) else rest a) :=
  only_bind first fun a => only_ite (only_pure _) (h a)

theorem only_whenever {c : Prop} [Decidable c] {m : Prog ε σ Unit} (h : Only P m) :
    Only P (whenever c m) := only_ite h (only_pure ())

theorem only_andAlso {a b : Prog ε σ Bool} (h : Only P a) (h' : Only P b) : Only P (andAlso a b) :=
  only_bind h fun _ => only_ite h' (only_pure _)

theorem only_loop {body : β → Prog ε σ (β ⊕ γ)} (h : ∀ b, Only P (body b)) (fuel : Nat) (b : β) :
    Only P (loop body fuel b) := by
  induction fuel generalizing b with
  | zero => exact only_stop
  | succ fuel ih =>
    refine only_bind (h b) fun r => ?_
    cases r with
    | inl b' => exact ih b'
    | inr c => exact only_pure c

theorem only_whileDo {test : Prog ε σ Bool} {body : Prog ε σ Unit} (fuel : Nat) (h : Only P test)
    (h' : Only P body) : Only P (whileDo fuel test body) :=
  only_loop (fun _ => only_bind h fun _ =>
    only_ite (only_bind h' fun _ => only_pure _) (only_pure _)) fuel ()

theorem only_times {body : β → Prog ε σ (Bool × β)} (h : ∀ b, Only P (body b)) (n : Nat) (b : β) :
    Only P (times body n b) := by
  induction n generalizing b with
  | zero => exact only_pure b
  | succ n ih => exact only_bind (h b) fun r => only_ite (ih r.2) (only_pure r.2)

theorem only_repeatDo {body : Prog ε σ Unit} (n : Nat) (h : Only P body) :
    Only P (repeatDo n body) :=
  only_times (fun _ => only_bind h fun _ => only_pure _) n ()

theorem Only.callsOf {m : Prog ε σ α} (h : Only P m) (env : Env ε) (s : σ) :
    ∀ e ∈ callsOf m env s, P e := by
  obtain ⟨made, calls, all⟩ := h env (s, [])
  rw [Calls.callsOf, calls]
  simpa using all

end Go2Cloud.Calls
