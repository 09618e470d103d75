import Mathlib.Data.List.Basic

/-! Readers of a buffer at a position. A reader is exact for a grammar if it succeeds
on just the byte strings the grammar derives, whatever surrounds them; exact readers
compose. -/
namespace Go2Cloud.Readers

variable {ε α β γ : Type}

/-- From a buffer and a position to a value and the position behind what was read. -/
abbrev Reader (ε α β : Type) := List α → Nat → Except ε (β × Nat)

def Reader.andThen (p : Reader ε α β) (q : β → Reader ε α γ) : Reader ε α γ := fun buf pos => do
  let (x, pos) ← p buf pos
  q x buf pos

def Exact (p : Reader ε α β) (G : List α → β → Prop) : Prop :=
  ∀ pre rest x pos, p (pre ++ rest) pre.length = .ok (x, pos) ↔
    ∃ b tail, rest = b ++ tail ∧ G b x ∧ pos = pre.length + b.length

theorem Exact.congr {p : Reader ε α β} {G H : List α → β → Prop} (exact_p : Exact p G)
    (same : ∀ b x, G b x ↔ H b x) : Exact p H := by
  intro pre rest x pos
  simp only [exact_p pre rest x pos, same]

def Reader.give (x : β) : Reader ε α β := fun _ pos => .ok (x, pos)

theorem exact_give (x : β) :
    Exact (Reader.give x : Reader ε α β) fun b y => b = [] ∧ y = x := by
  intro pre rest y pos
  simp only [Reader.give, Except.ok.injEq, Prod.mk.injEq]
  constructor
  · rintro ⟨rfl, rfl⟩
    exact ⟨[], rest, rfl, ⟨rfl, rfl⟩, rfl⟩
  · rintro ⟨b, tail, rfl, ⟨rfl, rfl⟩, rfl⟩
    exact ⟨rfl, rfl⟩

def Seq (G : List α → β → Prop) (H : β → List α → γ → Prop) (b : List α) (y : γ) : Prop :=
  ∃ b₁ x b₂, b = b₁ ++ b₂ ∧ G b₁ x ∧ H x b₂ y

theorem bind_eq_ok {x : Except ε α} {f : α → Except ε β} {r : β} :
    x >>= f = .ok r ↔ ∃ a, x = .ok a ∧ f a = .ok r := by
  cases x with
  | error e => simp [bind, Except.bind]
  | ok a => simp [bind, Except.bind]

theorem Exact.andThen {p : Reader ε α β} {q : β → Reader ε α γ} {G : List α → β → Prop}
    {H : β → List α → γ → Prop} (first : Exact p G) (second : ∀ x, Exact (q x) (H x)) :
    Exact (p.andThen q) (Seq G H) := by
  intro pre rest y pos
  rw [Reader.andThen, bind_eq_ok]
  constructor
  · rintro ⟨⟨x, mid⟩, read, rest_read⟩
    obtain ⟨b₁, tail₁, rfl, derives₁, rfl⟩ := (first pre rest x mid).mp read
    rw [← List.append_assoc, ← List.length_append] at rest_read
    obtain ⟨b₂, tail₂, rfl, derives₂, rfl⟩ := (second x _ _ y pos).mp rest_read
    refine ⟨b₁ ++ b₂, tail₂, (List.append_assoc _ _ _).symm, ⟨b₁, x, b₂, rfl, derives₁, derives₂⟩, ?_⟩
    rw [List.length_append, List.length_append, Nat.add_assoc]
  · rintro ⟨b, tail, rfl, ⟨b₁, x, b₂, rfl, derives₁, derives₂⟩, rfl⟩
    refine ⟨(x, pre.length + b₁.length), (first _ _ _ _).mpr ⟨b₁, b₂ ++ tail, ?_, derives₁, rfl⟩, ?_⟩
    · rw [List.append_assoc]
    · rw [List.append_assoc, ← List.append_assoc, ← List.length_append]
      refine (second x _ _ _ _).mpr ⟨b₂, tail, rfl, derives₂, ?_⟩
      rw [List.length_append, List.length_append, Nat.add_assoc]

def FailsOnly (p : Reader ε α β) (e : ε) : Prop := ∀ buf pos e', p buf pos = .error e' → e' = e

theorem FailsOnly.andThen {p : Reader ε α β} {q : β → Reader ε α γ} {e : ε} (first : FailsOnly p e)
    (second : ∀ x, FailsOnly (q x) e) : FailsOnly (p.andThen q) e := by
  intro buf pos e' failed
  rw [Reader.andThen] at failed
  cases read : p buf pos with
  | error e₁ =>
    rw [read] at failed
    cases failed
    exact first buf pos _ read
  | ok r =>
    rw [read] at failed
    exact second r.1 buf r.2 e' failed

end Go2Cloud.Readers
