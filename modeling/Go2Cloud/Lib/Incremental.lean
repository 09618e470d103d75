import Mathlib.Data.List.Basic

/-! Incremental decoders: a step looks at the buffered symbols and either waits
for more, takes one item off the front, or fails. The results say when draining
a buffer does not depend on how its contents arrived. -/
namespace Go2Cloud.Incremental

inductive Outcome (ε β : Type) where
  | more
  | item (b : β)
  | fail (e : ε)
  deriving DecidableEq, Repr

def Outcome.ofExcept {ε β : Type} : Except ε β → Outcome ε β
  | .ok b => .item b
  | .error e => .fail e

structure Drained (α β : Type) where
  items : List β
  failed : Bool
  buf : List α
  deriving DecidableEq, Repr

variable {α β ε : Type}

def drainLoop (step : List α → Outcome ε β × List α) :
    Nat → Outcome ε β × List α → Drained α β
  | 0, (_, buf) => ⟨[], false, buf⟩
  | _ + 1, (.more, buf) => ⟨[], false, buf⟩
  | _ + 1, (.fail _, buf) => ⟨[], true, buf⟩
  | fuel + 1, (.item b, buf) =>
    let rest := drainLoop step fuel (step buf)
    { rest with items := b :: rest.items }

def drain (step : List α → Outcome ε β × List α) (buf : List α) : Drained α β :=
  drainLoop step (buf.length + 1) (step buf)

/-- What a step decides about a buffer stands when more symbols follow it. -/
structure Stable (step : List α → Outcome ε β × List α) : Prop where
  waits : ∀ {s r}, step s = (.more, r) → r = s
  shrinks : ∀ {s b r}, step s = (.item b, r) → r.length < s.length
  item_append : ∀ {s b r} t, step s = (.item b, r) → step (s ++ t) = (.item b, r ++ t)
  fail_append : ∀ {s e r} t, step s = (.fail e, r) → step (s ++ t) = (.fail e, r ++ t)

variable {step : List α → Outcome ε β × List α}

theorem drainLoop_fuel (h : Stable step) {s : List α} {fuel more : Nat}
    (enough : s.length < fuel) (le : fuel ≤ more) :
    drainLoop step fuel (step s) = drainLoop step more (step s) := by
  induction fuel generalizing s more with
  | zero => omega
  | succ fuel ih =>
    obtain ⟨more, rfl⟩ : ∃ m, more = m + 1 := ⟨more - 1, by omega⟩
    rcases hs : step s with ⟨_ | b | e, r⟩
    · rfl
    · have shorter := h.shrinks hs
      simp only [drainLoop]
      rw [ih (by omega) (show fuel ≤ more by omega)]
    · rfl

theorem drain_eq_drainLoop (h : Stable step) {s : List α} {fuel : Nat} (enough : s.length < fuel) :
    drainLoop step fuel (step s) = drain step s :=
  (drainLoop_fuel h (Nat.lt_succ_self _) enough).symm

theorem drain_more {s r : List α} (hs : step s = (.more, r)) : drain step s = ⟨[], false, r⟩ := by
  simp only [drain, hs, drainLoop]

theorem drain_fail {s r : List α} {e : ε} (hs : step s = (.fail e, r)) :
    drain step s = ⟨[], true, r⟩ := by
  simp only [drain, hs, drainLoop]

theorem drain_item (h : Stable step) {s r : List α} {b : β} (hs : step s = (.item b, r)) :
    drain step s = { drain step r with items := b :: (drain step r).items } := by
  have shorter := h.shrinks hs
  rw [← drain_eq_drainLoop h shorter]
  simp only [drain, hs, drainLoop]

theorem drain_induction (h : Stable step) {motive : List α → Prop}
    (more : ∀ s, step s = (.more, s) → motive s)
    (fail : ∀ s e r, step s = (.fail e, r) → motive s)
    (item : ∀ s b r, step s = (.item b, r) → motive r → motive s) (s : List α) : motive s := by
  induction hn : s.length using Nat.strongRecOn generalizing s with
  | ind n ih =>
    rcases hs : step s with ⟨_ | b | e, r⟩
    · have same := h.waits hs
      exact more s (same ▸ hs)
    · have shorter := h.shrinks hs
      exact item s b r hs (ih _ (by omega) r rfl)
    · exact fail s e r hs

theorem drain_waits (h : Stable step) (s : List α) (ok : (drain step s).failed = false) :
    step (drain step s).buf = (.more, (drain step s).buf) := by
  induction s using drain_induction h with
  | more s hs => rw [drain_more hs, hs]
  | fail s e r hs => simp [drain_fail hs] at ok
  | item s b r hs ih =>
    rw [drain_item h hs] at ok ⊢
    exact ih ok

theorem drain_append_failed (h : Stable step) (s t : List α)
    (bad : (drain step s).failed = true) :
    (drain step (s ++ t)).items = (drain step s).items ∧
      (drain step (s ++ t)).failed = true := by
  induction s using drain_induction h with
  | more s hs => simp [drain_more hs] at bad
  | fail s e r hs => simp [drain_fail hs, drain_fail (h.fail_append t hs)]
  | item s b r hs ih =>
    rw [drain_item h hs] at bad ⊢
    rw [drain_item h (h.item_append t hs)]
    obtain ⟨items, failed⟩ := ih bad
    exact ⟨by simp only [items], failed⟩

/-- Draining what has arrived and then the rest is draining everything at once. -/
theorem drain_append (h : Stable step) (s t : List α) (ok : (drain step s).failed = false) :
    drain step (s ++ t) =
      { drain step ((drain step s).buf ++ t) with
        items := (drain step s).items ++ (drain step ((drain step s).buf ++ t)).items } := by
  induction s using drain_induction h with
  | more s hs => simp [drain_more hs]
  | fail s e r hs => simp [drain_fail hs] at ok
  | item s b r hs ih =>
    rw [drain_item h hs] at ok ⊢
    rw [drain_item h (h.item_append t hs), ih ok]
    simp only [List.cons_append]

theorem drainLoop_mem {fuel : Nat} {first : Outcome ε β × List α} {b : β}
    (h : b ∈ (drainLoop step fuel first).items) :
    (∃ r, first = (.item b, r)) ∨ ∃ s r, step s = (.item b, r) := by
  induction fuel generalizing first with
  | zero => cases h
  | succ fuel ih =>
    obtain ⟨_ | c | e, r⟩ := first
    · cases h
    · rcases List.mem_cons.mp h with rfl | later
      · exact .inl ⟨r, rfl⟩
      · rcases ih later with ⟨s, next⟩ | found
        · exact .inr ⟨r, s, next⟩
        · exact .inr found
    · cases h

end Go2Cloud.Incremental
