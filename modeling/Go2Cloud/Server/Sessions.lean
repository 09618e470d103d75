import Mathlib.Data.List.Chain
import Mathlib.Data.List.Nodup

/-! The receiver's session table and one pass of session_foreach(handle_active_cb)
over it (server/session.c, server/main.c). A session is known by its descriptor;
what handle_session reads from it only decides whether the call ends by removing
the session, which is a parameter here. -/
namespace Go2Cloud.Sessions

def maxSessions : Nat := 16

structure SessionTable where
  fds : List Int
  distinct : fds.Nodup
  limit : fds.length ≤ maxSessions

structure Pass where
  sessions : List Int
  calls : List Int

def sessionRemove (fd : Int) : List Int → List Int
  -- the first session with this descriptor is taken out and the others move up
  | [] => []
  | s :: rest => if s = fd then rest else s :: sessionRemove fd rest

section
variable (ready removes : Int → Bool)

def handleSession (fd : Int) (p : Pass) : Pass :=
  ⟨if removes fd then sessionRemove fd p.sessions else p.sessions, p.calls ++ [fd]⟩

def handleActiveCb (fd : Int) (p : Pass) : Pass :=
  if ready fd then handleSession removes fd p else p

theorem sessionRemove_length_le (fd : Int) (sessions : List Int) :
    (sessionRemove fd sessions).length ≤ sessions.length := by
  induction sessions with
  | nil => rfl
  | cons s rest ih =>
    rw [sessionRemove]
    split
    · exact Nat.le_succ _
    · exact Nat.succ_le_succ ih

theorem handleActiveCb_length_le (fd : Int) (p : Pass) :
    (handleActiveCb ready removes fd p).sessions.length ≤ p.sessions.length := by
  unfold handleActiveCb handleSession
  split
  · simp only
    split
    · exact sessionRemove_length_le fd p.sessions
    · rfl
  · rfl

theorem handleActiveCb_remaining {i : Nat} {p : Pass} (inside : i < p.sessions.length) (fd : Int) :
    (handleActiveCb ready removes fd p).sessions.length - (i + 1) < p.sessions.length - i := by
  have shorter := handleActiveCb_length_le ready removes fd p
  omega

/-- The loop of session_foreach from index `i` on. handle_active_cb returns 0, so
only the count ends it. -/
def sessionForeach (i : Nat) (p : Pass) : Pass :=
  if _inside : i < p.sessions.length then
    sessionForeach (i + 1) (handleActiveCb ready removes p.sessions[i] p)
  else p
termination_by p.sessions.length - i
decreasing_by exact handleActiveCb_remaining ready removes _inside _

-- the descriptors handle_session is called for in one pass
def serve (t : SessionTable) : List Int := (sessionForeach ready removes 0 ⟨t.fds, []⟩).calls

/-- The calls of a pass by recursion over the array; with `skip` the next session has
moved below the index. -/
def served (skip : Bool) : List Int → List Int
  | [] => []
  | fd :: rest =>
    if skip then served false rest
    else if ready fd then fd :: served (removes fd) rest
    else served false rest

theorem sessionRemove_append {fd : Int} {before : List Int} (other : fd ∉ before)
    (rest : List Int) : sessionRemove fd (before ++ fd :: rest) = before ++ rest := by
  induction before with
  | nil => simp [sessionRemove]
  | cons s before ih =>
    rw [List.mem_cons, not_or] at other
    rw [List.cons_append, sessionRemove, if_neg (Ne.symm other.1), ih other.2, List.cons_append]

theorem sessionForeach_calls (skip : Bool) (before rest calls : List Int)
    (distinct : (before ++ rest).Nodup) :
    (sessionForeach ready removes (before.length + skip.toNat) ⟨before ++ rest, calls⟩).calls =
      calls ++ served ready removes skip rest := by
  -- removing session `i` puts its successor at `i`, and the loop goes on at `i + 1`
  induction rest generalizing skip before calls with
  | nil =>
    rw [sessionForeach, dif_neg (by simp)]
    simp [served]
  | cons fd rest ih =>
    -- the next session stays where it is: it joins those already passed
    have passed (calls : List Int) :
        (sessionForeach ready removes (before.length + 1) ⟨before ++ fd :: rest, calls⟩).calls =
          calls ++ served ready removes false rest := by
      have next := ih false (before ++ [fd]) calls (by simpa using distinct)
      simpa using next
    cases skip with
    | true =>
      rw [served, if_pos rfl]
      exact passed calls
    | false =>
      have at_index : (before ++ fd :: rest)[before.length]? = some fd := by simp
      have other : fd ∉ before := by
        intro member
        exact (List.nodup_append.mp distinct).2.2 fd member fd List.mem_cons_self rfl
      have gone : (before ++ rest).Nodup := distinct.sublist (by simp)
      rw [sessionForeach, dif_pos (by simp), served, if_neg (by simp)]
      simp only [Bool.toNat_false, Nat.add_zero, List.getElem_append_right le_rfl, Nat.sub_self,
        List.getElem_cons_zero, handleActiveCb]
      split
      next active =>
        simp only [handleSession]
        cases removes fd with
        | true =>
          rw [if_pos rfl, sessionRemove_append other]
          have next := ih true before (calls ++ [fd]) gone
          simpa using next
        | false => simpa using passed (calls ++ [fd])
      next => exact passed calls

theorem serve_eq (t : SessionTable) : serve ready removes t = served ready removes false t.fds := by
  have all := sessionForeach_calls ready removes false [] t.fds [] (by simpa using t.distinct)
  simpa [serve] using all

theorem served_sublist (skip : Bool) (fds : List Int) :
    (served ready removes skip fds).Sublist fds := by
  induction fds generalizing skip with
  | nil => exact .slnil
  | cons fd rest ih =>
    rw [served]
    split_ifs
    · exact (ih false).cons fd
    · exact (ih _).cons_cons fd
    · exact (ih false).cons fd

def PassesOver (a b : Int) : Prop := ready a = true ∧ removes a = true ∧ ready b = true

theorem served_all_iff (skip : Bool) {fds : List Int} (distinct : fds.Nodup) :
    (∀ fd ∈ fds, ready fd = true → fd ∈ served ready removes skip fds) ↔
      (skip = true → ∀ fd ∈ fds.head?, ready fd = false) ∧
        fds.IsChain fun a b => ¬ PassesOver ready removes a b := by
  induction fds generalizing skip with
  | nil => simp
  | cons fd rest ih =>
    obtain ⟨fresh, distinct⟩ := List.nodup_cons.mp distinct
    have unserved (skip : Bool) : fd ∉ served ready removes skip rest := fun member =>
      fresh ((served_sublist ready removes skip rest).subset member)
    rw [List.forall_mem_cons, List.isChain_cons, served]
    by_cases active : ready fd = true
    · cases skip with
      | true => simp [active, unserved]
      | false =>
        have others : (∀ x ∈ rest, ready x = true →
            x ∈ fd :: served ready removes (removes fd) rest) ↔
            ∀ x ∈ rest, ready x = true → x ∈ served ready removes (removes fd) rest := by
          refine forall₂_congr fun x member => ?_
          have differs : x ≠ fd := fun same => fresh (same ▸ member)
          simp [differs]
        have crossed : (∀ b ∈ rest.head?, ¬ PassesOver ready removes fd b) ↔
            (removes fd = true → ∀ b ∈ rest.head?, ready b = false) := by
          simp only [PassesOver, active, true_and, not_and, Bool.not_eq_true]
          exact ⟨fun h gone b hb => h b hb gone, fun h b hb gone => h gone b hb⟩
        rw [if_neg Bool.false_ne_true, if_pos active, others, ih (removes fd) distinct, crossed]
        simp
    · have idle (b : Int) : ¬ PassesOver ready removes fd b := fun crossed => active crossed.1
      simp [active, idle, ih false distinct]

/-- A pass serves every ready session exactly once if and only if no ready session
stands right behind one that is served and removed. -/
theorem serve_once_iff (t : SessionTable) :
    (∀ fd ∈ t.fds, ready fd = true → (serve ready removes t).count fd = 1) ↔
      t.fds.IsChain fun a b => ¬ PassesOver ready removes a b := by
  have once : (serve ready removes t).Nodup := by
    rw [serve_eq]
    exact t.distinct.sublist (served_sublist ready removes false t.fds)
  have counted (fd : Int) : (serve ready removes t).count fd = 1 ↔
      fd ∈ served ready removes false t.fds := by
    rw [← serve_eq, ← List.count_pos_iff]
    have most := List.nodup_iff_count_le_one.mp once fd
    omega
  simp only [counted, served_all_iff ready removes false t.distinct, Bool.false_eq_true,
    false_implies, true_and]

end

/-- Both sessions are ready; the first one's peer has closed. -/
theorem second_session_passed_over :
    ∃ t : SessionTable, t.fds = [4, 5] ∧
      serve (fun _ => true) (fun fd => fd == 4) t = [4] :=
  ⟨⟨[4, 5], by decide, by decide⟩, rfl, by rw [serve_eq]; decide⟩

end Go2Cloud.Sessions
