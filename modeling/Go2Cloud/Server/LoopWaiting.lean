import Go2Cloud.Server.ServerRun

/-! How long a session can wait under the main loop. A walk over the table passes over the
session behind one it removes, but that session moves up by it, so its place in the table bounds
the walks that pass it over. -/
namespace Go2Cloud.ServerRun
open BlockWriter Transition Wire

section Walk
variable (z : Zstd) (isset : Int → Bool) (visits : Int → Visit) {cfg : Config} {st : State}
  {i j : Nat} {s t : Session}

theorem handleActiveCb_log (inv : Sound cfg st) (found : st.sessions[i]? = some s) :
    ∃ new, (handleActiveCb z isset visits i s st).log = st.log ++ new ∧
      (isset s.fd = true → .visited s.number ∈ new) := by
  rcases handleActiveCb_spec z isset visits inv.distinct found with
    ⟨idle, same⟩ | ⟨-, gone, new, p, h⟩
  · exact ⟨[], by rw [same, List.append_nil], fun active => by simp [idle] at active⟩
  · have log := h.served.log
    simp only [List.append_assoc] at log
    rw [h.result]
    cases gone with
    | false => exact ⟨_, log, fun _ => by simp⟩
    | true =>
      refine ⟨[.visited s.number] ++ new ++ [.removed s.number, .closed s.fd], ?_, fun _ => by simp⟩
      simp only [if_true, discard, log, List.append_assoc]

theorem sessionForeach_log (i : Nat) (inv : Sound cfg st) :
    ∃ new, (sessionForeach z isset visits i st).log = st.log ++ new := by
  fun_induction sessionForeach z isset visits i st with
  | case1 i st inside ih =>
    have found := List.getElem?_eq_getElem inside
    obtain ⟨new, log, -⟩ := handleActiveCb_log z isset visits inv found
    obtain ⟨later, rest⟩ := ih (inv.handleActiveCb isset visits found)
    exact ⟨new ++ later, by rw [rest, log, List.append_assoc]⟩
  | case2 => exact ⟨[], (List.append_nil _).symm⟩

theorem handleActiveCb_other (inv : Sound cfg st) (found : st.sessions[i]? = some s)
    (found' : st.sessions[j]? = some t) (other : j ≠ i) :
    (handleActiveCb z isset visits i s st).sessions[j]? = some t ∨
      i < j ∧ (handleActiveCb z isset visits i s st).sessions[j - 1]? = some t := by
  rcases handleActiveCb_spec z isset visits inv.distinct found with
    ⟨-, same⟩ | ⟨-, gone, new, p, h⟩
  · rw [same]
    exact .inl found'
  · rw [h.result]
    cases gone with
    | false =>
      refine .inl ?_
      exact (List.getElem?_set_ne (Ne.symm other)).trans found'
    | true =>
      simp only [if_true, discard]
      rcases Nat.lt_or_gt_of_ne other with below | above
      · exact .inl (by rw [List.getElem?_eraseIdx_of_lt below, found'])
      · refine .inr ⟨above, ?_⟩
        rw [List.getElem?_eraseIdx_of_ge (by omega), Nat.sub_add_cancel (by omega), found']

theorem sessionForeach_passed (inv : Sound cfg st) (found : st.sessions[j]? = some t)
    (below : j < i) : (sessionForeach z isset visits i st).sessions[j]? = some t := by
  fun_induction sessionForeach z isset visits i st with
  | case1 i st inside ih =>
    have here := List.getElem?_eq_getElem inside
    have stays : (handleActiveCb z isset visits i st.sessions[i] st).sessions[j]? = some t := by
      rcases handleActiveCb_other z isset visits inv here found (by omega) with same | ⟨above, -⟩
      · exact same
      · omega
    exact ih (inv.handleActiveCb isset visits here) stays (by omega)
  | case2 => exact found

/-- A session ahead of the walk that is ready is visited or moves up. -/
theorem sessionForeach_reaches (inv : Sound cfg st) (found : st.sessions[j]? = some t)
    (ahead : i ≤ j) (active : isset t.fd = true) :
    ∃ new, (sessionForeach z isset visits i st).log = st.log ++ new ∧
      (.visited t.number ∈ new ∨
        ∃ j' < j, (sessionForeach z isset visits i st).sessions[j']? = some t) := by
  fun_induction sessionForeach z isset visits i st generalizing j with
  | case1 i st inside ih =>
    have here := List.getElem?_eq_getElem inside
    have sound := inv.handleActiveCb (z := z) isset visits here
    obtain ⟨new, log, visited⟩ := handleActiveCb_log z isset visits inv here
    by_cases now : j = i
    · subst now
      obtain rfl : st.sessions[j] = t := Option.some.inj (here.symm.trans found)
      obtain ⟨later, rest⟩ := sessionForeach_log z isset visits (j + 1) sound
      refine ⟨new ++ later, by rw [rest, log, List.append_assoc], .inl ?_⟩
      exact List.mem_append_left _ (visited active)
    · rcases handleActiveCb_other z isset visits inv here found now with stays | ⟨-, moved⟩
      · obtain ⟨later, rest, done⟩ := ih sound stays (by omega)
        refine ⟨new ++ later, by rw [rest, log, List.append_assoc], ?_⟩
        exact done.imp (List.mem_append_right _) id
      · -- the walk goes on at i + 1, which may be beyond the session's new place
        by_cases skipped : j - 1 < i + 1
        · obtain ⟨later, rest⟩ := sessionForeach_log z isset visits (i + 1) sound
          exact ⟨new ++ later, by rw [rest, log, List.append_assoc],
            .inr ⟨j - 1, by omega, sessionForeach_passed z isset visits sound moved skipped⟩⟩
        · obtain ⟨later, rest, done⟩ := ih sound moved (by omega)
          refine ⟨new ++ later, by rw [rest, log, List.append_assoc], ?_⟩
          refine done.imp (List.mem_append_right _) ?_
          rintro ⟨j', less, place⟩
          exact ⟨j', by omega, place⟩
  | case2 i st outside =>
    have inside := (List.getElem?_eq_some_iff.mp found).1
    omega

end Walk

theorem le_findMaxFd (listenFd : Int) (sessions : List Session) :
    listenFd ≤ findMaxFd listenFd sessions ∧ ∀ s ∈ sessions, s.fd ≤ findMaxFd listenFd sessions := by
  induction sessions generalizing listenFd with
  | nil => exact ⟨le_rfl, by simp⟩
  | cons t rest ih =>
    rw [findMaxFd, List.foldl_cons]
    obtain ⟨first, others⟩ := ih (if t.fd > listenFd then t.fd else listenFd)
    have least : listenFd ≤ (if t.fd > listenFd then t.fd else listenFd) ∧
        t.fd ≤ if t.fd > listenFd then t.fd else listenFd := by
      split <;> omega
    exact ⟨least.1.trans first, List.forall_mem_cons.mpr ⟨least.2.trans first, others⟩⟩

def Reports (fd : Int) : Pass → Prop
  | .selected _ ready _ => ready fd = true
  | _ => False

section Waiting
variable {cfg : Config} {z : Zstd} {st st' : State}

theorem accepted_extends (cfg : Config) (st : State) (listening : Option (Option Client)) :
    (∃ new, (accepted cfg st listening).log = st.log ++ new) ∧
      ∀ (j : Nat) (t : Session), st.sessions[j]? = some t →
        (accepted cfg st listening).sessions[j]? = some t := by
  match listening with
  | some (some client) =>
    have spec := acceptClient_spec cfg st client
    simp only [accepted]
    generalize acceptClient cfg st client = st' at spec ⊢
    cases spec with
    | refused => exact ⟨⟨_, rfl⟩, fun _ _ found => found⟩
    | created room configured =>
      refine ⟨⟨_, rfl⟩, fun j t found => ?_⟩
      rw [List.getElem?_append_left (List.getElem?_eq_some_iff.mp found).1, found]
  | some none => exact ⟨⟨[], (List.append_nil _).symm⟩, fun _ _ found => found⟩
  | none => exact ⟨⟨[], (List.append_nil _).symm⟩, fun _ _ found => found⟩

theorem step_reaches (inv : Sound cfg st) {pass : Pass} (fresh : Fresh cfg st pass) {j : Nat}
    {t : Session} (found : st.sessions[j]? = some t) (reports : Reports t.fd pass)
    (h : step cfg z st pass = some st') :
    ∃ new, st'.log = st.log ++ new ∧
      (.visited t.number ∈ new ∨ ∃ j' < j, st'.sessions[j']? = some t) := by
  unfold step at h
  split at h
  · cases h
  cases pass with
  | interrupted => exact reports.elim
  | failed => exact reports.elim
  | selected listening ready visits =>
    cases h
    have member := List.mem_of_getElem? found
    have below : t.fd < findMaxFd cfg.listenFd st.sessions + 1 :=
      Int.lt_add_one_of_le ((le_findMaxFd cfg.listenFd st.sessions).2 t member)
    have active : isset cfg st ready t.fd = true := by
      have listed : t.fd ∈ st.fds := List.mem_map_of_mem member
      have set : ready t.fd = true := reports
      simp [isset, listed, below, set]
    have sound : Sound cfg (accepted cfg st listening) := by
      match listening with
      | some (some client) => exact inv.acceptClient fresh.1 fresh.2
      | some none => exact inv
      | none => exact inv
    obtain ⟨⟨new, log⟩, stays⟩ := accepted_extends cfg st listening
    obtain ⟨later, rest, done⟩ := sessionForeach_reaches z _ visits sound (stays j t found)
      (Nat.zero_le j) active
    refine ⟨new ++ later, by rw [rest, log, List.append_assoc], ?_⟩
    exact done.imp (List.mem_append_right _) id

theorem step_log (inv : Sound cfg st) {pass : Pass} (fresh : Fresh cfg st pass)
    (h : step cfg z st pass = some st') : ∃ new, st'.log = st.log ++ new := by
  unfold step at h
  split at h
  · cases h
  cases pass with
  | interrupted =>
    cases h
    exact ⟨[], (List.append_nil _).symm⟩
  | failed =>
    cases h
    exact ⟨[], (List.append_nil _).symm⟩
  | selected listening ready visits =>
    cases h
    have sound : Sound cfg (accepted cfg st listening) := by
      match listening with
      | some (some client) => exact inv.acceptClient fresh.1 fresh.2
      | some none => exact inv
      | none => exact inv
    obtain ⟨⟨new, log⟩, -⟩ := accepted_extends cfg st listening
    obtain ⟨later, rest⟩ := sessionForeach_log z (isset cfg st ready) visits 0 sound
    exact ⟨new ++ later, by rw [rest, log, List.append_assoc]⟩

theorem run_log (inv : Sound cfg st) {passes : List Pass}
    (h : run (step cfg z) st passes = some st')
    (kernel : Meets (step cfg z) (Fresh cfg) st passes) : ∃ new, st'.log = st.log ++ new := by
  induction passes generalizing st with
  | nil => exact ⟨[], by rw [List.append_nil, Option.some.inj h]⟩
  | cons pass passes ih =>
    obtain ⟨mid, first, rest⟩ := run_cons h
    obtain ⟨new, log⟩ := step_log inv kernel.1 first
    obtain ⟨later, log'⟩ := ih (step_sound inv kernel.1 first) rest (kernel.2 mid first)
    exact ⟨new ++ later, by rw [log', log, List.append_assoc]⟩

theorem run_reaches (inv : Sound cfg st) {passes : List Pass}
    (h : run (step cfg z) st passes = some st')
    (kernel : Meets (step cfg z) (Fresh cfg) st passes) {j : Nat} {t : Session}
    (found : st.sessions[j]? = some t) (reports : ∀ pass ∈ passes, Reports t.fd pass)
    (enough : j < passes.length) : ∃ new, st'.log = st.log ++ new ∧ .visited t.number ∈ new := by
  induction passes generalizing st j with
  | nil => simp at enough
  | cons pass passes ih =>
    obtain ⟨mid, first, rest⟩ := run_cons h
    have sound := step_sound inv kernel.1 first
    have later := kernel.2 mid first
    obtain ⟨new, log, visited | ⟨j', less, place⟩⟩ :=
      step_reaches inv kernel.1 found (reports pass List.mem_cons_self) first
    · obtain ⟨more, log'⟩ := run_log sound rest later
      exact ⟨new ++ more, by rw [log', log, List.append_assoc], List.mem_append_left _ visited⟩
    · rw [List.length_cons] at enough
      obtain ⟨more, log', visited⟩ := ih sound rest later place
        (fun pass member => reports pass (List.mem_cons_of_mem _ member)) (by omega)
      exact ⟨new ++ more, by rw [log', log, List.append_assoc], List.mem_append_right _ visited⟩

end Waiting

/-- From any reachable state, a session that select() keeps reporting is visited at the latest in
as many turns of the loop as there are sessions up to it in the table. -/
theorem ready_session_visited (cfg : Config) (z : Zstd) (w : Writer) (before passes : List Pass)
    (st st' : State) (reached : run (step cfg z) (start w) before = some st)
    (h : run (step cfg z) st passes = some st')
    (kernel : Meets (step cfg z) (Fresh cfg) (start w) (before ++ passes)) (j : Nat) (t : Session)
    (found : st.sessions[j]? = some t) (reports : ∀ pass ∈ passes, Reports t.fd pass)
    (enough : j + 1 = passes.length) : .visited t.number ∈ st'.log.drop st.log.length := by
  obtain ⟨first, later⟩ := meets_append.mp kernel
  have inv := run_sound (sound_start cfg w) reached first
  obtain ⟨new, log, visited⟩ :=
    run_reaches inv h (later st reached) found reports (by omega)
  rw [log, List.drop_left]
  exact visited

/-- The second session is passed over when the first is removed, and visited in the next turn. -/
theorem ready_session_visited_farewells :
    .visited 1 ∉ (afterFirst blankWriter).log.drop (afterBegin blankWriter).log.length ∧
      .visited 1 ∈ (afterSecond blankWriter).log.drop (afterBegin blankWriter).log.length := by
  refine ⟨?_, ready_session_visited ⟨3, 7⟩ storedZstd blankWriter twoClients twoFarewells
    (afterBegin blankWriter) (afterSecond blankWriter) (run_twoClients blankWriter)
    (run_twoFarewells blankWriter) (fresh_farewells blankWriter) 1
    ⟨1, 5, marker.take 3, false, 0, 0⟩ rfl ?_ rfl⟩
  · rw [afterFirst, List.drop_left]
    simp
  · simp [twoFarewells, Reports, firstLeaves, secondLeaves]

end Go2Cloud.ServerRun
