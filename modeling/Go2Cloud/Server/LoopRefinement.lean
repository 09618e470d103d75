import Go2Cloud.Server.ServerRun
import Mathlib.Tactic.Tauto

/-! The main loop refines the receiver of `Go2Cloud.Receiver`, which takes connections, removals
and messages in any order. -/
namespace Go2Cloud.ServerRun
open Protocol BlockWriter Transition Wire

structure Abstracts (cfg : Config) (st : State) (r : Receiver.State) : Prop where
  writer : r.writer = st.writer
  limit : r.maxConnections = cfg.maxConnections.toNat
  created : r.sessions.length = st.created
  live : ∀ s ∈ st.sessions, ∃ rs, r.sessions[s.number]? = some rs ∧ Matches s rs
  ended : ∀ (number : Nat) (rs : Receiver.Session), r.sessions[number]? = some rs →
    rs.live = true → number ∈ st.sessions.map Session.number

theorem countP_eq_indices {α : Type} (p : α → Bool) (l : List α) :
    l.countP p = ((List.range l.length).filter fun n => l[n]?.any p).length := by
  induction l using List.reverseRecOn with
  | nil => rfl
  | append_singleton l x ih =>
    have before : (List.range l.length).filter (fun n => (l ++ [x])[n]?.any p) =
        (List.range l.length).filter fun n => l[n]?.any p := by
      refine List.filter_congr fun n member => ?_
      rw [List.getElem?_append_left (List.mem_range.mp member)]
    rw [List.countP_append, ih, List.length_append, List.length_singleton, List.range_succ,
      List.filter_append, before, List.length_append]
    cases hx : p x <;> simp [hx]

theorem Abstracts.sessionCount {cfg : Config} {st : State} {r : Receiver.State}
    (h : Abstracts cfg st r) (inv : Sound cfg st) : r.sessionCount = st.sessions.length := by
  have distinct : (st.sessions.map Session.number).Nodup := inv.ordered.imp fun lt => Nat.ne_of_lt lt
  have perm : ((List.range r.sessions.length).filter fun n =>
      r.sessions[n]?.any Receiver.Session.live).Perm (st.sessions.map Session.number) := by
    refine (List.perm_ext_iff_of_nodup (List.nodup_range.filter _) distinct).mpr fun n => ?_
    simp only [List.mem_filter, List.mem_range]
    constructor
    · rintro ⟨inside, live⟩
      rw [List.getElem?_eq_getElem inside, Option.any_some] at live
      exact h.ended n _ (List.getElem?_eq_getElem inside) live
    · intro listed
      obtain ⟨s, member, rfl⟩ := List.mem_map.mp listed
      obtain ⟨rs, found, same⟩ := h.live s member
      exact ⟨(List.getElem?_eq_some_iff.mp found).1, by rw [found, Option.any_some, same.live]⟩
  rw [Receiver.State.sessionCount, countP_eq_indices, perm.length_eq, List.length_map]

section Abstracts
variable {cfg : Config} {z : Zstd} {st st' : State} {r : Receiver.State} {i : Nat} {s : Session}
  {gone : Bool} {new : List Happening} {p : Progress}

theorem Abstracts.resume (h : Abstracts cfg st r) (inv : Sound cfg st)
    (called : Called z st i s st' gone new p) (found : st.sessions[i]? = some s)
    {rs : Receiver.Session} (same : Matches p.session rs) :
    Abstracts cfg (resume st i p) (worked r s.number rs p.writer) where
  writer := rfl
  limit := h.limit
  created := (List.length_set ..).trans h.created
  live t member := by
    obtain ⟨j, found'⟩ := List.mem_iff_getElem?.mp member
    by_cases here : j = i
    · subst here
      obtain ⟨rs', at_number, -⟩ := h.live s (List.mem_of_getElem? found)
      have inside := (List.getElem?_eq_some_iff.mp found).1
      obtain rfl : p.session = t := by simpa [ServerRun.resume, inside] using found'
      exact ⟨rs, by rw [called.served.number]; exact worked_sessions at_number .., same⟩
    · have old : st.sessions[j]? = some t := by
        simpa [ServerRun.resume, List.getElem?_set_ne (Ne.symm here)] using found'
      obtain ⟨rs', at_number, same'⟩ := h.live t (List.mem_of_getElem? old)
      refine ⟨rs', ?_, same'⟩
      rw [worked, List.getElem?_set_ne (Ne.symm (other_number inv found old here)), at_number]
  ended number rs' at_number live := by
    rw [numbers_resume called found]
    by_cases here : number = s.number
    · rw [here]
      exact List.mem_map_of_mem (List.mem_of_getElem? found)
    · rw [worked, List.getElem?_set_ne (Ne.symm here)] at at_number
      exact h.ended number rs' at_number live

theorem Abstracts.discard (h : Abstracts cfg st r) (inv : Sound cfg st)
    (found : st.sessions[i]? = some s) {rs : Receiver.Session} (ended : rs.live = false) :
    Abstracts cfg (discard st i s p) (worked r s.number rs p.writer) where
  writer := rfl
  limit := h.limit
  created := (List.length_set ..).trans h.created
  live t member := by
    obtain ⟨j, other, old⟩ := List.mem_eraseIdx_iff_getElem?.mp member
    obtain ⟨rs', at_number, same'⟩ := h.live t (List.mem_of_getElem? old)
    refine ⟨rs', ?_, same'⟩
    rw [worked, List.getElem?_set_ne (Ne.symm (other_number inv found old other)), at_number]
  ended number rs' at_number live := by
    have other : s.number ≠ number := by
      rintro rfl
      obtain ⟨rs₀, known, -⟩ := h.live s (List.mem_of_getElem? found)
      have same : rs = rs' := Option.some.inj ((worked_sessions known ..).symm.trans at_number)
      rw [← same, ended] at live
      cases live
    rw [worked, List.getElem?_set_ne other] at at_number
    obtain ⟨t, member, same⟩ := List.mem_map.mp (h.ended number rs' at_number live)
    obtain ⟨j, found'⟩ := List.mem_iff_getElem?.mp member
    have elsewhere : j ≠ i := by
      rintro rfl
      obtain rfl : t = s := Option.some.inj (found'.symm.trans found)
      exact other same
    exact List.mem_map.mpr
      ⟨t, List.mem_eraseIdx_iff_getElem?.mpr ⟨j, elsewhere, found'⟩, same⟩

end Abstracts

/-- The events of the log are a run of the receiver, and no message is left out of them. -/
structure Simulated (cfg : Config) (w : Writer) (st : State) : Prop where
  sound : Sound cfg st
  fits : ∀ e ∈ st.log, ∀ n m, e.source = some (n, m) → m.DataFits
  simulates : ∃ r, Abstracts cfg st r ∧
    run Receiver.step ⟨w, cfg.maxConnections.toNat, []⟩ (st.log.flatMap Happening.events) = some r

section Simulated
variable {cfg : Config} {z : Zstd} {w : Writer} {st : State}

theorem Simulated.handleActiveCb (hz : z.Lawful) (inv : Simulated cfg w st) (isset : Int → Bool)
    (visits : Int → Visit) {i : Nat} {s : Session} (found : st.sessions[i]? = some s) :
    Simulated cfg w (handleActiveCb z isset visits i s st) := by
  have sound := inv.sound.handleActiveCb (z := z) isset visits found
  rcases handleActiveCb_spec z isset visits inv.sound.distinct found with
    ⟨-, same⟩ | ⟨-, gone, new, p, called⟩
  · rw [same]
    exact inv
  · obtain ⟨r, abstracts, simulates⟩ := inv.simulates
    obtain ⟨rs, known, matched⟩ := abstracts.live s (List.mem_of_getElem? found)
    obtain ⟨rs', matched', work⟩ :=
      called.served.simulated hz r rs abstracts.writer known matched
    have log : run Receiver.step ⟨w, cfg.maxConnections.toNat, []⟩ (p.log.flatMap Happening.events) =
        some (worked r s.number rs' p.writer) := by
      rw [called.served.log, List.flatMap_append, List.flatMap_append, run_append, run_append,
        simulates]
      exact work
    have fits : ∀ e ∈ p.log, ∀ n m, e.source = some (n, m) → m.DataFits := by
      intro e member n m source
      rw [called.served.log, List.mem_append, List.mem_append] at member
      rcases member with (old | visited) | member
      · exact inv.fits e old n m source
      · rw [List.mem_singleton.mp visited] at source
        cases source
      · exact called.served.fits hz e member n m source
    rw [called.result] at sound ⊢
    cases gone with
    | false =>
      exact ⟨sound, fits, _, abstracts.resume inv.sound called found matched', log⟩
    | true =>
      refine ⟨sound, fun e member n m source => ?_, worked r s.number { rs' with live := false }
        p.writer, abstracts.discard inv.sound found rfl, ?_⟩
      · rcases List.mem_append.mp member with old | last
        · exact fits e old n m source
        · simp only [List.mem_cons, List.not_mem_nil, or_false] at last
          rcases last with rfl | rfl <;> cases source
      · have ends := remove_worked (w := p.writer) known matched'.live
        simp only [if_true, discard, List.flatMap_append, run_append, log, Option.bind_some]
        simp [Happening.events, run, ends]

theorem Simulated.acceptClient (inv : Simulated cfg w st) {client : Client}
    (unlistened : client.fd ≠ cfg.listenFd) (free : client.fd ∉ st.fds) :
    Simulated cfg w (acceptClient cfg st client) := by
  have sound := inv.sound.acceptClient unlistened free
  obtain ⟨r, abstracts, simulates⟩ := inv.simulates
  have spec := acceptClient_spec cfg st client
  generalize ServerRun.acceptClient cfg st client = st' at spec sound ⊢
  have silent : ∀ e : Happening, e = .opened client.fd ∨ e = .closed client.fd ∨
      e = .created st.created → e.source = none := by
    rintro e (rfl | rfl | rfl) <;> rfl
  cases spec with
  | refused =>
    refine ⟨sound, fun e member n m source => ?_, r, ⟨abstracts.writer, abstracts.limit,
      abstracts.created, abstracts.live, abstracts.ended⟩, ?_⟩
    · rcases List.mem_append.mp member with old | last
      · exact inv.fits e old n m source
      · rw [silent e (by simp at last; tauto)] at source
        cases source
    · rw [List.flatMap_append, run_append, simulates]
      rfl
  | created room configured =>
    have count := abstracts.sessionCount inv.sound
    have takes : Receiver.accept r true = { r with sessions := r.sessions ++ [.fresh] } := by
      have limit := abstracts.limit
      rw [Receiver.accept, if_neg (by omega), if_neg (by rw [count]; simp; omega)]
    refine ⟨sound, fun e member n m source => ?_, { r with sessions := r.sessions ++ [.fresh] },
      ⟨abstracts.writer, abstracts.limit, ?_, fun t member => ?_, fun number rs at_number live => ?_⟩,
      ?_⟩
    · rcases List.mem_append.mp member with old | last
      · exact inv.fits e old n m source
      · rw [silent e (by simp at last; tauto)] at source
        cases source
    · rw [List.length_append, abstracts.created, List.length_singleton]
    · rcases List.mem_append.mp member with old | fresh
      · obtain ⟨rs, known, same⟩ := abstracts.live t old
        refine ⟨rs, ?_, same⟩
        rw [List.getElem?_append_left (List.getElem?_eq_some_iff.mp known).1, known]
      · rw [List.mem_singleton.mp fresh]
        refine ⟨.fresh, ?_, rfl, rfl, rfl, rfl⟩
        rw [← abstracts.created, List.getElem?_append_right le_rfl, Nat.sub_self]
        rfl
    · rw [List.map_append, List.mem_append]
      by_cases old : number < r.sessions.length
      · rw [List.getElem?_append_left old] at at_number
        exact .inl (abstracts.ended number rs at_number live)
      · have inside := (List.getElem?_eq_some_iff.mp at_number).1
        simp only [List.length_append, List.length_singleton] at inside
        have last : number = st.created := by
          rw [← abstracts.created]
          omega
        exact .inr (by simp [last])
    · rw [List.flatMap_append, run_append, simulates]
      simp [Happening.events, run, Receiver.step, takes]

end Simulated

theorem events_sources {log : List Happening}
    (fits : ∀ e ∈ log, ∀ n m, e.source = some (n, m) → m.DataFits) :
    (log.flatMap Happening.events).filterMap Receiver.Event.source =
      log.filterMap Happening.source := by
  induction log with
  | nil => rfl
  | cons e log ih =>
    have rest := ih fun e member => fits e (List.mem_cons_of_mem _ member)
    rw [List.flatMap_cons, List.filterMap_append, rest]
    cases e with
    | handled number io m =>
      have here : m.DataFits := fits _ List.mem_cons_self number m rfl
      simp [Happening.events, here, Happening.source, Receiver.Event.source]
    | _ => rfl

/-- Every run of the loop is a run of the receiver that takes its events in any order: same
disks, same live sessions, and the messages in the order the loop handled them. -/
theorem loop_refines_receiver (cfg : Config) (z : Zstd) (hz : z.Lawful) (w : Writer)
    (passes : List Pass) (st : State) (h : run (step cfg z) (start w) passes = some st)
    (kernel : Meets (step cfg z) (Fresh cfg) (start w) passes) :
    ∃ events r, run Receiver.step ⟨w, cfg.maxConnections.toNat, []⟩ events = some r ∧
      events.filterMap Receiver.Event.source = st.log.filterMap Happening.source ∧
      Abstracts cfg st r := by
  have initial : Simulated cfg w (start w) :=
    ⟨sound_start cfg w, by simp [start], _, ⟨rfl, rfl, rfl, by simp [start], by simp⟩, rfl⟩
  have inv : Simulated cfg w st := by
    refine run_invariant_of_meets (fun st pass st' inv fresh next => ?_) h kernel initial
    exact step_invariant (fun _ isset visits _ _ inv found => inv.handleActiveCb hz isset visits found)
      (fun _ _ inv unlistened free => inv.acceptClient unlistened free)
      (fun st inv => by
        obtain ⟨⟨a, b, c, d, e, f, g⟩, fits, r, ⟨writer, limit, created, live, ended⟩, simulates⟩ := inv
        exact ⟨⟨a, b, c, d, e, f, g⟩, fits, r, ⟨writer, limit, created, live, ended⟩, simulates⟩)
      inv fresh next
  obtain ⟨r, abstracts, simulates⟩ := inv.simulates
  exact ⟨_, r, simulates, events_sources inv.fits, abstracts⟩

theorem loop_refines_receiver_farewells :
    ∃ events r, run Receiver.step ⟨blankWriter, 7, []⟩ events = some r ∧
      events.filterMap Receiver.Event.source =
        (afterSecond blankWriter).log.filterMap Happening.source ∧
      Abstracts ⟨3, 7⟩ (afterSecond blankWriter) r :=
  loop_refines_receiver ⟨3, 7⟩ storedZstd storedZstd_lawful blankWriter (twoClients ++ twoFarewells)
    _ (run_farewells blankWriter) (fresh_farewells blankWriter)

end Go2Cloud.ServerRun
