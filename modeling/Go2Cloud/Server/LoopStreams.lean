import Go2Cloud.RoundTrip
import Go2Cloud.Server.ServerRun

/-! The byte streams of the sessions under the main loop: what is handled on a session depends on
its own bytes only. -/
namespace Go2Cloud.ServerRun
open Protocol BlockWriter Decoder Incremental Segmentation Transition Wire

theorem handleSession_append (z : Zstd) (buf : List UInt8) (first later : List (List UInt8))
    (ok : (Decoder.handleSession z buf first).failed = false) :
    Decoder.handleSession z buf (first ++ later) =
      { Decoder.handleSession z (Decoder.handleSession z buf first).buf later with
        items := (Decoder.handleSession z buf first).items ++
          (Decoder.handleSession z (Decoder.handleSession z buf first).buf later).items } := by
  induction first generalizing buf with
  | nil => rfl
  | cons chunk first ih =>
    simp only [List.cons_append, Decoder.handleSession] at ok ⊢
    split at ok
    next failed => rw [failed] at ok; cases ok
    next going =>
      rw [if_neg going, if_neg going, ih _ ok]
      simp only [List.append_assoc]

theorem own_silent {new : List Happening} {n k : Nat} (own : ∀ e ∈ new, e.session = some n)
    (other : k ≠ n) : chunks k new = [] ∧ messages k new = [] := by
  constructor
  · refine List.filterMap_eq_nil_iff.mpr fun e member => ?_
    have belongs := own e member
    cases e with
    | received n' chunk =>
      obtain rfl : n' = n := Option.some.inj belongs
      exact if_neg (Ne.symm other)
    | _ => rfl
  · refine List.filterMap_eq_nil_iff.mpr fun e member => ?_
    have belongs := own e member
    cases e with
    | handled n' io m =>
      obtain rfl : n' = n := Option.some.inj belongs
      exact if_neg (Ne.symm other)
    | _ => rfl

/-- Each session's messages are its bytes decoded, whatever happened to the others between two
of its chunks; while it is in the table, its buffer is what the decoding left. -/
structure Streams (z : Zstd) (st : State) : Prop where
  sizes : ∀ n, ∀ chunk ∈ chunks n st.log, 1 ≤ chunk.length ∧ chunk.length ≤ recvChunkSize
  items : ∀ n, (Decoder.handleSession z [] (chunks n st.log)).items = messages n st.log
  buffered : ∀ s ∈ st.sessions, (Decoder.handleSession z [] (chunks s.number st.log)).failed = false ∧
    (Decoder.handleSession z [] (chunks s.number st.log)).buf = s.recvBuf
  unused : ∀ n, st.created ≤ n → chunks n st.log = []

section Streams
variable {cfg : Config} {z : Zstd} {st st' : State}

theorem Streams.called (inv : Streams z st) {i : Nat} {s : Session} {gone : Bool}
    {new : List Happening} {p : Progress} (h : Called z st i s st' gone new p)
    (found : st.sessions[i]? = some s) (n : Nat) :
    (∀ chunk ∈ chunks n p.log, 1 ≤ chunk.length ∧ chunk.length ≤ recvChunkSize) ∧
      (Decoder.handleSession z [] (chunks n p.log)).items = messages n p.log ∧
      (n ≠ s.number → chunks n p.log = chunks n st.log) ∧
      (n = s.number → gone = false →
        (Decoder.handleSession z [] (chunks n p.log)).failed = false ∧
          (Decoder.handleSession z [] (chunks n p.log)).buf = p.session.recvBuf) := by
  have visited : chunks n [.visited s.number] = [] ∧ messages n [.visited s.number] = [] :=
    ⟨rfl, rfl⟩
  have log : chunks n p.log = chunks n st.log ++ chunks n new ∧
      messages n p.log = messages n st.log ++ messages n new := by
    rw [h.served.log]
    simp only [chunks_append, messages_append, visited, List.append_nil, and_self]
  rw [log.1, log.2]
  by_cases here : n = s.number
  · subst here
    obtain ⟨going, buf⟩ := inv.buffered s (List.mem_of_getElem? found)
    have decodes := h.decodes
    rw [handleSession_append z [] _ _ going, buf]
    refine ⟨fun chunk member => ?_, ?_, fun other => absurd rfl other, fun _ => decodes.kept⟩
    · rcases List.mem_append.mp member with old | fresh
      · exact inv.sizes _ chunk old
      · exact decodes.sizes chunk fresh
    · simp only [inv.items, decodes.items]
  · obtain ⟨no_chunk, no_message⟩ := own_silent h.served.own here
    rw [no_chunk, no_message, List.append_nil, List.append_nil]
    exact ⟨inv.sizes n, inv.items n, fun _ => rfl, fun same => absurd same here⟩

theorem Streams.handleActiveCb (sound : Sound cfg st) (inv : Streams z st) (isset : Int → Bool)
    (visits : Int → Visit) {i : Nat} {s : Session} (found : st.sessions[i]? = some s) :
    Streams z (handleActiveCb z isset visits i s st) := by
  rcases handleActiveCb_spec z isset visits sound.distinct found with
    ⟨-, same⟩ | ⟨-, gone, new, p, h⟩
  · rw [same]
    exact inv
  · have after := inv.called h found
    have unused (n : Nat) (later : st.created ≤ n) : chunks n p.log = [] := by
      have other : n ≠ s.number := by
        have known := sound.known s (List.mem_of_getElem? found)
        omega
      rw [(after n).2.2.1 other, inv.unused n later]
    have elsewhere {j : Nat} {t : Session} (found' : st.sessions[j]? = some t) (other : j ≠ i) :
        (Decoder.handleSession z [] (chunks t.number p.log)).failed = false ∧
          (Decoder.handleSession z [] (chunks t.number p.log)).buf = t.recvBuf := by
      rw [(after t.number).2.2.1 (other_number sound found found' other)]
      exact inv.buffered t (List.mem_of_getElem? found')
    rw [h.result]
    cases gone with
    | true =>
      have ended (n : Nat) : chunks n (discard st i s p).log = chunks n p.log ∧
          messages n (discard st i s p).log = messages n p.log := by
        simp [discard, chunks, messages]
      refine ⟨fun n => ?_, fun n => ?_, fun t member => ?_, fun n later => ?_⟩
      · rw [if_pos rfl, (ended n).1]
        exact (after n).1
      · rw [if_pos rfl, (ended n).1, (ended n).2]
        exact (after n).2.1
      · obtain ⟨j, other, found'⟩ := List.mem_eraseIdx_iff_getElem?.mp member
        rw [if_pos rfl, (ended t.number).1]
        exact elsewhere found' other
      · rw [if_pos rfl, (ended n).1]
        exact unused n later
    | false =>
      refine ⟨fun n => (after n).1, fun n => (after n).2.1, fun t member => ?_, unused⟩
      obtain ⟨j, found'⟩ := List.mem_iff_getElem?.mp member
      have back : (st.sessions.set i p.session)[j]? = some t := found'
      by_cases here : j = i
      · subst here
        have inside := (List.getElem?_eq_some_iff.mp found).1
        obtain rfl : p.session = t := by simpa [inside] using back
        exact (after _).2.2.2 h.served.number rfl
      · rw [List.getElem?_set_ne (Ne.symm here)] at back
        exact elsewhere back here

theorem Streams.acceptClient (inv : Streams z st) (client : Client) :
    Streams z (acceptClient cfg st client) := by
  have spec := acceptClient_spec cfg st client
  generalize ServerRun.acceptClient cfg st client = st' at spec ⊢
  cases spec with
  | refused =>
    have same (n : Nat) : chunks n (st.log ++ [.opened client.fd, .closed client.fd]) =
        chunks n st.log ∧ messages n (st.log ++ [.opened client.fd, .closed client.fd]) =
          messages n st.log := by
      simp [chunks, messages]
    refine ⟨fun n => ?_, fun n => ?_, fun t member => ?_, fun n later => ?_⟩
    · rw [(same n).1]
      exact inv.sizes n
    · rw [(same n).1, (same n).2]
      exact inv.items n
    · rw [(same t.number).1]
      exact inv.buffered t member
    · rw [(same n).1]
      exact inv.unused n later
  | created room configured =>
    have same (n : Nat) : chunks n (st.log ++ [.opened client.fd, .created st.created]) =
        chunks n st.log ∧ messages n (st.log ++ [.opened client.fd, .created st.created]) =
          messages n st.log := by
      simp [chunks, messages]
    refine ⟨fun n => ?_, fun n => ?_, fun t member => ?_, fun n later => ?_⟩
    · rw [(same n).1]
      exact inv.sizes n
    · rw [(same n).1, (same n).2]
      exact inv.items n
    · rw [(same t.number).1]
      rcases List.mem_append.mp member with old | fresh
      · exact inv.buffered t old
      · rw [List.mem_singleton.mp fresh, inv.unused st.created le_rfl]
        exact ⟨rfl, rfl⟩
    · rw [(same n).1]
      exact inv.unused n (Nat.le_of_succ_le later)

end Streams

theorem run_streams {cfg : Config} {z : Zstd} {w : Writer} {passes : List Pass} {st : State}
    (h : run (step cfg z) (start w) passes = some st)
    (kernel : Meets (step cfg z) (Fresh cfg) (start w) passes) : Streams z st := by
  have initial : Sound cfg (start w) ∧ Streams z (start w) :=
    ⟨sound_start cfg w, by simp [start, chunks], fun _ => rfl, by simp [start], fun _ _ => rfl⟩
  have inv : Sound cfg st ∧ Streams z st := by
    refine run_invariant_of_meets (P := fun st => Sound cfg st ∧ Streams z st)
      (fun st pass st' inv fresh next => ?_) h kernel initial
    refine ⟨step_sound inv.1 fresh next, (step_invariant (P := fun st => Sound cfg st ∧ Streams z st)
      (fun _ isset visits _ _ inv found =>
        ⟨inv.1.handleActiveCb isset visits found, inv.2.handleActiveCb inv.1 isset visits found⟩)
      (fun _ client inv unlistened free =>
        ⟨inv.1.acceptClient unlistened free, inv.2.acceptClient client⟩)
      (fun st inv => ?_) inv fresh next).2⟩
    obtain ⟨⟨a, b, c, d, e, f, g⟩, sizes, items, buffered, unused⟩ := inv
    exact ⟨⟨a, b, c, d, e, f, g⟩, sizes, items, buffered, unused⟩
  exact inv.2

section Sent
open RoundTrip

/-- On a session whose bytes come from a client that sent `items`, the loop handles these messages
in order and nothing else: a beginning of them while bytes are missing, all of them once the
bytes are in. -/
theorem session_handles_sent (cfg : Config) (z : Zstd) (hz : z.Lawful) (w : Writer)
    (passes : List Pass) (st : State) (h : run (step cfg z) (start w) passes = some st)
    (kernel : Meets (step cfg z) (Fresh cfg) (start w) passes) (number : Nat)
    (items : List Sending) (ok : ∀ s ∈ items, s.Ok) (stream : List UInt8)
    (sent : transmit z items = some stream)
    (arrived : (chunks number st.log).flatten <+: stream) :
    messages number st.log <+: items.map Sending.msg ∧
      ((chunks number st.log).flatten = stream →
        messages number st.log = items.map Sending.msg) := by
  have inv := run_streams h kernel
  obtain ⟨stream', sent', headers, drains⟩ := transmit_drains hz ok
  obtain rfl : stream = stream' := Option.some.inj (sent.symm.trans sent')
  obtain ⟨rest, rfl⟩ := arrived
  have segments : Segments (chunks number st.log).flatten (chunks number st.log) :=
    ⟨rfl, fun c member => (inv.sizes number c member).1, fun c member => (inv.sizes number c member).2⟩
  have handled : messages number st.log =
      (drain (decodeBuffered z) (chunks number st.log).flatten).items := by
    rw [← inv.items number]
    exact (segments.drain z headers.of_append).items
  have stable := decodeBuffered_stable z
  have going : (drain (decodeBuffered z) (chunks number st.log).flatten).failed = false := by
    by_contra failed
    have whole := (drain_append_failed stable _ rest (by simpa using failed)).2
    rw [drains] at whole
    cases whole
  have split := congrArg Drained.items (drain_append stable _ rest going)
  rw [drains] at split
  simp only at split
  constructor
  · rw [split, handled]
    exact List.prefix_append ..
  · intro complete
    have whole := congrArg Drained.items (congrArg (drain (decodeBuffered z)) complete)
    rw [handled, whole, drains]

/-- The end marker of the second client arrives in two parts, with the first client's between
them. -/
theorem session_handles_sent_farewells :
    messages 1 (afterSecond blankWriter).log = [.control .endIncremental] :=
  (session_handles_sent ⟨3, 7⟩ storedZstd storedZstd_lawful blankWriter (twoClients ++ twoFarewells)
    _ (run_farewells blankWriter) (fresh_farewells blankWriter) 1 [.control .endIncremental []]
    (by simp [Sending.Ok, Delivers]) marker rfl (List.prefix_refl _)).2 rfl

end Sent

end Go2Cloud.ServerRun
