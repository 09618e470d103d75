import Go2Cloud.Lib.Framing
import Go2Cloud.Server.Receiver

/-! The bytes of the responses on the sessions' sockets (send_response in
server/ack.c). handle_session ignores what sending a response returned. -/
namespace Go2Cloud.ResponseStream
open Protocol Framing Transition Receiver

/-- Results of send() on a non-blocking socket: `failed` is EAGAIN or any error
other than EINTR. -/
inductive SendResult where
  | sent (n : Nat)
  | interrupted
  | failed
  deriving DecidableEq, Repr

structure Sent where
  ok : Bool
  accepted : List UInt8
  deriving DecidableEq, Repr

/-- `while (sent < total)`; a count of 0 is tried again. Past the script the socket
takes what is offered. -/
def sendLoop : List SendResult → List UInt8 → Sent
  | _, [] => ⟨true, []⟩
  | [], data => ⟨true, data⟩
  | .interrupted :: script, data => sendLoop script data
  | .failed :: _, _ => ⟨false, []⟩
  | .sent n :: script, data =>
    let rest := sendLoop script (data.drop n)
    { rest with accepted := data.take n ++ rest.accepted }

def sendResponse (script : List SendResult) (r : ServerResponse) : Sent :=
  sendLoop script r.toBytes

def FailsAtOnce : List SendResult → Prop
  -- the first result other than EINTR and 0 is a failure
  | [] => False
  | .interrupted :: script => FailsAtOnce script
  | .failed :: _ => True
  | .sent n :: script => n = 0 ∧ FailsAtOnce script

instance decidableFailsAtOnce : (script : List SendResult) → Decidable (FailsAtOnce script)
  | [] => .isFalse id
  | .interrupted :: script => decidableFailsAtOnce script
  | .failed :: _ => .isTrue trivial
  | .sent n :: script =>
    have := decidableFailsAtOnce script
    inferInstanceAs (Decidable (n = 0 ∧ FailsAtOnce script))

theorem sendLoop_within (script : List SendResult) (data : List UInt8) :
    (sendLoop script data).accepted <+: data := by
  fun_induction sendLoop script data with
  | case1 => exact List.prefix_refl _
  | case2 => exact List.prefix_refl _
  | case3 _ _ _ ih => exact ih
  | case4 => exact List.nil_prefix
  | case5 n script data nonempty rest ih => exact take_append_within ih

theorem sendLoop_accepted_eq_nil (script : List SendResult) {data : List UInt8} (h : data ≠ []) :
    (sendLoop script data).accepted = [] ↔ FailsAtOnce script := by
  fun_induction sendLoop script data with
  | case1 => contradiction
  | case2 => simpa [FailsAtOnce] using h
  | case3 _ _ _ ih => exact ih h
  | case4 => simp [FailsAtOnce]
  | case5 n script data nonempty rest ih =>
    rcases Nat.eq_zero_or_pos n with rfl | positive
    · simpa [FailsAtOnce, rest] using ih h
    · simp [FailsAtOnce, h, Nat.ne_of_gt positive]

def respond (script : List SendResult) (r : ServerResponse) : Attempt UInt8 :=
  -- a response and how much of it the socket took
  ⟨r.toBytes, (sendResponse script r).accepted, sendLoop_within script r.toBytes⟩

theorem respond_accepted_eq_nil (script : List SendResult) (r : ServerResponse) :
    (respond script r).accepted = [] ↔ FailsAtOnce script := by
  refine sendLoop_accepted_eq_nil script fun empty => ?_
  have := congrArg List.length empty
  simp [serverResponseSize] at this

def reply (stream : List (Attempt UInt8)) :
    List ServerResponse → List (List SendResult) → List (Attempt UInt8)
  | [], _ => stream
  | r :: rest, scripts => reply (stream ++ [respond (scripts.headD []) r]) rest scripts.tail

def RepliesFatal (stream : List (Attempt UInt8)) :
    List ServerResponse → List (List SendResult) → Prop
  | [], _ => True
  | r :: rest, scripts => (Broken stream → FailsAtOnce (scripts.headD [])) ∧
      RepliesFatal (stream ++ [respond (scripts.headD []) r]) rest scripts.tail

instance decidableRepliesFatal (stream : List (Attempt UInt8)) :
    (rs : List ServerResponse) → (scripts : List (List SendResult)) →
      Decidable (RepliesFatal stream rs scripts)
  | [], _ => .isTrue trivial
  | r :: rest, scripts =>
    have := decidableRepliesFatal (stream ++ [respond (scripts.headD []) r]) rest scripts.tail
    inferInstanceAs (Decidable ((Broken stream → FailsAtOnce (scripts.headD [])) ∧
      RepliesFatal (stream ++ [respond (scripts.headD []) r]) rest scripts.tail))

theorem reply_framed (stream : List (Attempt UInt8)) (rs : List ServerResponse)
    (scripts : List (List SendResult)) :
    Framed (reply stream rs scripts) ↔ Framed stream ∧ RepliesFatal stream rs scripts := by
  induction rs generalizing stream scripts with
  | nil => simp [reply, RepliesFatal]
  | cons r rest ih =>
    rw [reply, ih, framed_concat, respond_accepted_eq_nil, RepliesFatal, and_assoc]

structure Server where
  receiver : State
  streams : Nat → List (Attempt UInt8)

abbrev Event := Receiver.Event × List (List SendResult)

def Server.answer (s : Server) (scripts : List (List SendResult)) :
    Receiver.Event → Nat → List (Attempt UInt8)
  | .message session io m _ =>
    Function.update s.streams session
      (reply (s.streams session) (dispatch s.receiver.writer io m).responses scripts)
  | _ => s.streams

def step (s : Server) (e : Event) : Option Server :=
  (Receiver.step s.receiver e.1).map fun r => ⟨r, s.answer e.2 e.1⟩

/-- Once a response was cut short, send() on that session fails at once. -/
def FailuresFatal (s : Server) : Event → Prop
  | (.message session io m _, scripts) =>
    RepliesFatal (s.streams session) (dispatch s.receiver.writer io m).responses scripts
  | _ => True

instance (s : Server) : (e : Event) → Decidable (FailuresFatal s e)
  | (.message session io m _, scripts) => inferInstanceAs (Decidable
      (RepliesFatal (s.streams session) (dispatch s.receiver.writer io m).responses scripts))
  | (.accept _, _) => .isTrue trivial
  | (.remove _, _) => .isTrue trivial

theorem forall_framed_update {streams : Nat → List (Attempt UInt8)} {session : Nat}
    {stream : List (Attempt UInt8)} {cond : Prop}
    (h : Framed stream ↔ Framed (streams session) ∧ cond) :
    (∀ n, Framed (Function.update streams session stream n)) ↔
      (∀ n, Framed (streams n)) ∧ cond := by
  constructor
  · intro all
    have here := h.mp (by simpa using all session)
    refine ⟨fun n => ?_, here.2⟩
    by_cases same : n = session
    · exact same ▸ here.1
    · simpa [same] using all n
  · rintro ⟨all, meets⟩ n
    by_cases same : n = session
    · rw [same, Function.update_self]
      exact h.mpr ⟨all session, meets⟩
    · simpa [same] using all n

theorem step_framed (s : Server) (e : Event) (s' : Server) (h : step s e = some s') :
    (∀ n, Framed (s'.streams n)) ↔ (∀ n, Framed (s.streams n)) ∧ FailuresFatal s e := by
  obtain ⟨r, -, rfl⟩ := Option.map_eq_some_iff.mp h
  obtain ⟨event, scripts⟩ := e
  cases event with
  | accept calloc => simp [Server.answer, FailuresFatal]
  | remove session => simp [Server.answer, FailuresFatal]
  | message session io m fits => exact forall_framed_update (reply_framed _ _ _)

theorem reply_mem {stream : List (Attempt UInt8)} {rs : List ServerResponse}
    {scripts : List (List SendResult)} {a : Attempt UInt8} (h : a ∈ reply stream rs scripts) :
    a ∈ stream ∨ ∃ r ∈ rs, a.frame = r.toBytes := by
  induction rs generalizing stream scripts with
  | nil => exact .inl h
  | cons r rest ih =>
    rcases ih h with old | ⟨r', mem, same⟩
    · rcases List.mem_append.mp old with old | new
      · exact .inl old
      · rw [List.mem_singleton.mp new]
        exact .inr ⟨r, List.mem_cons_self, rfl⟩
    · exact .inr ⟨r', List.mem_cons_of_mem _ mem, same⟩

def Responses (s : Server) : Prop :=
  ∀ n, ∀ a ∈ s.streams n, a.frame.length = serverResponseSize

theorem step_responses (s : Server) (e : Event) (s' : Server) (h : Responses s)
    (hs : step s e = some s') : Responses s' := by
  obtain ⟨r, -, rfl⟩ := Option.map_eq_some_iff.mp hs
  obtain ⟨event, scripts⟩ := e
  cases event with
  | accept calloc => exact h
  | remove session => exact h
  | message session io m fits =>
    intro n a mem
    simp only [Server.answer, Function.update_apply] at mem
    split at mem
    · rcases reply_mem mem with old | ⟨r, -, same⟩
      · exact h session a old
      · rw [same, ServerResponse.toBytes_length]
    · exact h n a mem

def listening (r : State) : Server := ⟨r, fun _ => []⟩

/-- Over a whole run every session's socket carries whole 20-byte responses and at
most one cut response, last, exactly if a socket on which a response was cut
short takes nothing more. -/
theorem responses_framed_iff {r : State} {events : List Event} {t : Server}
    (h : run step (listening r) events = some t) :
    (∀ n, Framed (t.streams n) ∧ ∀ a ∈ t.streams n, a.frame.length = serverResponseSize) ↔
      Meets step FailuresFatal (listening r) events := by
  have framed := run_iff_meets step_framed h
  have whole : Responses t := run_invariant step_responses h (by simp [Responses, listening])
  rw [and_iff_right (fun n => by simp [listening, Framed])] at framed
  rw [← framed]
  exact ⟨fun all n => (all n).1, fun all n => ⟨all n, whole n⟩⟩

def twoMarkers (first second : List SendResult) : List Event :=
  -- two end markers on one session
  [(.accept true, []), (.message 0 ⟨true, [], []⟩ (.control .endIncremental) trivial, [first]),
    (.message 0 ⟨true, [], []⟩ (.control .endIncremental) trivial, [second])]

/-- The peer reads slowly: the second response meets EAGAIN as well. -/
theorem responses_framed_slow_peer :
    ∃ t ∈ run step (listening ⟨BlockWriter.blankWriter, 7, []⟩)
        (twoMarkers [.sent 8, .failed] [.failed]),
      ∀ n, Framed (t.streams n) ∧ ∀ a ∈ t.streams n, a.frame.length = serverResponseSize := by
  have runs : ∃ t ∈ run step (listening ⟨BlockWriter.blankWriter, 7, []⟩)
      (twoMarkers [.sent 8, .failed] [.failed]), Meets step FailuresFatal
        (listening ⟨BlockWriter.blankWriter, 7, []⟩) (twoMarkers [.sent 8, .failed] [.failed]) := by
    decide +kernel
  obtain ⟨t, h, fatal⟩ := runs
  exact ⟨t, h, (responses_framed_iff h).mpr fatal⟩

/-- EAGAIN after 8 bytes, and the next response follows them on the same socket. -/
theorem response_continues_after_cut :
    ∃ t ∈ run step (listening ⟨BlockWriter.blankWriter, 7, []⟩)
        (twoMarkers [.sent 8, .failed] []),
      taken (t.streams 0) = ackSendDone.toBytes.take 8 ++ ackSendDone.toBytes ∧
        ¬ Framed (t.streams 0) := by
  decide +kernel

end Go2Cloud.ResponseStream
