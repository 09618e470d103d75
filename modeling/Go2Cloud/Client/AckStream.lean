import Go2Cloud.Protocol

/-! Reading the 20-byte responses of one connection: pool_recv_ack (client/pool.c)
and the loop of process_ack (client/main.c) that calls it. -/
namespace Go2Cloud.AckStream
open Protocol

/-- What successive recv calls meet. A fragment longer than the room left is
taken in parts; past the end there is nothing to read. -/
inductive NetEvent where
  | fragment (bytes : List UInt8)
  | wouldBlock
  | error
  deriving DecidableEq, Repr

inductive RecvAck where
  -- return values 1, 0 and -1 of pool_recv_ack
  | got (r : ServerResponse)
  | noData
  | failed
  deriving DecidableEq, Repr

/-- The receive loop; `received` is the local buffer, lost on every return. -/
def recvLoop : List UInt8 → List NetEvent → RecvAck × List NetEvent
  | _, [] => (.noData, [])
  | _, .wouldBlock :: net => (.noData, net)
  | _, .error :: net => (.failed, net)
  | received, .fragment bytes :: net =>
    let need := serverResponseSize - received.length
    if bytes = [] then (.failed, net)
    else if bytes.length < need then recvLoop (received ++ bytes) net
    else
      (.got (.ofBytes (received ++ bytes.take need)),
        if bytes.drop need = [] then net else .fragment (bytes.drop need) :: net)

def poolRecvAck (net : List NetEvent) : RecvAck × List NetEvent := recvLoop [] net

def arrived : List NetEvent → List UInt8
  | [] => []
  | .fragment bytes :: net => bytes ++ arrived net
  | .wouldBlock :: net => arrived net
  | .error :: net => arrived net

def drainAcks : Nat → List NetEvent → List ServerResponse × List NetEvent
  -- `while (1)` of process_ack: the values read until a call gives none
  | 0, net => ([], net)
  | fuel + 1, net =>
    match poolRecvAck net with
    | (.got r, net') => let later := drainAcks fuel net'; (r :: later.1, later.2)
    | (.noData, net') => ([], net')
    | (.failed, net') => ([], net')

def processAck (net : List NetEvent) : List ServerResponse × List NetEvent :=
  drainAcks ((arrived net).length + 1) net

def pollAcks : Nat → List NetEvent → List ServerResponse
  | 0, _ => []
  | calls + 1, net => (processAck net).1 ++ pollAcks calls (processAck net).2

def Delivery (net : List NetEvent) : Prop :=
  ∀ e ∈ net, e = .wouldBlock ∨ ∃ bytes, bytes ≠ [] ∧ e = .fragment bytes

def feed : List UInt8 → List UInt8 → List ServerResponse × List UInt8
  | received, [] => ([], received)
  | received, b :: rest =>
    if received.length + 1 = serverResponseSize then
      let later := feed [] rest
      (.ofBytes (received ++ [b]) :: later.1, later.2)
    else feed (received ++ [b]) rest

/-- The values the calls return: a partial record is dropped at every EAGAIN. -/
def acks : List UInt8 → List NetEvent → List ServerResponse
  | _, [] => []
  | _, .wouldBlock :: net => acks [] net
  | _, .error :: net => acks [] net
  | received, .fragment bytes :: net =>
    (feed received bytes).1 ++ acks (feed received bytes).2 net

theorem feed_append (received a b : List UInt8) :
    feed received (a ++ b) =
      ((feed received a).1 ++ (feed (feed received a).2 b).1, (feed (feed received a).2 b).2) := by
  induction a generalizing received with
  | nil => simp [feed]
  | cons x a ih =>
    simp only [List.cons_append, feed]
    split <;> simp [ih]

theorem feed_short {received bytes : List UInt8}
    (h : received.length + bytes.length < serverResponseSize) :
    feed received bytes = ([], received ++ bytes) := by
  induction bytes generalizing received with
  | nil => simp [feed]
  | cons b bytes ih =>
    rw [List.length_cons] at h
    rw [feed, if_neg (by omega), ih (by simp only [List.length_append, List.length_singleton]; omega),
      List.append_assoc, List.singleton_append]

theorem feed_record {received bytes : List UInt8} (room : received.length < serverResponseSize)
    (h : received.length + bytes.length = serverResponseSize) :
    feed received bytes = ([.ofBytes (received ++ bytes)], []) := by
  obtain ⟨front, last, rfl⟩ : ∃ front last, bytes = front ++ [last] := by
    refine ⟨bytes.dropLast, bytes.getLast ?_, (List.dropLast_append_getLast _).symm⟩
    rintro rfl
    simp at h
    omega
  rw [List.length_append, List.length_singleton] at h
  rw [feed_append, feed_short (by omega)]
  simp only [feed]
  rw [if_pos (by rw [List.length_append]; omega)]
  simp

theorem feed_size (received bytes : List UInt8) (room : received.length < serverResponseSize) :
    (feed received bytes).2.length < serverResponseSize ∧
      serverResponseSize * (feed received bytes).1.length + (feed received bytes).2.length =
        received.length + bytes.length := by
  induction bytes generalizing received with
  | nil => simp [feed, room]
  | cons b bytes ih =>
    rw [feed]
    split
    next full =>
      obtain ⟨small, total⟩ := ih [] (by decide)
      refine ⟨small, ?_⟩
      simp only [List.length_cons, List.length_nil, Nat.mul_add] at total ⊢
      omega
    next more =>
      have grown : (received ++ [b]).length = received.length + 1 := by simp
      obtain ⟨small, total⟩ := ih (received ++ [b]) (by omega)
      refine ⟨small, ?_⟩
      rw [List.length_cons]
      omega

theorem feed_responses (responses : List ServerResponse) :
    feed [] (responses.flatMap ServerResponse.toBytes) = (responses, []) := by
  induction responses with
  | nil => rfl
  | cons r responses ih =>
    have record : feed [] r.toBytes = ([r], []) := by
      rw [feed_record (by decide) (by simp [serverResponseSize])]
      simp [ServerResponse.ofBytes_toBytes]
    rw [List.flatMap_cons, feed_append, record, ih]
    rfl

def blocks (net : List NetEvent) : Nat := net.count .wouldBlock

def CallSpec (received : List UInt8) (net : List NetEvent) : RecvAck × List NetEvent → Prop
  | (.got r, net') => acks received net = r :: acks [] net' ∧ Delivery net' ∧
      (arrived net').length + serverResponseSize = received.length + (arrived net).length ∧
      blocks net' = blocks net
  | (.noData, net') => acks received net = acks [] net' ∧ Delivery net' ∧
      (net' = [] ∨ blocks net' < blocks net)
  | (.failed, _) => False

theorem CallSpec.short {received bytes : List UInt8} {net : List NetEvent}
    {result : RecvAck × List NetEvent}
    (fits : received.length + bytes.length < serverResponseSize)
    (rest : CallSpec (received ++ bytes) net result) :
    CallSpec received (.fragment bytes :: net) result := by
  have values : acks received (.fragment bytes :: net) = acks (received ++ bytes) net := by
    rw [acks, feed_short fits]
    rfl
  obtain ⟨outcome, net'⟩ := result
  cases outcome with
  | got r =>
    obtain ⟨value, delivery, size, same⟩ := rest
    refine ⟨by rw [values, value], delivery, ?_, by rw [same]; simp [blocks]⟩
    rw [List.length_append] at size
    simp only [arrived, List.length_append]
    omega
  | noData =>
    obtain ⟨value, delivery, fewer⟩ := rest
    exact ⟨by rw [values, value], delivery, by simpa [blocks] using fewer⟩
  | failed => exact rest

theorem acks_record {received bytes : List UInt8} (net : List NetEvent)
    (room : received.length < serverResponseSize)
    (long : ¬ bytes.length < serverResponseSize - received.length) :
    acks received (.fragment bytes :: net) =
      .ofBytes (received ++ bytes.take (serverResponseSize - received.length)) ::
        acks [] (.fragment (bytes.drop (serverResponseSize - received.length)) :: net) := by
  have size : received.length + (bytes.take (serverResponseSize - received.length)).length =
      serverResponseSize := by
    rw [List.length_take]
    omega
  conv => lhs; rw [← List.take_append_drop (serverResponseSize - received.length) bytes]
  simp only [acks, feed_append, feed_record room size, List.cons_append, List.nil_append]

theorem recvLoop_spec (received : List UInt8) {net : List NetEvent} (h : Delivery net)
    (room : received.length < serverResponseSize) :
    CallSpec received net (recvLoop received net) := by
  induction net generalizing received with
  | nil => exact ⟨rfl, by simp [Delivery], .inl rfl⟩
  | cons e net ih =>
    have later : Delivery net := fun e' he' => h e' (List.mem_cons_of_mem _ he')
    rcases h e (List.mem_cons_self ..) with rfl | ⟨bytes, nonempty, rfl⟩
    · exact ⟨rfl, later, .inr (by simp [blocks])⟩
    · simp only [recvLoop, if_neg nonempty]
      split
      next short =>
        have fits : received.length + bytes.length < serverResponseSize := by omega
        exact .short fits (ih (received ++ bytes) later (by rwa [List.length_append]))
      next long =>
        have values := acks_record net room long
        have total := congrArg List.length
          (List.take_append_drop (serverResponseSize - received.length) bytes)
        rw [List.length_append, List.length_take] at total
        split
        next exact_ =>
          refine ⟨by rw [values, exact_]; rfl, later, ?_, by simp [blocks]⟩
          rw [exact_, List.length_nil] at total
          simp only [arrived, List.length_append]
          omega
        next more =>
          refine ⟨values, ?_, ?_, by simp [blocks]⟩
          · intro e he
            rcases List.mem_cons.mp he with rfl | old
            · exact .inr ⟨_, more, rfl⟩
            · exact later e old
          · simp only [arrived, List.length_append]
            omega

theorem drainAcks_spec {fuel : Nat} {net : List NetEvent} (h : Delivery net)
    (enough : (arrived net).length < fuel) :
    acks [] net = (drainAcks fuel net).1 ++ acks [] (drainAcks fuel net).2 ∧
      Delivery (drainAcks fuel net).2 ∧
      ((drainAcks fuel net).2 = [] ∨ blocks (drainAcks fuel net).2 < blocks net) := by
  induction fuel generalizing net with
  | zero => omega
  | succ fuel ih =>
    have call := recvLoop_spec [] h (by decide)
    rw [drainAcks, poolRecvAck]
    cases hr : recvLoop [] net with
    | mk outcome net' =>
      rw [hr] at call
      cases outcome with
      | got r =>
        obtain ⟨value, delivery, size, same⟩ := call
        rw [List.length_nil] at size
        have shorter : (arrived net').length < fuel := by
          simp only [serverResponseSize] at size
          omega
        obtain ⟨rest, delivery', fewer⟩ := ih delivery shorter
        exact ⟨by rw [value, rest]; rfl, delivery', by rw [← same]; exact fewer⟩
      | noData => exact call
      | failed => exact call.elim

theorem processAck_spec {net : List NetEvent} (h : Delivery net) :
    acks [] net = (processAck net).1 ++ acks [] (processAck net).2 ∧
      Delivery (processAck net).2 ∧
      ((processAck net).2 = [] ∨ blocks (processAck net).2 < blocks net) :=
  drainAcks_spec h (Nat.lt_succ_self _)

theorem pollAcks_eq_acks {net : List NetEvent} (h : Delivery net) {calls : Nat}
    (enough : blocks net < calls) : pollAcks calls net = acks [] net := by
  induction calls generalizing net with
  | zero => omega
  | succ calls ih =>
    obtain ⟨values, delivery, fewer⟩ := processAck_spec h
    rw [pollAcks, values]
    congr 1
    rcases fewer with done | fewer
    · have idle : ∀ n, pollAcks n [] = [] := by
        intro n
        induction n with
        | zero => rfl
        | succ n ih => exact ih
      rw [done, idle]
      rfl
    · exact ih delivery (by omega)

/-- EAGAIN only between records: a multiple of 20 bytes has arrived before each. -/
def Aligned (received : List UInt8) (net : List NetEvent) : Prop :=
  ∀ pre post, net = pre ++ .wouldBlock :: post →
    serverResponseSize ∣ received.length + (arrived pre).length

theorem Aligned.tail {received : List UInt8} {e : NetEvent} {net : List NetEvent}
    (h : Aligned received (e :: net)) {pre post : List NetEvent}
    (split : net = pre ++ .wouldBlock :: post) :
    serverResponseSize ∣ received.length + (arrived (e :: pre)).length :=
  h (e :: pre) post (by rw [split, List.cons_append])

theorem acks_of_aligned (received : List UInt8) {net : List NetEvent} (h : Delivery net)
    (room : received.length < serverResponseSize) (aligned : Aligned received net) :
    acks received net = (feed received (arrived net)).1 := by
  induction net generalizing received with
  | nil => rfl
  | cons e net ih =>
    have later : Delivery net := fun e' he' => h e' (List.mem_cons_of_mem _ he')
    rcases h e (List.mem_cons_self ..) with rfl | ⟨bytes, -, rfl⟩
    · have whole := aligned [] net rfl
      obtain rfl : received = [] := by
        rw [← List.length_eq_zero_iff]
        exact Nat.eq_zero_of_dvd_of_lt whole room
      exact ih [] later (by decide) fun pre post split => aligned.tail split
    · obtain ⟨small, total⟩ := feed_size received bytes room
      rw [acks, arrived, feed_append, ih _ later small]
      intro pre post split
      have whole := aligned.tail split
      rw [arrived, List.length_append, ← Nat.add_assoc, ← total, Nat.add_assoc] at whole
      exact (Nat.dvd_add_right (Dvd.intro _ rfl)).mp whole

/-- Every EAGAIN inside a record loses bytes, and lost bytes are missing values. -/
theorem acks_size (received : List UInt8) {net : List NetEvent} (h : Delivery net)
    (room : received.length < serverResponseSize) :
    serverResponseSize * (acks received net).length ≤ received.length + (arrived net).length ∧
      (¬ Aligned received net →
        serverResponseSize * (acks received net).length < received.length + (arrived net).length) := by
  induction net generalizing received with
  | nil =>
    refine ⟨by simp [acks], fun misaligned => absurd ?_ misaligned⟩
    intro pre post split
    simp at split
  | cons e net ih =>
    have later : Delivery net := fun e' he' => h e' (List.mem_cons_of_mem _ he')
    rcases h e (List.mem_cons_self ..) with rfl | ⟨bytes, -, rfl⟩
    · obtain ⟨le, lt⟩ := ih [] later (by decide)
      rw [List.length_nil, Nat.zero_add] at le lt
      refine ⟨by simp only [acks, arrived]; omega, fun misaligned => ?_⟩
      simp only [acks, arrived]
      by_cases empty : received = []
      · subst empty
        have strict := lt fun aligned => misaligned fun pre post split => by
          cases pre with
          | nil => simp [arrived]
          | cons e pre =>
            rw [List.cons_append, List.cons.injEq] at split
            rw [← split.1]
            exact aligned pre post split.2
        simpa using strict
      · have := List.length_pos_iff.mpr empty
        omega
    · obtain ⟨small, total⟩ := feed_size received bytes room
      obtain ⟨le, lt⟩ := ih _ later small
      simp only [acks, arrived, List.length_append, Nat.mul_add]
      refine ⟨by omega, fun misaligned => ?_⟩
      have strict := lt fun aligned => misaligned fun pre post split => by
        cases pre with
        | nil => simp at split
        | cons e pre =>
          rw [List.cons_append, List.cons.injEq] at split
          have whole := aligned pre post split.2
          rw [← split.1, arrived, List.length_append, ← Nat.add_assoc, ← total, Nat.add_assoc]
          exact (Nat.dvd_add_right (Dvd.intro _ rfl)).mpr whole
      omega

theorem responses_size (responses : List ServerResponse) :
    (responses.flatMap ServerResponse.toBytes).length = serverResponseSize * responses.length := by
  induction responses with
  | nil => rfl
  | cons r responses ih =>
    rw [List.flatMap_cons, List.length_append, ih, ServerResponse.toBytes_length, List.length_cons]
    simp only [serverResponseSize]
    omega

/-- The client reads back exactly the responses that were sent if and only if
every EAGAIN falls between two records. -/
theorem pollAcks_eq_iff (responses : List ServerResponse) (net : List NetEvent)
    (h : Delivery net) (sent : arrived net = responses.flatMap ServerResponse.toBytes)
    (calls : Nat) (enough : blocks net < calls) :
    pollAcks calls net = responses ↔
      ∀ pre post, net = pre ++ .wouldBlock :: post → serverResponseSize ∣ (arrived pre).length := by
  rw [pollAcks_eq_acks h enough]
  constructor
  · intro same
    by_contra misaligned
    have lost := (acks_size [] h (by decide)).2 fun aligned =>
      misaligned fun pre post split => by simpa using aligned pre post split
    rw [same, sent, responses_size] at lost
    simp at lost
  · intro aligned
    rw [acks_of_aligned [] h (by decide)
      fun pre post split => by simpa using aligned pre post split, sent, feed_responses]

def sampleAck : ServerResponse := ⟨responseAck, 1, 4096, 8192⟩

/-- With EAGAIN after the first record both records are read. -/
theorem pollAcks_eq_iff_between_records :
    pollAcks 2 [.fragment sampleAck.toBytes, .wouldBlock, .fragment sampleAck.toBytes] =
        [sampleAck, sampleAck] ↔
      ∀ pre post, [.fragment sampleAck.toBytes, .wouldBlock, .fragment sampleAck.toBytes] =
        pre ++ NetEvent.wouldBlock :: post → serverResponseSize ∣ (arrived pre).length :=
  pollAcks_eq_iff [sampleAck, sampleAck] _
    (by
      intro e he
      simp only [List.mem_cons, List.not_mem_nil, or_false] at he
      rcases he with rfl | rfl | rfl
      · exact .inr ⟨_, by decide, rfl⟩
      · exact .inl rfl
      · exact .inr ⟨_, by decide, rfl⟩)
    (by decide) 2 (by decide)

/-- EAGAIN after ten bytes of a record: all of it arrives and it is never returned. -/
theorem pollAcks_split_record :
    arrived [.fragment (sampleAck.toBytes.take 10), .wouldBlock,
        .fragment (sampleAck.toBytes.drop 10)] = [sampleAck].flatMap ServerResponse.toBytes ∧
      pollAcks 2 [.fragment (sampleAck.toBytes.take 10), .wouldBlock,
        .fragment (sampleAck.toBytes.drop 10)] = [] := by
  decide

end Go2Cloud.AckStream
