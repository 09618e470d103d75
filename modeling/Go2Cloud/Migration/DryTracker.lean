import Go2Cloud.Migration.InFlight

/-! A dry run and the migration after it. In a dry run flush_one and process_ack send nothing, but
in full mode they mark the blocks they take from the queue as acknowledged, in the tracker that
the migration uses too (client/main.c). send_block skips acknowledged blocks, whoever they were
sent to. -/
namespace Go2Cloud.DryTracker
open Protocol Queue Reader Tracker Round Decoder BlockWriter Receiver Migration Transition Keyed

def ackKey (cfg : Config) (s : Sys) (k : Key) : Sys :=
  { s with
    queue := queueAck s.queue k.1 k.2
    db := if cfg.tailSend then s.db else sqliteBlockMarkAcked s.db k }

def flushOne (cfg : Config) (s : Sys) : Sys :=
  match queuePop s.queue with
  | none => s
  | some (e, q) => ackKey cfg { s with queue := q } e.key

def processAck (cfg : Config) (s : Sys) : Sys :=
  (queueGetPending s.queue 256).foldl (ackKey cfg) s

inductive Action where
  | sendBlock (b : ReadBlock) (version : Int)
  | push (malloc : Bool) (now : Int)
  | giveUp
  | flushOne
  | processAck

def step (cfg : Config) (s : Sys) : Action → Option Sys
  | .sendBlock b version => Migration.step cfg s (.sendBlock b version)
  | .push malloc now => Migration.step cfg s (.push malloc now)
  | .giveUp => Migration.step cfg s .giveUp
  | .flushOne => some (flushOne cfg s)
  | .processAck => some (processAck cfg s)

def queued (s : Sys) : Action → List Key
  | .push malloc _ =>
    match s.pc with
    | .pushing b _ => if (queueBlock s.queue malloc b.1).1 = .ok then [b.1.key] else []
    | _ => []
  | _ => []

def Marked (s : Sys) (k : Key) : Prop :=
  sqliteBlockAcked s.db k = some true ∨
    ((get s.db k).isSome ∧ k ∈ (waiting s.queue).map QueueEntry.key)

section Dry
variable {cfg : Config} {s s' : Sys} {k : Key}

theorem acked_markAcked {db : BlockTable} (h : sqliteBlockAcked db k = some true) (j : Key) :
    sqliteBlockAcked (sqliteBlockMarkAcked db j) k = some true := by
  rw [sqliteBlockAcked] at h ⊢
  obtain ⟨row, found, ack⟩ := Option.map_eq_some_iff.mp h
  rw [get_markAcked, found, Option.map_some, Option.map_some]
  split
  · rfl
  · rw [ack]

theorem acked_markAcked_self {db : BlockTable} (h : (get db k).isSome) :
    sqliteBlockAcked (sqliteBlockMarkAcked db k) k = some true := by
  obtain ⟨row, found⟩ := Option.isSome_iff_exists.mp h
  have key := ((get_eq_some_iff db).mp found).2
  rw [sqliteBlockAcked, get_markAcked, found, Option.map_some, if_pos key]
  rfl

theorem Marked.ackKey (h : Marked s k) (full : cfg.tailSend = false) (j : Key) :
    Marked (ackKey cfg s j) k := by
  have db : (DryTracker.ackKey cfg s j).db = sqliteBlockMarkAcked s.db j := by
    simp [DryTracker.ackKey, full]
  rcases h with acked | ⟨row, waits⟩
  · left
    rw [db]
    exact acked_markAcked acked j
  · right
    obtain ⟨e, member, rfl⟩ := List.mem_map.mp waits
    obtain ⟨e', member', key, -⟩ := mem_waiting_queueAck member j.1 j.2
    refine ⟨?_, List.mem_map.mpr ⟨e', member', key⟩⟩
    rw [db, get_markAcked, Option.isSome_map]
    exact row

theorem Marked.flushOne (h : Marked s k) (full : cfg.tailSend = false) :
    Marked (flushOne cfg s) k := by
  unfold DryTracker.flushOne
  split
  · exact h
  next e q pop =>
    rcases h with acked | ⟨row, waits⟩
    · exact Marked.ackKey (s := { s with queue := q }) (.inl acked) full e.key
    · rw [waiting_queuePop pop, List.map_cons, List.mem_cons] at waits
      rcases waits with rfl | later
      · left
        simp only [DryTracker.ackKey, full]
        exact acked_markAcked_self row
      · exact Marked.ackKey (s := { s with queue := q }) (.inr ⟨row, later⟩) full e.key

theorem Marked.processAck (h : Marked s k) (full : cfg.tailSend = false) :
    Marked (processAck cfg s) k := by
  unfold DryTracker.processAck
  generalize queueGetPending s.queue 256 = keys
  induction keys generalizing s with
  | nil => exact h
  | cons j keys ih => exact ih (h.ackKey full j)

theorem get_recordPushed (cfg : Config) (db : BlockTable) (b : Block) (now : Int) (pusher : Pusher) :
    (get (recordPushed cfg db b now pusher) b.key).isSome ∧
      ∀ j, j ≠ b.key → get (recordPushed cfg db b now pusher) j = get db j := by
  cases pusher with
  | sendBlock version =>
    refine ⟨?_, fun j other => ?_⟩
    · rw [recordPushed, get_upsert, if_pos rfl]
      rfl
    · rw [recordPushed, get_upsert, if_neg (Ne.symm other)]
  | round p =>
    refine ⟨?_, fun j other => ?_⟩
    · rw [recordPushed, get_recordResent, if_pos rfl]
      rfl
    · rw [recordPushed, get_recordResent, if_neg (Ne.symm other)]

theorem marked_recorded {b : ReadBlock} {pusher : Pusher} (room : s.queue.count < queueCapacity)
    (now : Int) :
    Marked { s with
      queue := fillHead s.queue room (entryOf b.1)
      db := recordPushed cfg s.db b.1 now pusher
      pc := pusher.done } b.1.key := by
  refine .inr ⟨(get_recordPushed cfg s.db b.1 now pusher).1, ?_⟩
  rw [waiting_fillHead, List.map_append]
  exact List.mem_append_right _ (List.mem_singleton.mpr rfl)

theorem Marked.push (h : Marked s k) {malloc : Bool} {now : Int}
    (next : Migration.push cfg s malloc now = some s') : Marked s' k := by
  have longer : ∀ (room : s.queue.count < queueCapacity) (e : QueueEntry),
      k ∈ (waiting s.queue).map QueueEntry.key →
        k ∈ (waiting (fillHead s.queue room e)).map QueueEntry.key := by
    intro room e waits
    rw [waiting_fillHead, List.map_append]
    exact List.mem_append_left _ waits
  cases Migration.push_inv next with
  | moved moves => exact h
  | deferred pushing room => exact h.imp id fun ⟨row, waits⟩ => ⟨row, longer room _ waits⟩
  | @recorded _ _ b pusher pushing room =>
    by_cases here : k = b.1.key
    · rw [here]
      exact marked_recorded room now
    · have same := (get_recordPushed cfg s.db b.1 now pusher).2 k here
      refine h.imp (fun acked => ?_) fun ⟨row, waits⟩ => ⟨?_, longer room _ waits⟩
      · rw [sqliteBlockAcked, same]
        exact acked
      · rw [same]
        exact row

theorem marked_queued {malloc : Bool} {now : Int} (next : Migration.push cfg s malloc now = some s')
    (new : k ∈ queued s (.push malloc now)) : Marked s' k := by
  simp only [queued] at new
  unfold Migration.push at next
  split at new
  next b pusher at_push =>
    simp only [at_push] at next
    split at new
    next ok =>
      rw [if_pos ok] at next
      rw [List.mem_singleton.mp new, ← Option.some.inj next]
      rcases queuePush_effect s.queue malloc b.1.devno b.1.offset (blockHash b.1.offset b.1.data)
        (Msgpack.blockBytes b.1) with failed | ⟨room, -, filled⟩
      · have none_taken : (queueBlock s.queue malloc b.1).1 = .failed := congrArg Prod.fst failed
        rw [none_taken] at ok
        cases ok
      · have taken : (queueBlock s.queue malloc b.1).2 = fillHead s.queue room (entryOf b.1) := filled
        rw [taken]
        exact marked_recorded room now
    · cases new
  · cases new

theorem step_marked (full : cfg.tailSend = false) {seen : List Key} {a : Action}
    (h : ∀ k ∈ seen, Marked s k) (next : step cfg s a = some s') :
    ∀ k ∈ seen ++ queued s a, Marked s' k := by
  intro k member
  rcases List.mem_append.mp member with old | new
  · have marked := h k old
    cases a with
    | sendBlock b version =>
      have st : Migration.Step cfg s (.sendBlock b version) s' := Migration.step_inv next
      cases st with
      | moved moves => exact marked
    | push malloc now => exact marked.push next
    | giveUp =>
      have st : Migration.Step cfg s .giveUp s' := Migration.step_inv next
      cases st with
      | moved moves => exact marked
    | flushOne =>
      cases next
      exact marked.flushOne full
    | processAck =>
      cases next
      exact marked.processAck full
  · cases a with
    | push malloc now => exact marked_queued next new
    | _ => cases new

/-- A dry run that leaves nothing in the queue has acknowledged all it queued. -/
theorem dryRun_acked {actions : List Action} (full : cfg.tailSend = false)
    (h : run (step cfg) s actions = some s') (drained : s'.queue.count = 0)
    (member : k ∈ trace (step cfg) queued s actions) : sqliteBlockAcked s'.db k = some true := by
  have always : Meets (step cfg) (fun _ _ => True) s actions := meets_of_forall s fun _ _ _ => trivial
  have marked : ∀ k ∈ [] ++ trace (step cfg) queued s actions, Marked s' k :=
    run_invariant_trace (P := fun seen t => ∀ k ∈ seen, Marked t k)
      (fun _ _ _ _ inv _ next => step_marked full inv next) h always (by simp)
  refine (marked k member).resolve_right fun ⟨_, waits⟩ => ?_
  have empty : waiting s'.queue = [] := by simp [waiting, drained]
  rw [empty] at waits
  cases waits

end Dry

/-- The migration skips the blocks of `hidden`, and what it queues or has sent has `P`. -/
structure Hides (hidden : Key → Prop) (P : Block → Prop) (s : Sys) : Prop where
  acked : ∀ k, hidden k → sqliteBlockAcked s.db k = some true
  position : SendsOnly P s.pc
  carries : Carries P s

section Real
variable {cfg : Config} {s s' : Sys} {hidden : Key → Prop} {P : Block → Prop}

theorem Hides.step (h : Hides hidden P s) (full : cfg.tailSend = false)
    (apart : ∀ b : ReadBlock, P b.1 → ¬ hidden b.1.key) {a : Migration.Action}
    (reads : ∀ b version, a = .sendBlock b version → hidden b.1.key ∨ P b.1)
    (next : Migration.step cfg s a = some s') : Hides hidden P s' := by
  have st := Migration.step_inv next
  have carries := step_carries h.carries (fun b pusher push => (h.position.pushing push).1) st
  have acked : ∀ k, hidden k → sqliteBlockAcked s'.db k = some true := by
    intro k skipped
    have before := h.acked k skipped
    cases st with
    | @recorded _ now b pusher push room =>
      have other : k ≠ b.1.key := by
        rintro rfl
        exact apart b (h.position.pushing push).1 skipped
      rw [sqliteBlockAcked, (get_recordPushed cfg s.db b.1 now pusher).2 k other]
      exact before
    | acked head ack =>
      simp only [full]
      exact acked_markAcked before _
    | stable round batch decision => exact (h.position.no_round round).elim
    | changed round batch decision => exact (h.position.no_round round).elim
    | _ => exact before
  by_cases skips : ∃ b version, a = .sendBlock b version ∧ hidden b.1.key
  · -- send_block finds the row acknowledged and returns
    obtain ⟨b, version, rfl, skipped⟩ := skips
    have unchanged : s' = s := by
      simp only [Migration.step] at next
      split at next
      · rw [← Option.some.inj next, sendBlock, h.acked _ skipped]
        simp
      · cases next
    rw [unchanged]
    exact h
  · refine ⟨acked, h.position.step (fun _ _ _ _ => full) (fun b version taken => ?_) st, carries⟩
    exact (reads b version taken).resolve_left fun skipped => skips ⟨b, version, taken, skipped⟩

theorem Hides.block (h : Hides hidden P s) {f : Frame} (member : f ∈ s.sent) {b : Block}
    (block : f.block = some b) : P b := by
  have message := Frame.block_eq_some.mp block
  cases body : f.body with
  | control ctl =>
    rw [body] at message
    cases message
  | data payload =>
    obtain ⟨read, property, rfl⟩ := h.carries.frames f member payload body
    rw [body, ReadBlock.msg] at message
    cases message
    exact property

theorem Hides.silent (h : Hides hidden (fun _ => False) s) {a : Migration.Action}
    (next : Migration.step cfg s a = some s') : s'.writer = s.writer := by
  cases Migration.step_inv next with
  | @delivered c io f rest m head good =>
    have sent : f ∈ s.up c := head ▸ List.mem_cons_self
    rcases h.carries.decodes sent with ⟨ctl, -, control⟩ | ⟨b, none, -⟩
    · rw [control] at good
      cases good
      cases ctl <;> rfl
    · exact none.elim
  | _ => rfl

end Real

/-- After a dry run in full mode that has emptied its queue, no migration in full mode sends a
block the dry run has queued, whatever the receiver. If it reads no other blocks, it ends with the
target as it was. -/
theorem dry_run_hides_blocks (db : BlockTable) (w w' : Writer) (dryId remoteId : String)
    (dryActions : List Action) (d : Sys)
    (dry : run (step ⟨false, dryId⟩) (resumed db w) dryActions = some d)
    (drained : d.queue.count = 0) (actions : List Migration.Action) (s : Sys)
    (h : run (Migration.step ⟨false, remoteId⟩) (resumed d.db w') actions = some s) :
    (∀ f ∈ s.sent, ∀ b, f.block = some b →
      b.key ∉ trace (step ⟨false, dryId⟩) queued (resumed db w) dryActions) ∧
    ((∀ b version, .sendBlock b version ∈ actions →
        b.1.key ∈ trace (step ⟨false, dryId⟩) queued (resumed db w) dryActions) →
      s.writer.store = w'.store) := by
  have acked : ∀ k ∈ trace (step ⟨false, dryId⟩) queued (resumed db w) dryActions,
      sqliteBlockAcked d.db k = some true := fun k member => dryRun_acked rfl dry drained member
  constructor
  · intro f member b block
    have hides : Hides (· ∈ trace (step ⟨false, dryId⟩) queued (resumed db w) dryActions)
        (fun b => b.key ∉ trace (step ⟨false, dryId⟩) queued (resumed db w) dryActions) s :=
      run_invariant (fun _ a _ inv next => inv.step rfl (fun _ apart => apart)
        (fun b _ _ => Classical.em _) next) h ⟨acked, trivial, carries_resumed _ _⟩
    exact hides.block member block
  · intro only
    have meets : Meets (Migration.step ⟨false, remoteId⟩) (fun _ a => ∀ b version,
        a = .sendBlock b version →
          b.1.key ∈ trace (step ⟨false, dryId⟩) queued (resumed db w) dryActions)
        (resumed d.db w') actions :=
      meets_of_forall _ fun a member _ b version is => only b version (is ▸ member)
    have silent := run_invariant_of_meets
      (P := fun t => Hides (· ∈ trace (step ⟨false, dryId⟩) queued (resumed db w) dryActions)
        (fun _ => False) t ∧ t.writer = w')
      (fun _ _ _ ⟨inv, same⟩ reads next =>
        ⟨inv.step rfl (fun _ none => none.elim) (fun b version is => .inl (reads b version is)) next,
          (inv.silent next).trans same⟩)
      h meets ⟨⟨acked, trivial, carries_resumed _ _⟩, rfl⟩
    rw [silent.2]

def oneBlockDry : List Action :=
  -- the dry run reads a block, queues it and takes it from the queue
  [.sendBlock ⟨⟨0, 512, [1, 2, 3]⟩, threeBytes_fit⟩ 0, .push true 0, .flushOne]

def twoBlocks : List Migration.Action :=
  -- the migration reads the same block and one more, and sends what it queues
  [.sendBlock ⟨⟨0, 512, [1, 2, 3]⟩, threeBytes_fit⟩ 0, .sendBlock ⟨⟨0, 1024, [4]⟩, by decide⟩ 0,
    .push true 0, .flushOne (.sentOn 3)]

theorem dry_run_hides_blocks_oneBlock :
    ∃ d s, run (step ⟨false, "10.0.0.1:3389"⟩) (resumed empty blankWriter) oneBlockDry = some d ∧
      run (Migration.step ⟨false, "10.0.0.2:3389"⟩) (resumed d.db blankWriter) twoBlocks = some s ∧
      s.sent.length = 1 ∧
      ∀ f ∈ s.sent, ∀ b, f.block = some b → b.key ∉
        trace (step ⟨false, "10.0.0.1:3389"⟩) queued (resumed empty blankWriter) oneBlockDry :=
  ⟨_, _, rfl, rfl, by decide +kernel,
    (dry_run_hides_blocks empty blankWriter blankWriter "10.0.0.1:3389" "10.0.0.2:3389"
      oneBlockDry _ rfl rfl twoBlocks _ rfl).1⟩

end Go2Cloud.DryTracker
