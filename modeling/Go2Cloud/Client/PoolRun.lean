import Go2Cloud.Client.Pool
import Go2Cloud.Lib.Slots

/-! Runs of the pool's operations (client/pool.c) from pool_init on, and the loop of
do_reconnect (client/main.c). -/
namespace Go2Cloud.PoolRun
open Protocol Pool Transition

inductive Op where
  | acquire (net : Net)
  | release (i : Slot)
  | touch (i : Slot) (now : Int)
  | reapStale (now : Int)

def step (s : Client) : Op → Option Client
  | .acquire net => (poolAcquire s net).map Prod.fst
  | .release i => some (poolRelease s i)
  | .touch i now => some (poolTouch s i now)
  | .reapStale now => some (poolReapStale s now)

def openSlots (p : SocketPool) : List Nat := Slots.held PoolConn.fd p.conns

structure Sound (s : Client) : Prop where
  counted : s.pool.count = (openSlots s.pool).length
  connected : ∀ fd ∈ openSlots s.pool, ∃ k, (fd, some k) ∈ s.descriptors
  handedOut : ∀ net t i, poolAcquire s net = some (t, some i) →
    (s.pool.conns i).inUse = false ∧ (s.pool.conns i).scratch = true

def Usable (c : PoolConn) : Prop := (c.fd ≠ none → c.scratch = true) ∧ (c.fd = none → c.inUse = false)

/-- Each open slot has a connection of its own. -/
structure Kept (s : Client) : Prop where
  counted : s.pool.count = (openSlots s.pool).length
  connected : ∀ i fd, (s.pool.conns i).fd = some fd → ∃ k, (fd, some k) ∈ s.descriptors
  distinct : ∀ i j fd, (s.pool.conns i).fd = some fd → (s.pool.conns j).fd = some fd → i = j
  usable : ∀ i, Usable (s.pool.conns i)

theorem Kept.sound {s : Client} (kept : Kept s) : Sound s := by
  refine ⟨kept.counted, fun fd member => ?_, fun net t i acquire => ?_⟩
  · obtain ⟨i, holds⟩ := Slots.mem_held.mp member
    exact kept.connected i fd holds
  · unfold poolAcquire at acquire
    split at acquire
    next free =>
      cases acquire
      have here := List.find?_some free
      simp only [Bool.and_eq_true, Bool.not_eq_true', Option.isSome_iff_ne_none] at here
      exact ⟨here.2, (kept.usable i).1 here.1⟩
    next =>
      split at acquire
      · split at acquire
        next spare _ =>
          split at acquire
          · cases acquire
          · cases acquire
            have here := List.find?_some spare
            simp only [Bool.and_eq_true, Option.isNone_iff_eq_none] at here
            exact ⟨(kept.usable i).2 here.1, here.2⟩
        · cases acquire
      · cases acquire

section Change

variable {s t : Client} {i : Slot} {c : PoolConn}

theorem kept_same (kept : Kept s) (conns : t.pool.conns = Function.update s.pool.conns i c)
    (count : t.pool.count = s.pool.count) (descriptors : t.descriptors = s.descriptors)
    (fd : c.fd = (s.pool.conns i).fd) (usable : Usable c) : Kept t := by
  have fds : ∀ j, (t.pool.conns j).fd = (s.pool.conns j).fd := by
    rw [conns]
    exact (Function.forall_update_iff _ fun j (d : PoolConn) => d.fd = (s.pool.conns j).fd).mpr
      ⟨fd, fun _ _ => rfl⟩
  constructor
  · rw [count, kept.counted, openSlots, openSlots, conns, Slots.held_update_same fd]
  · intro j fd'
    rw [fds, descriptors]
    exact kept.connected j fd'
  · intro j k fd'
    rw [fds, fds]
    exact kept.distinct j k fd'
  · rw [conns]
    exact (Function.forall_update_iff _ fun _ => Usable).mpr ⟨usable, fun j _ => kept.usable j⟩

theorem unused_of_not_open (kept : Kept s) {fd : Nat} (unused : ¬ s.isOpen fd) (j : Slot) :
    (s.pool.conns j).fd ≠ some fd := by
  intro used
  obtain ⟨k, member⟩ := kept.connected j fd used
  exact unused (List.any_eq_true.mpr ⟨_, member, by simp⟩)

theorem kept_opened (kept : Kept s) (conns : t.pool.conns = Function.update s.pool.conns i c)
    {fd k : Nat} (count : t.pool.count = s.pool.count + 1)
    (descriptors : t.descriptors = (fd, some k) :: s.descriptors) (unused : ¬ s.isOpen fd)
    (closed : (s.pool.conns i).fd = none) (opened : c.fd = some fd) (scratch : c.scratch = true) :
    Kept t := by
  have others := unused_of_not_open kept unused
  constructor
  · have exchange := (Slots.held_update PoolConn.fd s.pool.conns i c).length_eq
    simp only [closed, opened, List.length_append, Option.toList_none, Option.toList_some,
      List.length_nil, List.length_singleton, Nat.add_zero] at exchange
    rw [count, kept.counted, openSlots, openSlots, conns, exchange]
    rfl
  · rw [conns, descriptors]
    refine (Function.forall_update_iff _ fun _ (d : PoolConn) => ∀ fd', d.fd = some fd' →
      ∃ k', (fd', some k') ∈ (fd, some k) :: s.descriptors).mpr ⟨fun fd' holds => ?_, fun j _ fd' holds => ?_⟩
    · obtain rfl : fd = fd' := Option.some.inj (opened.symm.trans holds)
      exact ⟨k, List.mem_cons_self⟩
    · obtain ⟨k', member⟩ := kept.connected j fd' holds
      exact ⟨k', List.mem_cons_of_mem _ member⟩
  · intro j j' fd' holds holds'
    rw [conns] at holds holds'
    by_cases here : j = i <;> by_cases here' : j' = i
    · rw [here, here']
    · rw [here, Function.update_self, opened] at holds
      rw [Function.update_of_ne here', ← holds] at holds'
      exact absurd holds' (others j')
    · rw [here', Function.update_self, opened] at holds'
      rw [Function.update_of_ne here, ← holds'] at holds
      exact absurd holds (others j)
    · rw [Function.update_of_ne here] at holds
      rw [Function.update_of_ne here'] at holds'
      exact kept.distinct j j' fd' holds holds'
  · rw [conns]
    exact (Function.forall_update_iff _ fun _ => Usable).mpr
      ⟨⟨fun _ => scratch, fun gone => by simp [opened] at gone⟩, fun j _ => kept.usable j⟩

theorem kept_closed (kept : Kept s) {fd : Nat} (opened : (s.pool.conns i).fd = some fd)
    (idle : (s.pool.conns i).inUse = false) :
    Kept { s with
      pool := { s.pool.setConn i { s.pool.conns i with fd := none } with count := s.pool.count - 1 }
      descriptors := s.descriptors.filter fun d => d.1 ≠ fd } := by
  have holds_iff : ∀ j fd', (Function.update s.pool.conns i { s.pool.conns i with fd := none } j).fd =
      some fd' → j ≠ i ∧ (s.pool.conns j).fd = some fd' := by
    intro j fd' holds
    by_cases here : j = i
    · simp [here] at holds
    · rw [Function.update_of_ne here] at holds
      exact ⟨here, holds⟩
  constructor
  · have exchange := (Slots.held_update PoolConn.fd s.pool.conns i
      { s.pool.conns i with fd := none }).length_eq
    simp only [opened, List.length_append, Option.toList_none, Option.toList_some, List.length_nil,
      List.length_singleton, Nat.add_zero] at exchange
    have counted := kept.counted
    simp only [openSlots, SocketPool.setConn] at counted ⊢
    omega
  · intro j fd' holds
    obtain ⟨other, holds⟩ := holds_iff j fd' holds
    obtain ⟨k, member⟩ := kept.connected j fd' holds
    have apart : fd' ≠ fd := fun same => other (kept.distinct j i fd' holds (same ▸ opened))
    exact ⟨k, List.mem_filter.mpr ⟨member, by simpa using apart⟩⟩
  · intro j j' fd' holds holds'
    exact kept.distinct j j' fd' (holds_iff j fd' holds).2 (holds_iff j' fd' holds').2
  · exact (Function.forall_update_iff _ fun _ => Usable).mpr
      ⟨⟨fun gone => absurd rfl gone, fun _ => idle⟩, fun j _ => kept.usable j⟩

end Change

theorem kept_acquire {s t : Client} {net : Net} {slot : Option Slot} (kept : Kept s)
    (h : poolAcquire s net = some (t, slot)) : Kept t := by
  unfold poolAcquire at h
  split at h
  next i free =>
    cases h
    have here := List.find?_some free
    simp only [Bool.and_eq_true, Option.isSome_iff_ne_none] at here
    exact kept_same kept rfl rfl rfl rfl ⟨(kept.usable i).1, fun gone => absurd gone here.1⟩
  next =>
    split at h
    · split at h
      next i fd spare _ =>
        split at h
        · cases h
        next unused =>
          cases h
          have here := List.find?_some spare
          simp only [Bool.and_eq_true, Option.isNone_iff_eq_none] at here
          exact kept_opened kept rfl rfl rfl unused here.1 rfl here.2
      · cases h
        exact kept
    · cases h
      exact kept

theorem kept_reapConn {s : Client} (kept : Kept s) (now : Int) (i : Slot) :
    Kept (reapConn now s i) := by
  simp only [reapConn]
  split
  · exact kept
  next fd opened =>
    split
    next stale => exact kept_closed kept opened stale.1
    · exact kept

theorem kept_step (s : Client) (op : Op) (t : Client) (kept : Kept s) (h : step s op = some t) :
    Kept t := by
  cases op with
  | acquire net =>
    obtain ⟨⟨t, slot⟩, acquire, rfl⟩ := Option.map_eq_some_iff.mp h
    exact kept_acquire kept acquire
  | release i =>
    cases h
    exact kept_same kept rfl rfl rfl rfl ⟨(kept.usable i).1, fun _ => rfl⟩
  | touch i now =>
    cases h
    exact kept_same kept rfl rfl rfl rfl (kept.usable i)
  | reapStale now =>
    cases h
    exact List.foldlRecOn _ _ kept fun s kept i _ => kept_reapConn kept now i

def noConn (scratch : Bool) : PoolConn := ⟨none, false, 0, scratch⟩

/-- The client in the loop of pool_init, with the slots still to come taken as closed. -/
def reached (rest : List Slot) (s : Client) : Client :=
  { s with pool := { s.pool with conns := fun j => if j ∈ rest then noConn false else s.pool.conns j } }

theorem reached_conns {rest : List Slot} {i : Slot} (new : i ∉ rest) {s t : Client} {c : PoolConn}
    (conns : t.pool.conns = Function.update s.pool.conns i c) :
    (reached rest t).pool.conns = Function.update (reached (i :: rest) s).pool.conns i c := by
  funext j
  simp only [reached, conns]
  by_cases here : j = i
  · rw [here, Function.update_self, Function.update_self, if_neg new]
  · simp [here]

theorem reached_conn_first (i : Slot) (rest : List Slot) (s : Client) :
    (reached (i :: rest) s).pool.conns i = noConn false := by
  simp [reached]

theorem forall_dropLast_cons {P : Slot → Prop} {i : Slot} {rest : List Slot} (first : P i) :
    (∀ j ∈ (i :: rest).dropLast, P j) ↔ ∀ j ∈ rest.dropLast, P j := by
  cases rest with
  | nil => simp
  | cons j rest => simp [first]

theorem kept_unconnected {rest : List Slot} {i : Slot} (new : i ∉ rest) {s : Client}
    (kept : Kept (reached (i :: rest) s)) (scratch : Bool) :
    Kept (reached rest { s with pool := s.pool.setConn i (noConn scratch) }) := by
  refine kept_same kept (reached_conns new rfl) rfl rfl ?_ ⟨by simp [noConn], by simp [noConn]⟩
  rw [reached_conn_first]
  rfl

structure Unreached (env : Slot → Bool × Option Nat) (slots : List Slot) (s t : Client)
    (rest : List Slot) : Prop where
  kept : Kept (reached rest t)
  untouched : ∀ j ∈ rest, j ∈ slots ∧ t.pool.conns j = s.pool.conns j
  none_left : rest = [] ↔ ∀ i ∈ slots.dropLast, env i ≠ (true, none)

theorem Unreached.cons {env : Slot → Bool × Option Nat} {i : Slot} {slots rest : List Slot}
    {s s' t : Client} {c : PoolConn} (h : Unreached env slots s' t rest) (new : i ∉ slots)
    (conns : s'.pool.conns = Function.update s.pool.conns i c) (goes_on : env i ≠ (true, none)) :
    Unreached env (i :: slots) s t rest := by
  refine ⟨h.kept, fun j member => ?_, ?_⟩
  · obtain ⟨inside, same⟩ := h.untouched j member
    have apart : j ≠ i := fun here => new (here ▸ inside)
    rw [conns, Function.update_of_ne apart] at same
    exact ⟨List.mem_cons_of_mem _ inside, same⟩
  · rw [h.none_left, forall_dropLast_cons (P := fun j => env j ≠ (true, none)) goes_on]

theorem connectSlots_reached {env : Slot → Bool × Option Nat} {now : Int} {slots : List Slot}
    {s t : Client} (h : connectSlots env now slots s = some t) (nodup : slots.Nodup)
    (kept : Kept (reached slots s)) : ∃ rest, Unreached env slots s t rest := by
  induction slots generalizing s with
  | nil =>
    cases h
    exact ⟨[], kept, by simp, by simp⟩
  | cons i rest ih =>
    obtain ⟨new, nodup⟩ := List.nodup_cons.mp nodup
    simp only [connectSlots] at h
    split at h
    next no_scratch =>
      obtain ⟨left, unreached⟩ := ih h nodup (kept_unconnected new kept false)
      exact ⟨left, unreached.cons new rfl (by simp [no_scratch])⟩
    next failed =>
      split at h
      · cases h
      · cases h
        refine ⟨rest, kept_unconnected new kept true, fun j member => ?_, ?_⟩
        · have apart : j ≠ i := fun here => new (here ▸ member)
          exact ⟨List.mem_cons_of_mem _ member, Function.update_of_ne apart _ _⟩
        · cases rest with
          | nil => simp
          | cons j rest => simp [failed]
    next fd opened =>
      split at h
      · cases h
      next unused =>
        have closed : ((reached (i :: rest) s).pool.conns i).fd = none := by
          rw [reached_conn_first]
          rfl
        obtain ⟨left, unreached⟩ :=
          ih h nodup (kept_opened kept (reached_conns new rfl) rfl rfl unused closed rfl rfl)
        exact ⟨left, unreached.cons new rfl (by simp [opened])⟩

theorem poolInit_reached {opened : List Nat} {env : Slot → Bool × Option Nat} {now : Int} {s : Client}
    (h : poolInit opened env now = some s) :
    ∃ rest, Kept (reached rest s) ∧ (∀ j ∈ rest, (s.pool.conns j).fd = some 0) ∧
      (rest = [] ↔ ∀ i : Slot, i.val + 1 < socketPoolTarget → env i ≠ (true, none)) := by
  have begins : ∀ s₀ : Client, s₀.pool.count = 0 → Kept (reached (List.finRange socketPoolTarget) s₀) := by
    intro s₀ zero
    constructor
    · simp [reached, zero, openSlots, Slots.held, noConn]
    · simp [reached, noConn]
    · simp [reached, noConn]
    · simp [reached, noConn, Usable]
  obtain ⟨rest, unreached⟩ := connectSlots_reached h (List.nodup_finRange _) (begins _ rfl)
  have inner : ∀ i : Slot, i ∈ (List.finRange socketPoolTarget).dropLast ↔
      i.val + 1 < socketPoolTarget := by decide
  refine ⟨rest, unreached.kept, fun j member => ?_, ?_⟩
  · rw [(unreached.untouched j member).2]
  · rw [unreached.none_left]
    simp only [inner]

/-- The pool stays sound over every run after pool_init exactly if pool_init's loop was
not ended by a failed connection before the last slot. -/
theorem pool_sound_iff {opened : List Nat} {env : Slot → Bool × Option Nat} {now : Int} {s : Client}
    (init : poolInit opened env now = some s) :
    (∀ ops t, run step s ops = some t → Sound t) ↔
      ∀ i : Slot, i.val + 1 < socketPoolTarget → env i ≠ (true, none) := by
  obtain ⟨rest, kept, zeroed, none_left⟩ := poolInit_reached init
  rw [← none_left]
  constructor
  · intro sound
    have counted := (sound [] s rfl).counted
    cases rest with
    | nil => rfl
    | cons i rest =>
      -- the slots behind the failed one were not counted, yet they look open
      have more : (openSlots (reached (i :: rest) s).pool).length < (openSlots s.pool).length := by
        refine Slots.held_length_lt (fun j => ?_) (i := i) (by rw [reached_conn_first]; rfl) ?_
        · simp only [reached]
          split <;> simp [noConn]
        · rw [zeroed i List.mem_cons_self]
          rfl
      have count : s.pool.count = (openSlots (reached (i :: rest) s).pool).length := kept.counted
      omega
  · rintro rfl ops t h
    have start : Kept s := by simpa [reached] using kept
    exact (run_invariant kept_step h start).sound

/-- With all connections made the pool is sound for good. -/
theorem pool_sound_seven :
    ∃ s ∈ poolInit [0, 1, 2] sevenConnections 0, ∀ ops t, run step s ops = some t → Sound t := by
  obtain ⟨s, init⟩ : ∃ s, poolInit [0, 1, 2] sevenConnections 0 = some s :=
    Option.isSome_iff_exists.mp (by decide)
  exact ⟨s, init, (pool_sound_iff init).mpr fun i _ => by simp [sevenConnections]⟩

def twoConnections : Slot → Bool × Option Nat :=
  -- the third connection cannot be made
  fun i => (true, if i.val < 2 then some (i.val + 3) else none)

/-- Two connections are counted and six slots look open; the third call of pool_acquire
hands out a slot with the descriptor 0, which no pool_connect returned, and without a
scratch buffer. -/
theorem zeroed_slots_look_open :
    ∃ s ∈ poolInit [0, 1, 2] twoConnections 0,
      s.pool.count = 2 ∧ openSlots s.pool = [3, 4, 0, 0, 0, 0] ∧
      (0, none) ∈ s.descriptors ∧
      ∃ t ∈ run step s [.acquire (onlySend []), .acquire (onlySend [])],
        ∃ r ∈ poolAcquire t (onlySend []), ∃ i ∈ r.2,
          (t.pool.conns i).fd = some 0 ∧ (t.pool.conns i).scratch = false := by
  decide

def Idle (c : PoolConn) : Prop := c.fd ≠ none ∧ c.inUse = false

instance (c : PoolConn) : Decidable (Idle c) :=
  inferInstanceAs (Decidable (c.fd ≠ none ∧ c.inUse = false))

theorem freeConn_eq_none {p : SocketPool} : freeConn p = none ↔ ∀ i, ¬ Idle (p.conns i) := by
  have all : ∀ i : Slot, ∃ k < socketPoolTarget, p.nextIndex.after k = i := by
    intro i
    refine ⟨(i.val + socketPoolTarget - p.nextIndex.val) % socketPoolTarget,
      Nat.mod_lt _ (by decide), Fin.ext ?_⟩
    have here := i.isLt
    have first := p.nextIndex.isLt
    simp only [Slot.after, socketPoolTarget] at here first ⊢
    omega
  have look : ∀ i, ((p.conns i).fd.isSome && !(p.conns i).inUse) = true ↔ Idle (p.conns i) := by
    intro i
    simp [Idle, Option.isSome_iff_ne_none]
  simp only [freeConn, List.find?_eq_none, List.mem_map, List.mem_range, look]
  constructor
  · intro none_idle i
    obtain ⟨k, inside, same⟩ := all i
    exact none_idle i ⟨k, inside, same⟩
  · intro none_idle i _
    exact none_idle i

structure Loop where
  ended : Bool
  client : Client

def reconnectLoop (s : Client) : List Net → Option Loop
  | [] => some ⟨!decide (s.pool.count < socketPoolTarget), s⟩
  | net :: nets =>
    if s.pool.count < socketPoolTarget then do
      let (s, c) ← poolAcquire s net
      match c with
      | some i => reconnectLoop (poolRelease s i) nets
      | none => some ⟨true, s⟩
    else some ⟨true, s⟩

def doReconnect (s : Client) (now : Int) (nets : List Net) : Option Loop :=
  reconnectLoop (poolReapStale s now) nets

def Gains (s : Client) (nets : List Net) : Prop :=
  ∀ pre net, pre ++ [net] <+: nets → ∀ t u, reconnectLoop s pre = some ⟨false, t⟩ →
    reconnectLoop s (pre ++ [net]) = some ⟨false, u⟩ → t.pool.count < u.pool.count

theorem reconnectLoop_full {s : Client} (full : ¬ s.pool.count < socketPoolTarget) (nets : List Net) :
    reconnectLoop s nets = some ⟨true, s⟩ := by
  cases nets with
  | nil => simp [reconnectLoop, full]
  | cons net nets => rw [reconnectLoop, if_neg full]

theorem acquire_idle {s : Client} {i : Slot} (idle : Idle (s.pool.conns i)) (net : Net) :
    ∃ t j, poolAcquire s net = some (t, some j) ∧ t.pool.count = s.pool.count ∧
      Idle ((poolRelease t j).pool.conns j) := by
  cases free : freeConn s.pool with
  | none => exact absurd idle (freeConn_eq_none.mp free i)
  | some j =>
    have here := List.find?_some free
    simp only [Bool.and_eq_true, Option.isSome_iff_ne_none] at here
    simp only [poolAcquire, free]
    refine ⟨_, j, rfl, rfl, ?_⟩
    simpa [poolRelease, SocketPool.setConn, Idle] using here.1

theorem reconnectLoop_stalls {s : Client} {i : Slot} (idle : Idle (s.pool.conns i))
    (below : s.pool.count < socketPoolTarget) (nets : List Net) :
    ∃ t, reconnectLoop s nets = some ⟨false, t⟩ ∧ t.pool.count = s.pool.count := by
  induction nets generalizing s i with
  | nil => exact ⟨s, by simp [reconnectLoop, below], rfl⟩
  | cons net nets ih =>
    obtain ⟨t, j, acquire, count, idle⟩ := acquire_idle idle net
    have below' : (poolRelease t j).pool.count < socketPoolTarget := by
      change t.pool.count < _
      rw [count]
      exact below
    obtain ⟨u, goes_on, same⟩ := ih idle below'
    refine ⟨u, ?_, same.trans count⟩
    rw [reconnectLoop, if_pos below, acquire]
    exact goes_on

theorem acquire_busy {s : Client} (busy : ∀ i, ¬ Idle (s.pool.conns i))
    (below : s.pool.count < socketPoolTarget) {net : Net} {r : Client × Option Slot}
    (h : poolAcquire s net = some r) :
    (spareConn s.pool = none ∨ net.connect = none) ∧ r.2 = none ∨
      ∃ i, spareConn s.pool ≠ none ∧ net.connect ≠ none ∧ r.2 = some i ∧
        r.1.pool.count = s.pool.count + 1 ∧ Idle ((poolRelease r.1 i).pool.conns i) := by
  rw [poolAcquire, freeConn_eq_none.mpr busy] at h
  simp only [if_pos below] at h
  split at h
  next i fd spare connect =>
    split at h
    · cases h
    · cases h
      refine .inr ⟨i, by simp [spare], by simp [connect], rfl, rfl, ?_⟩
      simp [poolRelease, SocketPool.setConn, Idle]
  next other =>
    cases h
    refine .inl ⟨?_, rfl⟩
    by_contra made
    obtain ⟨spare, connect⟩ := not_or.mp made
    obtain ⟨i, spare⟩ := Option.ne_none_iff_exists'.mp spare
    obtain ⟨fd, connect⟩ := Option.ne_none_iff_exists'.mp connect
    exact other i fd spare connect

def EndsAtOnce (s : Client) (net : Net) : Prop :=
  (socketPoolTarget : Int) ≤ s.pool.count ∨ (∀ i, ¬ Idle (s.pool.conns i)) ∧
    (spareConn s.pool = none ∨ net.connect = none ∨ (socketPoolTarget : Int) ≤ s.pool.count + 1)

theorem reconnectLoop_endsAtOnce {s : Client} {net : Net} {nets : List Net} {r : Loop}
    (h : reconnectLoop s (net :: nets) = some r) :
    (EndsAtOnce s net → ∃ t, ∀ more, reconnectLoop s (net :: more) = some ⟨true, t⟩) ∧
      (¬ EndsAtOnce s net → r.ended = false) := by
  by_cases below : s.pool.count < socketPoolTarget
  · by_cases busy : ∀ i, ¬ Idle (s.pool.conns i)
    · rw [reconnectLoop, if_pos below] at h
      obtain ⟨⟨t, slot⟩, acquire, rest⟩ := Option.bind_eq_some_iff.mp h
      simp only [reconnectLoop, if_pos below, acquire]
      rcases acquire_busy busy below acquire with ⟨refused, rfl⟩ | ⟨i, spare, connect, rfl, count, idle⟩
      · refine ⟨fun _ => ⟨t, fun _ => rfl⟩, fun goes_on => absurd (.inr ⟨busy, ?_⟩) goes_on⟩
        rcases refused with spare | connect
        · exact .inl spare
        · exact .inr (.inl connect)
      · have count' : (poolRelease t i).pool.count = s.pool.count + 1 := count
        constructor
        · rintro (full | ⟨-, no_spare | failed | full⟩)
          · omega
          · exact absurd no_spare spare
          · exact absurd failed connect
          · have reached_target : ¬ (poolRelease t i).pool.count < socketPoolTarget := by omega
            exact ⟨poolRelease t i, reconnectLoop_full reached_target⟩
        · intro goes_on
          have below' : (poolRelease t i).pool.count < socketPoolTarget := by
            by_contra full
            exact goes_on (.inr ⟨busy, .inr (.inr (by omega))⟩)
          obtain ⟨u, stalled, -⟩ := reconnectLoop_stalls idle below' nets
          rw [Option.some.inj (rest.symm.trans stalled)]
    · have not_once : ¬ EndsAtOnce s net := by
        rintro (full | ⟨none_idle, -⟩)
        · omega
        · exact busy none_idle
      refine ⟨fun once => absurd once not_once, fun _ => ?_⟩
      obtain ⟨i, idle⟩ := not_forall_not.mp busy
      obtain ⟨u, stalled, -⟩ := reconnectLoop_stalls idle below (net :: nets)
      rw [Option.some.inj (h.symm.trans stalled)]
  · refine ⟨fun _ => ⟨s, fun more => reconnectLoop_full below _⟩, fun goes_on => ?_⟩
    exact absurd (.inl (by omega)) goes_on

/-- Whatever pool_connect returns, and however long the loop is watched: all its
iterations raise the count and it ends exactly if its first iteration is its last. -/
theorem reconnect_ends_iff {s : Client} {now : Int} {net : Net} {nets : List Net} {r : Loop}
    (h : doReconnect s now (net :: nets) = some r) :
    (Gains (poolReapStale s now) (net :: nets) ∧ r.ended = true) ↔
      EndsAtOnce (poolReapStale s now) net := by
  obtain ⟨ends, goes_on⟩ := reconnectLoop_endsAtOnce h
  constructor
  · rintro ⟨-, ended⟩
    by_contra not_once
    rw [goes_on not_once] at ended
    cases ended
  · intro once
    obtain ⟨t, left⟩ := ends once
    refine ⟨fun pre net' inner u v before after => ?_, ?_⟩
    · cases pre with
      | nil =>
        obtain ⟨rfl, -⟩ := List.cons_prefix_cons.mp inner
        have ended := (left []).symm.trans after
        cases ended
      | cons first pre =>
        obtain ⟨rfl, -⟩ := List.cons_prefix_cons.mp inner
        have ended := (left pre).symm.trans before
        cases ended
    · rw [Option.some.inj (h.symm.trans (left nets))]

/-- All seven connections are stale and the server is gone. -/
theorem reconnect_ends_unreachable :
    ∃ s ∈ poolInit [0, 1, 2] sevenConnections 0, ∃ r ∈ doReconnect s 1000 [onlySend [], onlySend []],
      EndsAtOnce (poolReapStale s 1000) (onlySend []) ∧ r.ended = true := by
  have runs : ∃ s ∈ poolInit [0, 1, 2] sevenConnections 0,
      ∃ r ∈ doReconnect s 1000 [onlySend [], onlySend []],
        ∀ i, ¬ Idle ((poolReapStale s 1000).pool.conns i) := by
    decide
  obtain ⟨s, init, r, h, busy⟩ := runs
  have once : EndsAtOnce (poolReapStale s 1000) (onlySend []) := .inr ⟨busy, .inr (.inl rfl)⟩
  exact ⟨s, init, r, h, once, ((reconnect_ends_iff h).mpr once).2⟩

/-- One connection was used not long ago, the other six are stale: the loop hands out
and takes back the one that is left, for as long as it is watched, and the count stays. -/
theorem reconnect_never_ends :
    ∃ s ∈ poolInit [0, 1, 2] sevenConnections 0, ∃ t ∈ run step s [.touch s.pool.nextIndex 1000],
      ∀ nets, ∃ u, doReconnect t 1000 nets = some ⟨false, u⟩ ∧ u.pool.count = 1 := by
  have runs : ∃ s ∈ poolInit [0, 1, 2] sevenConnections 0, ∃ t ∈ run step s [.touch s.pool.nextIndex 1000],
      (poolReapStale t 1000).pool.count = 1 ∧
        ∃ i, Idle ((poolReapStale t 1000).pool.conns i) := by
    decide
  obtain ⟨s, init, t, touched, one, i, idle⟩ := runs
  refine ⟨s, init, t, touched, fun nets => ?_⟩
  have below : (poolReapStale t 1000).pool.count < socketPoolTarget := by
    rw [one]
    decide
  obtain ⟨u, stalled, count⟩ := reconnectLoop_stalls idle below nets
  exact ⟨u, stalled, count.trans one⟩

end Go2Cloud.PoolRun
