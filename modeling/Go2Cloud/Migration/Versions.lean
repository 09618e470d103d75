import Go2Cloud.Migration.Remotes

/-! The versions of a tracker over its whole life (T_VERSION in client/sqlite.c). Each incremental
round of do_migrate and each cmd_incsync starts a version, reports how many blocks it changed when
it ends, and stamps the rows of T_BLOCK with it. Processes follow one another on the same file, for
any receivers, and each may stop at any point. inc_version is an int: a receiver has fewer than 2^31
versions, and the counts of blocks fit as well. -/
namespace Go2Cloud.Versions
open Protocol Reader Tracker Round BlockWriter Migration Remotes Transition Keyed
open Retransmit (ReaderEntry)

structure VersionInfo where
  version : Int
  remoteId : String
  scannedCount : Nat
  changedCount : Nat

def VersionInfo.row (v : VersionInfo) : VersionRow := ⟨v.version, v.remoteId⟩

def sqliteVersionStart (infos : List VersionInfo) (version : Int) (remoteId : String) :
    List VersionInfo :=
  infos ++ [⟨version, remoteId, 0, 0⟩]

def sqliteVersionEnd (infos : List VersionInfo) (version : Int) (remoteId : String)
    (scanned changed : Nat) : List VersionInfo :=
  -- every row of that version and receiver counts the blocks
  infos.map fun v =>
    if v.version = version ∧ v.remoteId = remoteId then
      { v with scannedCount := v.scannedCount + scanned, changedCount := v.changedCount + changed }
    else v

structure Process where
  -- `scanned` and `changed` are blocks_scanned and blocks_changed of cmd_incsync
  client : Client
  infos : List VersionInfo
  scanned : Nat
  changed : Nat

inductive Event where
  -- a step of the process, or the end of cmd_incsync
  | client (e : Remotes.Event)
  | report

def start (cmd : Command) (remoteId : String) (db : BlockTable) (infos : List VersionInfo)
    (w : Writer) (plan : List Key) : Process where
  client := Remotes.start cmd remoteId db (infos.map VersionInfo.row) w plan
  infos :=
    match cmd with
    | .migrate _ => infos
    | .incsync _ =>
      sqliteVersionStart infos (startVersion (infos.map VersionInfo.row) remoteId) remoteId
  scanned := 0
  changed := 0

/-- The round that ends, if its version is counted: rounds of the transfer have none. -/
def endedRound (c : Client) : Remotes.Event → Option Progress
  | .endRound _ =>
    match c.stage, c.sys.pc with
    | .loop, .round p => some p
    | _, _ => none
  | _ => none

def record (remoteId : String) (c : Client) (infos : List VersionInfo) (e : Remotes.Event) :
    List VersionInfo :=
  match endedRound c e with
  | some p =>
    let infos := sqliteVersionEnd infos c.incVersion remoteId 0 p.requeued
    match shouldFinish c.sys.db remoteId p.requeued c.incVersion c.zeroChangeRounds c.incRound with
    | (some _, _) => infos
    | (none, _) => sqliteVersionStart infos (c.incVersion + 1) remoteId
  | none =>
    match e with
    | .startLoop => sqliteVersionStart infos (startVersion c.versions remoteId) remoteId
    | _ => infos

def blocksScanned : Remotes.Event → Nat
  | .visit (some data) => if data.1 = [] then 0 else 1
  | _ => 0

def blocksChanged (before after : Client) : Remotes.Event → Nat
  | .perform (.push _ _) =>
    match before.sys.pc, after.sys.pc with
    | .pushing _ _, .idle => 1
    | _, _ => 0
  | _ => 0

/-- The scan of cmd_incsync may stop early, but not inside its push loop. -/
def step (cmd : Command) (remoteId : String) (readers : List ReaderEntry) (p : Process) :
    Event → Option Process
  | .client e =>
    (Remotes.step cmd remoteId readers p.client e).map fun c =>
      ⟨c, record remoteId p.client p.infos e, p.scanned + blocksScanned e,
        p.changed + blocksChanged p.client c e⟩
  | .report =>
    match cmd, p.client.stage, p.client.sys.pc with
    | .incsync _, .transfer, .idle =>
      some { p with
        client := { p.client with stage := .done }
        infos := sqliteVersionEnd p.infos p.client.incVersion remoteId p.scanned p.changed }
    | _, _, _ => none

def reported (p : Process) : Event → List Nat
  | .client e => (endedRound p.client e).toList.map Progress.requeued
  | .report => [p.changed]

structure TrackerFile where
  -- tracker.db, and the changed blocks reported so far
  db : BlockTable
  infos : List VersionInfo
  changed : Nat

def created : TrackerFile := ⟨Keyed.empty, [], 0⟩

inductive Use where
  | process (cmd : Command) (remoteId : String) (readers : List ReaderEntry) (w : Writer)
    (plan : List Key) (events : List Event)
  | endSession

/-- One use of the file: a process as far as it came, or sqlite_clear_all_blocks. -/
def use (t : TrackerFile) : Use → Option TrackerFile
  | .process cmd remoteId readers w plan events =>
    let s := start cmd remoteId t.db t.infos w plan
    (run (step cmd remoteId readers) s events).map fun p =>
      ⟨p.client.sys.db, p.infos, t.changed + (trace (step cmd remoteId readers) reported s events).sum⟩
  | .endSession => some { t with db := Keyed.empty }

def upTo (n : Nat) : List Int := (List.range n).map fun i : Nat => (i : Int) + 1

def Numbered (infos : List VersionInfo) (remoteId : String) (n : Nat) : Prop :=
  (infos.filter fun v => v.remoteId == remoteId).map VersionInfo.version = upTo n

def Started (infos : List VersionInfo) (version : Int) : Prop :=
  version = 0 ∨ ∃ v ∈ infos, v.version = version

section Numbering
variable {infos : List VersionInfo} {remoteId r : String} {n : Nat} {version : Int}

theorem upTo_succ (n : Nat) : upTo (n + 1) = upTo n ++ [(n : Int) + 1] := by
  simp [upTo, List.range_succ]

theorem mem_upTo {v : Int} : v ∈ upTo n ↔ 1 ≤ v ∧ v ≤ n := by
  simp only [upTo, List.mem_map, List.mem_range]
  constructor
  · rintro ⟨i, lt, rfl⟩
    omega
  · intro ⟨low, high⟩
    exact ⟨(v - 1).toNat, by omega, by omega⟩

theorem nodup_upTo (n : Nat) : (upTo n).Nodup :=
  List.nodup_range.map fun i j same => by simpa using same

theorem max_upTo (n : Nat) : (upTo n).max?.getD 0 = n := by
  cases n with
  | zero => rfl
  | succ n =>
    have top : (upTo (n + 1)).max? = some ((n : Int) + 1) := by
      rw [List.max?_eq_some_iff]
      exact ⟨mem_upTo.mpr (by omega), fun b member => by have range := mem_upTo.mp member; omega⟩
    rw [top]
    simp

theorem Numbered.startVersion_eq (h : Numbered infos remoteId n) :
    startVersion (infos.map VersionInfo.row) remoteId = n + 1 := by
  have own : ((infos.map VersionInfo.row).filter fun v => v.remoteId == remoteId).map
      VersionRow.version = upTo n := by
    rw [List.filter_map, List.map_map]
    exact h
  have next : sqliteGetNextVersion (infos.map VersionInfo.row) remoteId = n + 1 := by
    rw [sqliteGetNextVersion, own, max_upTo]
  rw [startVersion, next, if_neg (by omega)]

theorem Numbered.start (h : Numbered infos remoteId n) :
    Numbered (sqliteVersionStart infos (n + 1) remoteId) remoteId (n + 1) := by
  unfold Numbered sqliteVersionStart
  rw [List.filter_append, List.map_append, h, upTo_succ]
  simp

theorem Numbered.start_other (h : Numbered infos r n) (other : r ≠ remoteId) (version : Int) :
    Numbered (sqliteVersionStart infos version remoteId) r n := by
  unfold Numbered sqliteVersionStart
  rw [List.filter_append, List.map_append, h]
  simp [Ne.symm other]

theorem versionEnd_rows (infos : List VersionInfo) (version : Int) (remoteId : String)
    (scanned changed : Nat) :
    (sqliteVersionEnd infos version remoteId scanned changed).map VersionInfo.row =
      infos.map VersionInfo.row := by
  unfold sqliteVersionEnd
  rw [List.map_map]
  refine List.map_congr_left fun v _ => ?_
  simp only [Function.comp]
  split <;> rfl

theorem numbered_congr {infos' : List VersionInfo}
    (rows : infos'.map VersionInfo.row = infos.map VersionInfo.row) :
    Numbered infos' r n ↔ Numbered infos r n := by
  have own : ∀ l : List VersionInfo, (l.filter fun v => v.remoteId == r).map VersionInfo.version =
      ((l.map VersionInfo.row).filter fun v => v.remoteId == r).map VersionRow.version := by
    intro l
    rw [List.filter_map, List.map_map]
    rfl
  rw [Numbered, own, rows, ← own, Numbered]

theorem Numbered.count (h : Numbered infos remoteId n) (low : 1 ≤ version) (high : version ≤ n) :
    infos.countP (fun v => v.version = version ∧ v.remoteId = remoteId) = 1 := by
  have own : infos.countP (fun v => v.version = version ∧ v.remoteId = remoteId) =
      ((infos.filter fun v => v.remoteId == remoteId).map VersionInfo.version).count version := by
    rw [List.count, List.countP_map, List.countP_filter]
    refine List.countP_congr fun v _ => ?_
    simp
  rw [own, h]
  exact List.count_eq_one_of_mem (nodup_upTo n) (mem_upTo.mpr ⟨low, high⟩)

theorem started_own (infos : List VersionInfo) (version : Int) (remoteId : String) :
    Started (sqliteVersionStart infos version remoteId) version :=
  .inr ⟨_, List.mem_append_right _ (List.mem_singleton.mpr rfl), rfl⟩

theorem sum_versionEnd (infos : List VersionInfo) (version : Int) (remoteId : String)
    (scanned changed : Nat) :
    ((sqliteVersionEnd infos version remoteId scanned changed).map VersionInfo.changedCount).sum =
      (infos.map VersionInfo.changedCount).sum +
        changed * infos.countP (fun v => v.version = version ∧ v.remoteId = remoteId) := by
  induction infos with
  | nil => simp [sqliteVersionEnd]
  | cons v infos ih =>
    simp only [sqliteVersionEnd, List.map_cons, List.sum_cons, List.countP_cons] at ih ⊢
    rw [ih]
    split
    next here =>
      simp only [here, and_self, decide_true, if_true, Nat.mul_add]
      omega
    next other =>
      simp only [other, decide_false, Bool.false_eq_true, if_false, Nat.add_zero]
      omega

theorem Started.of_rows {infos' : List VersionInfo}
    (rows : ∀ v ∈ infos, ∃ v' ∈ infos', v'.version = v.version) (h : Started infos version) :
    Started infos' version := by
  rcases h with zero | ⟨v, member, eq⟩
  · exact .inl zero
  · obtain ⟨v', member', same⟩ := rows v member
    exact .inr ⟨v', member', same.trans eq⟩

end Numbering

def Holds (P : Int → Prop) : Pc → Prop
  | .pushing _ (.sendBlock version) => P version
  | .pushing _ (.round p) => P p.version
  | .round p => P p.version
  | _ => True

structure Stamps (P : Int → Prop) (s : Sys) : Prop where
  rows : ∀ row ∈ s.db.rows, P row.version
  pc : Holds P s.pc

section Stamps
variable {P : Int → Prop} {cfg : Config} {s s' : Sys}

theorem Stamps.mono {Q : Int → Prop} (h : Stamps P s) (le : ∀ v, P v → Q v) : Stamps Q s where
  rows row member := le _ (h.rows row member)
  pc := by
    have pc := h.pc
    cases at_pc : s.pc with
    | pushing b pusher => cases pusher <;> exact le _ (by rwa [at_pc] at pc)
    | round p => exact le _ (by rwa [at_pc] at pc)
    | idle => trivial
    | crashed => trivial

theorem stamped_marked {k : Key} {version : Int} {old row : Row}
    (marked : Row.Marked k version old row) (before : P old.version) (new : P version) :
    P row.version := by
  rcases marked.mark with ⟨-, same⟩ | ⟨-, -, same | stamped⟩
  · exact same ▸ before
  · exact same ▸ before
  · exact stamped ▸ new

theorem Stamps.step (h : Stamps P s) {a : Migration.Action}
    (enters : ∀ b version, a = .sendBlock b version → P version)
    (begins : ∀ batch now version, a = .beginRound batch now version → P version)
    (st : Migration.Step cfg s a s') : Stamps P s' := by
  have pc := h.pc
  cases st with
  | moved moves =>
    refine ⟨h.rows, ?_⟩
    cases moves with
    | stay => exact pc
    | leave round => trivial
    | take idle => exact enters _ _ rfl
    | @giveUp b pusher push =>
      rw [push] at pc
      cases pusher with
      | sendBlock version => trivial
      | round p => exact pc
    | «begin» idle tail selected => exact begins _ _ _ rfl
    | next round batch =>
      rw [round] at pc
      exact pc
  | deferred push room => exact ⟨h.rows, pc⟩
  | @recorded _ now b pusher push room =>
    rw [push] at pc
    cases pusher with
    | sendBlock version =>
      refine ⟨fun row member => ?_, trivial⟩
      rcases mem_upsert member with rfl | ⟨old, -⟩
      · exact pc
      · exact h.rows row old
    | round p =>
      refine ⟨fun row member => ?_, pc⟩
      rcases mem_recordResent member with rfl | ⟨old, -⟩
      · exact pc
      · exact h.rows row old
  | dropped pop unsent => exact ⟨h.rows, pc⟩
  | crashed pop => exact ⟨h.rows, trivial⟩
  | flushed pop bytes => exact ⟨h.rows, pc⟩
  | announced => exact ⟨h.rows, pc⟩
  | ended first => exact ⟨h.rows, pc⟩
  | endedUnsent first => exact ⟨h.rows, pc⟩
  | acked head ack =>
    refine ⟨fun row member => ?_, pc⟩
    dsimp only at member
    split at member
    · exact h.rows row member
    · rcases (mem_modify s.db).mp member with ⟨same, -⟩ | ⟨old, old_member, -, rfl⟩
      · exact h.rows row same
      · exact h.rows old old_member
  | finished head done => exact ⟨h.rows, pc⟩
  | ignored head => exact ⟨h.rows, pc⟩
  | lost head bad => exact ⟨h.rows, pc⟩
  | delivered head good => exact ⟨h.rows, pc⟩
  | @stable live p row rest round batch decision =>
    rw [round] at pc
    refine ⟨fun r member => ?_, pc⟩
    obtain ⟨old, old_member, marked⟩ := mem_markStable member
    exact stamped_marked marked (h.rows old old_member) pc
  | @changed live p row rest data round batch decision =>
    rw [round] at pc
    refine ⟨fun r member => ?_, pc⟩
    obtain ⟨old, old_member, -, -, same⟩ := mem_updateLastSent member
    exact same ▸ h.rows old old_member

theorem Stamps.sendRead (h : Stamps P s) {k : Key} {version : Int} (new : P version)
    {read : Option ReadData} (next : FullRun.sendRead cfg s k version read = some s') :
    Stamps P s' := by
  cases read with
  | none => exact FullRun.sendRead_none next ▸ h
  | some data =>
    have moved : Migration.step cfg s (.sendBlock (FullRun.readAs k data) version) = some s' := next
    refine h.step (fun b v same => ?_) (fun batch now v same => ?_) (Migration.step_inv moved)
    · cases same
      exact new
    · cases same

theorem Stamps.retransmits {readers : List ReaderEntry} {version : Int} {pending : List Key}
    {read : ReaderEntry → Nat → Option ReadData} {call : Retransmit.Call} (h : Stamps P s)
    (new : P version)
    (next : Retransmit.step cfg readers version ⟨s, pending⟩ (.next read) = some call) :
    Stamps P call.sys := by
  simp only [Retransmit.step] at next
  split at next
  · cases next
  · split at next
    · cases next
      exact h
    · obtain ⟨s', sent, rfl⟩ := Option.map_eq_some_iff.mp next
      exact h.sendRead new sent

theorem Stamps.scanRead (h : Stamps P s) {k : Key} {version now : Int} (new : P version)
    {read : Option ReadData} (next : Remotes.scanRead s k version now read = some s') :
    Stamps P s' := by
  unfold Remotes.scanRead at next
  split at next
  next data idle _ =>
    cases next
    unfold scanBlock
    split
    · exact h
    · split
      · refine ⟨fun row member => ?_, h.pc⟩
        obtain ⟨mid, mid_member, marked⟩ := mem_markVerified member
        obtain ⟨old, old_member, -, -, same⟩ := mem_updateLastSent mid_member
        exact stamped_marked marked (same ▸ h.rows old old_member) new
      · exact ⟨h.rows, new⟩
  · cases next
    exact h
  · cases next

theorem Stamps.examineNext (h : Stamps P s) {live : Option ReadData}
    (next : Remotes.examineNext s live = some s') : Stamps P s' := by
  unfold Remotes.examineNext at next
  split at next
  next p round =>
    split at next
    · cases next
    next row rest batch =>
      split at next
      · cases next
        have pc := h.pc
        rw [round] at pc
        exact ⟨h.rows, pc⟩
      · have moved : Migration.step ⟨true, ""⟩ s (.examine live) = some s' := by
          simp only [Migration.step, round, batch]
          exact next
        exact h.step (by simp) (by simp) (Migration.step_inv moved)
  · cases next

end Stamps

def Counts (cmd : Command) (c : Client) : Prop := c.stage = .loop ∨ cmd.migrates = false

structure Inv (cmd : Command) (remoteId : String) (c : Client) (infos : List VersionInfo) : Prop where
  rows : c.versions = infos.map VersionInfo.row
  numbered : ∀ r, ∃ n, Numbered infos r n
  current : Counts cmd c → ∃ n : Nat, c.incVersion = n + 1 ∧ Numbered infos remoteId (n + 1)
  started : Started infos c.incVersion
  stamps : Stamps (Started infos) c.sys

section Process
variable {cmd : Command} {remoteId : String} {readers : List ReaderEntry} {c c' : Client}
  {infos : List VersionInfo} {n : Nat}

theorem numbered_start (h : ∀ r, ∃ n, Numbered infos r n) (own : Numbered infos remoteId n)
    (r : String) : ∃ m, Numbered (sqliteVersionStart infos (n + 1) remoteId) r m := by
  by_cases here : r = remoteId
  · subst here
    exact ⟨n + 1, own.start⟩
  · obtain ⟨m, other⟩ := h r
    exact ⟨m, other.start_other here _⟩

theorem started_start (version : Int) (remoteId : String) {v : Int} (h : Started infos v) :
    Started (sqliteVersionStart infos version remoteId) v :=
  h.of_rows fun x member => ⟨x, List.mem_append_left _ member, rfl⟩

theorem started_end (version : Int) (remoteId : String) (scanned changed : Nat) {v : Int}
    (h : Started infos v) : Started (sqliteVersionEnd infos version remoteId scanned changed) v := by
  refine h.of_rows fun x member => ⟨_, List.mem_map_of_mem member, ?_⟩
  split <;> rfl

theorem Inv.ends (h : Inv cmd remoteId c infos) (version : Int) (scanned changed : Nat) :
    Inv cmd remoteId c (sqliteVersionEnd infos version remoteId scanned changed) where
  rows := h.rows.trans (versionEnd_rows ..).symm
  numbered r := by
    obtain ⟨n, own⟩ := h.numbered r
    exact ⟨n, (numbered_congr (versionEnd_rows ..)).mpr own⟩
  current counts := by
    obtain ⟨n, same, own⟩ := h.current counts
    exact ⟨n, same, (numbered_congr (versionEnd_rows ..)).mpr own⟩
  started := started_end _ _ _ _ h.started
  stamps := h.stamps.mono fun _ => started_end _ _ _ _

theorem Inv.starts (h : Inv cmd remoteId c infos) (own : Numbered infos remoteId n)
    (db : c'.sys.db = c.sys.db) (idle : c'.sys.pc = .idle) (version : c'.incVersion = n + 1)
    (versions : c'.versions = c.versions ++ [⟨n + 1, remoteId⟩]) :
    Inv cmd remoteId c' (sqliteVersionStart infos (n + 1) remoteId) where
  rows := by
    rw [versions, h.rows, sqliteVersionStart, List.map_append]
    rfl
  numbered := numbered_start h.numbered own
  current _ := ⟨n, version, own.start⟩
  started := by
    rw [version]
    exact started_own ..
  stamps := by
    refine ⟨fun row member => ?_, by rw [idle]; trivial⟩
    rw [db] at member
    exact started_start _ _ (h.stamps.rows row member)

theorem Inv.moves (h : Inv cmd remoteId c infos) (versions : c'.versions = c.versions)
    (version : c'.incVersion = c.incVersion) (counts : Counts cmd c' → Counts cmd c)
    (stamps : Stamps (Started infos) c'.sys) : Inv cmd remoteId c' infos where
  rows := versions.trans h.rows
  numbered := h.numbered
  current counting := version ▸ h.current (counts counting)
  started := version ▸ h.started
  stamps := stamps

theorem Inv.sys (h : Inv cmd remoteId c infos) {s : Sys} (stamps : Stamps (Started infos) s)
    (todo pending : List Key) (rounds : Nat) :
    Inv cmd remoteId { c with sys := s, todo := todo, pending := pending, incRound := rounds } infos :=
  h.moves rfl rfl (fun counts => counts) stamps

theorem inv_start (cmd : Command) (remoteId : String) {db : BlockTable}
    (numbered : ∀ r, ∃ n, Numbered infos r n) (rows : ∀ row ∈ db.rows, Started infos row.version)
    (w : Writer) (plan : List Key) :
    Inv cmd remoteId (start cmd remoteId db infos w plan).client
      (start cmd remoteId db infos w plan).infos := by
  cases cmd with
  | migrate tailSend =>
    exact ⟨rfl, numbered, fun counts => by rcases counts with loop | other <;> contradiction,
      .inl rfl, rows, trivial⟩
  | incsync now =>
    obtain ⟨n, own⟩ := numbered remoteId
    simp only [start, Remotes.start, own.startVersion_eq]
    exact {
      rows := by rw [sqliteVersionStart, List.map_append]; rfl
      numbered := numbered_start numbered own
      current := fun _ => ⟨n, rfl, own.start⟩
      started := started_own ..
      stamps := ⟨fun row member => started_start _ _ (rows row member), trivial⟩ }

def changedTotal (infos : List VersionInfo) : Nat := (infos.map VersionInfo.changedCount).sum

theorem changedTotal_start (infos : List VersionInfo) (version : Int) (remoteId : String) :
    changedTotal (sqliteVersionStart infos version remoteId) = changedTotal infos := by
  simp [changedTotal, sqliteVersionStart]

theorem changedTotal_begin (cmd : Command) (remoteId : String) (db : BlockTable)
    (infos : List VersionInfo) (w : Writer) (plan : List Key) :
    changedTotal (start cmd remoteId db infos w plan).infos = changedTotal infos := by
  cases cmd with
  | migrate tailSend => rfl
  | incsync now => exact changedTotal_start ..

theorem Inv.changedTotal_end (h : Inv cmd remoteId c infos) (counts : Counts cmd c)
    (scanned changed : Nat) :
    changedTotal (sqliteVersionEnd infos c.incVersion remoteId scanned changed) =
      changedTotal infos + changed := by
  obtain ⟨n, version, own⟩ := h.current counts
  rw [changedTotal, sum_versionEnd, own.count (by omega) (by push_cast; omega), Nat.mul_one]
  rfl

theorem Inv.endRound (h : Inv cmd remoteId c infos) {round : Progress}
    (at_round : c.sys.pc = .round round) (acquired : Bool) :
    Inv cmd remoteId (Remotes.endRound remoteId c round acquired)
        (record remoteId c infos (.endRound acquired)) ∧
      changedTotal (record remoteId c infos (.endRound acquired)) =
        changedTotal infos +
          ((endedRound c (.endRound acquired)).toList.map Progress.requeued).sum := by
  by_cases loop : c.stage = .loop
  · have ended : endedRound c (.endRound acquired) = some round := by
      simp [endedRound, loop, at_round]
    have total := h.changedTotal_end (.inl loop) 0 round.requeued
    have counted := h.ends c.incVersion 0 round.requeued
    simp only [record, ended, Option.toList_some, List.map_cons, List.map_nil, List.sum_singleton,
      Remotes.endRound, if_pos loop]
    rcases decision : shouldFinish c.sys.db remoteId round.requeued c.incVersion c.zeroChangeRounds
      c.incRound with ⟨_ | why, rounds⟩
    · obtain ⟨n, version, own⟩ := counted.current (.inl loop)
      have next : c.incVersion + 1 = ((n + 1 : Nat) : Int) + 1 := by rw [version]; rfl
      dsimp only
      rw [changedTotal_start, next]
      exact ⟨counted.starts own rfl rfl rfl rfl, total⟩
    · exact ⟨counted.moves rfl rfl (fun _ => .inl loop) ⟨counted.stamps.rows, trivial⟩, total⟩
  · have none_ended : endedRound c (.endRound acquired) = none := by
      simp only [endedRound]
      split
      next stage _ => exact (loop stage).elim
      · rfl
    simp only [record, none_ended, Remotes.endRound, if_neg loop]
    exact ⟨h.moves rfl rfl (fun counts => counts) ⟨h.stamps.rows, trivial⟩, rfl⟩

theorem step_inv {p p' : Process} {e : Event} (h : Inv cmd remoteId p.client p.infos)
    (next : step cmd remoteId readers p e = some p') :
    Inv cmd remoteId p'.client p'.infos ∧
      changedTotal p'.infos = changedTotal p.infos + (reported p e).sum := by
  cases e with
  | report =>
    simp only [step] at next
    split at next
    · cases next
      exact ⟨(h.ends _ _ _).moves rfl rfl (fun _ => .inr rfl) (h.ends _ _ _).stamps,
        h.changedTotal_end (.inr rfl) _ _⟩
    · cases next
  | client e =>
    obtain ⟨c, moved, rfl⟩ := Option.map_eq_some_iff.mp next
    cases e with
    | visit read =>
      simp only [Remotes.step] at moved
      split at moved
      next k rest _ _ _ =>
        obtain ⟨s, visited, rfl⟩ := Option.map_eq_some_iff.mp moved
        refine ⟨h.sys ?_ _ _ _, rfl⟩
        cases cmd with
        | migrate tailSend => exact h.stamps.sendRead h.started visited
        | incsync now => exact h.stamps.scanRead h.started visited
      · cases moved
    | retransmit rows =>
      simp only [Remotes.step] at moved
      split at moved
      · split at moved
        · cases moved
          exact ⟨h.sys h.stamps _ _ _, rfl⟩
        · cases moved
      · cases moved
    | next read =>
      obtain ⟨call, handled, rfl⟩ := Option.map_eq_some_iff.mp moved
      exact ⟨h.sys (h.stamps.retransmits h.started handled) _ _ _, rfl⟩
    | perform a =>
      simp only [Remotes.step] at moved
      split at moved
      next inside =>
        obtain ⟨s, performed, rfl⟩ := Option.map_eq_some_iff.mp moved
        refine ⟨h.sys (h.stamps.step ?_ ?_ (Migration.step_inv performed)) _ _ _, rfl⟩
        · rintro b version rfl
          cases inside
        · rintro batch now version rfl
          cases inside
      · cases moved
    | startLoop =>
      simp only [Remotes.step] at moved
      split at moved
      next idle =>
        split at moved
        · cases moved
          obtain ⟨n, own⟩ := h.numbered remoteId
          have first : startVersion p.client.versions remoteId = n + 1 := by
            rw [h.rows, own.startVersion_eq]
          simp only [record, endedRound, first]
          exact ⟨h.starts own rfl idle rfl rfl, changedTotal_start ..⟩
        · cases moved
      · cases moved
    | beginRound batch now =>
      simp only [Remotes.step] at moved
      split at moved
      · split at moved
        · cases moved
        · obtain ⟨s, begun, rfl⟩ := Option.map_eq_some_iff.mp moved
          refine ⟨h.sys (h.stamps.step ?_ ?_ (Migration.step_inv begun)) _ _ _, rfl⟩
          · intro b version same
            cases same
          · intro batch now version same
            cases same
            exact h.started
      · cases moved
    | examine live =>
      obtain ⟨s, examined, rfl⟩ := Option.map_eq_some_iff.mp moved
      exact ⟨h.sys (h.stamps.examineNext examined) _ _ _, rfl⟩
    | endRound acquired =>
      simp only [Remotes.step] at moved
      split at moved
      next round at_round =>
        split at moved
        · cases moved
          exact h.endRound at_round acquired
        · cases moved
      · cases moved

/-- What a process leaves in the file, wherever it stops. -/
theorem run_inv {p p' : Process} {events : List Event} (h : Inv cmd remoteId p.client p.infos)
    (ran : run (step cmd remoteId readers) p events = some p') :
    Inv cmd remoteId p'.client p'.infos ∧ changedTotal p'.infos =
      changedTotal p.infos + (trace (step cmd remoteId readers) reported p events).sum := by
  have always : Meets (step cmd remoteId readers) (fun _ _ => True) p events :=
    meets_of_forall _ fun _ _ _ => trivial
  have nothing : Inv cmd remoteId p.client p.infos ∧
      changedTotal p.infos = changedTotal p.infos + ([] : List Nat).sum := ⟨h, rfl⟩
  exact run_invariant_trace
    (P := fun seen q => Inv cmd remoteId q.client q.infos ∧
      changedTotal q.infos = changedTotal p.infos + seen.sum)
    (fun seen q e q' ⟨inv, total⟩ _ next => by
      obtain ⟨inv', total'⟩ := step_inv inv next
      refine ⟨inv', ?_⟩
      rw [total', total, List.sum_append, Nat.add_assoc])
    ran always nothing

end Process

structure Ordered (t : TrackerFile) : Prop where
  numbered : ∀ r, ∃ n, Numbered t.infos r n
  changed : changedTotal t.infos = t.changed
  stamped : ∀ row ∈ t.db.rows, Started t.infos row.version

theorem Ordered.use {t t' : TrackerFile} {u : Use} (h : Ordered t) (used : use t u = some t') :
    Ordered t' := by
  cases u with
  | process cmd remoteId readers w plan events =>
    obtain ⟨p, ran, rfl⟩ := Option.map_eq_some_iff.mp used
    obtain ⟨inv, total⟩ := run_inv (inv_start cmd remoteId h.numbered h.stamped w plan) ran
    refine ⟨inv.numbered, total.trans ?_, inv.stamps.rows⟩
    rw [changedTotal_begin, h.changed]
  | endSession =>
    cases used
    exact ⟨h.numbered, h.changed, fun row member => by cases member⟩

theorem created_ordered : Ordered created :=
  ⟨fun _ => ⟨0, rfl⟩, rfl, fun row member => by cases member⟩

/-- Over the whole life of a tracker each receiver's versions are 1, 2, … without gaps or
repetitions, every changed block reported is counted in exactly one of them, and a row of T_BLOCK
only has a version that was started. -/
theorem versions_in_order {uses : List Use} {t : TrackerFile} (ran : run use created uses = some t) :
    (∀ r, ∃ n, Numbered t.infos r n) ∧ changedTotal t.infos = t.changed ∧
      ∀ row ∈ t.db.rows, Started t.infos row.version := by
  have ordered : Ordered t :=
    run_invariant (P := Ordered) (fun _ _ _ h used => h.use used) ran created_ordered
  exact ⟨ordered.numbered, ordered.changed, ordered.stamped⟩

theorem oneByte_fits : ([1] : List UInt8).length ≤ blockSize := by decide

def scanOne : List Event :=
  [.client (.visit (some ⟨[1], oneByte_fits⟩)), .client (.perform (.push true 0)), .report]

def history : List Use :=
  -- a round of a migration to "a", then incremental syncs to "b" and "a" with a changed block each
  [.process (.migrate true) "a" [] blankWriter []
      [.client .startLoop, .client (.beginRound [] 0), .client (.endRound false)],
    .process (.incsync 0) "b" [] blankWriter [(0, 0)] scanOne, .endSession,
    .process (.incsync 0) "a" [] blankWriter [(0, 0)] scanOne]

theorem versions_in_order_history :
    (run use created history).map (fun t => (t.infos.map VersionInfo.version, t.changed)) =
        some ([1, 1, 2], 2) ∧
      ∃ t : TrackerFile, (∀ r, ∃ n, Numbered t.infos r n) ∧ changedTotal t.infos = t.changed ∧
        ∀ row ∈ t.db.rows, Started t.infos row.version := by
  have ran : (run use created history).map (fun t => (t.infos.map VersionInfo.version, t.changed)) =
      some ([1, 1, 2], 2) := by decide +kernel
  obtain ⟨t, used, -⟩ := Option.map_eq_some_iff.mp ran
  exact ⟨ran, t, versions_in_order used⟩

end Go2Cloud.Versions
