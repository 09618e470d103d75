import Go2Cloud.Lib.Table
import Go2Cloud.Protocol

/-! The block tracker T_BLOCK (client/sqlite.c): one row per device and offset. -/
namespace Go2Cloud.Tracker
open Protocol Keyed

structure Row where
  devno : Int32
  offset : Int64
  size : Int32
  hash : UInt64
  ack : Bool
  lastSent : Int
  version : Int
  remoteId : String
  deriving DecidableEq, Repr

abbrev Key := Int32 × Int64

def Row.key (r : Row) : Key := (r.devno, r.offset)

abbrev BlockTable := Table Row Key Row.key

def sqliteBlockLookup (db : BlockTable) (k : Key) : Option UInt64 := (get db k).map Row.hash

def sqliteBlockAcked (db : BlockTable) (k : Key) : Option Bool := (get db k).map Row.ack

/-- INSERT OR REPLACE with last_sent 0. -/
def sqliteBlockUpsertV (db : BlockTable) (remoteId : String) (k : Key) (size : Int32) (hash : UInt64)
    (ack : Bool) (version : Int) : BlockTable :=
  put db ⟨k.1, k.2, size, hash, ack, 0, version, remoteId⟩

def sqliteBlockMarkAcked (db : BlockTable) (k : Key) : BlockTable :=
  modify db k (fun r => { r with ack := true }) fun _ => rfl

def sqliteBlockMarkVerified (db : BlockTable) (k : Key) (version : Int) : BlockTable :=
  modify db k (fun r => { r with version := version, ack := true }) fun _ => rfl

def sqliteUpdateLastSent (db : BlockTable) (k : Key) (timestamp : Int) : BlockTable :=
  modify db k (fun r => { r with lastSent := timestamp }) fun _ => rfl

theorem get_markAcked (db : BlockTable) (k k' : Key) :
    get (sqliteBlockMarkAcked db k) k' =
      (get db k').map fun r => if r.key = k then { r with ack := true } else r :=
  get_modify db k _ _ k'

theorem get_markVerified (db : BlockTable) (k : Key) (version : Int) (k' : Key) :
    get (sqliteBlockMarkVerified db k version) k' =
      (get db k').map fun r => if r.key = k then { r with version := version, ack := true } else r :=
  get_modify db k _ _ k'

theorem get_updateLastSent (db : BlockTable) (k : Key) (timestamp : Int) (k' : Key) :
    get (sqliteUpdateLastSent db k timestamp) k' =
      (get db k').map fun r => if r.key = k then { r with lastSent := timestamp } else r :=
  get_modify db k _ _ k'

theorem get_upsert (db : BlockTable) (remoteId : String) (k : Key) (size : Int32) (hash : UInt64)
    (ack : Bool) (version : Int) (k' : Key) :
    get (sqliteBlockUpsertV db remoteId k size hash ack version) k' =
      if k = k' then some ⟨k.1, k.2, size, hash, ack, 0, version, remoteId⟩ else get db k' :=
  get_put db _ k'

theorem lookup_modify (db : BlockTable) (k : Key) {f : Row → Row} (keeps : ∀ r, (f r).key = r.key)
    (hash : ∀ r, (f r).hash = r.hash) (k' : Key) :
    sqliteBlockLookup (modify db k f keeps) k' = sqliteBlockLookup db k' := by
  rw [sqliteBlockLookup, get_modify, Option.map_map]
  refine Option.map_congr fun r _ => ?_
  simp only [Function.comp_apply]
  split
  · exact hash r
  · rfl

@[simp] theorem lookup_markAcked (db : BlockTable) (k k' : Key) :
    sqliteBlockLookup (sqliteBlockMarkAcked db k) k' = sqliteBlockLookup db k' := by
  refine lookup_modify db k _ ?_ k'
  exact fun _ => rfl

@[simp] theorem lookup_markVerified (db : BlockTable) (k : Key) (version : Int) (k' : Key) :
    sqliteBlockLookup (sqliteBlockMarkVerified db k version) k' = sqliteBlockLookup db k' := by
  refine lookup_modify db k _ ?_ k'
  exact fun _ => rfl

@[simp] theorem lookup_updateLastSent (db : BlockTable) (k : Key) (timestamp : Int) (k' : Key) :
    sqliteBlockLookup (sqliteUpdateLastSent db k timestamp) k' = sqliteBlockLookup db k' := by
  refine lookup_modify db k _ ?_ k'
  exact fun _ => rfl

theorem lookup_upsert (db : BlockTable) (remoteId : String) (k : Key) (size : Int32) (hash : UInt64)
    (ack : Bool) (version : Int) (k' : Key) :
    sqliteBlockLookup (sqliteBlockUpsertV db remoteId k size hash ack version) k' =
      if k = k' then some hash else sqliteBlockLookup db k' := by
  have key : Row.key ⟨k.1, k.2, size, hash, ack, 0, version, remoteId⟩ = k := rfl
  rw [sqliteBlockLookup, sqliteBlockUpsertV, get_put, key]
  split
  · rfl
  · rfl

structure Row.Same (old row : Row) : Prop where
  key : row.key = old.key
  hash : row.hash = old.hash
  size : row.size = old.size
  remoteId : row.remoteId = old.remoteId

theorem Row.Same.refl (row : Row) : Row.Same row row := ⟨rfl, rfl, rfl, rfl⟩

theorem Row.Same.trans {old mid row : Row} (h : Row.Same old mid) (h' : Row.Same mid row) :
    Row.Same old row :=
  ⟨h'.key.trans h.key, h'.hash.trans h.hash, h'.size.trans h.size, h'.remoteId.trans h.remoteId⟩

structure Row.Marked (k : Key) (version : Int) (old row : Row) : Prop extends Row.Same old row where
  mark : (row.ack = old.ack ∧ row.version = old.version) ∨
    (old.key = k ∧ row.ack = true ∧ (row.version = old.version ∨ row.version = version))

theorem mem_updateLastSent {db : BlockTable} {k : Key} {timestamp : Int} {row : Row}
    (h : row ∈ (sqliteUpdateLastSent db k timestamp).rows) :
    ∃ old ∈ db.rows, Row.Same old row ∧ row.ack = old.ack ∧ row.version = old.version := by
  rcases (mem_modify db).mp h with ⟨member, -⟩ | ⟨old, member, -, rfl⟩
  · exact ⟨row, member, ⟨rfl, rfl, rfl, rfl⟩, rfl, rfl⟩
  · exact ⟨old, member, ⟨rfl, rfl, rfl, rfl⟩, rfl, rfl⟩

theorem mem_markAcked {db : BlockTable} {k : Key} {row : Row}
    (h : row ∈ (sqliteBlockMarkAcked db k).rows) (version : Int) :
    ∃ old ∈ db.rows, Row.Marked k version old row := by
  rcases (mem_modify db).mp h with ⟨member, -⟩ | ⟨old, member, key, rfl⟩
  · exact ⟨row, member, ⟨rfl, rfl, rfl, rfl⟩, .inl ⟨rfl, rfl⟩⟩
  · exact ⟨old, member, ⟨rfl, rfl, rfl, rfl⟩, .inr ⟨key, rfl, .inl rfl⟩⟩

theorem markAcked_self {db : BlockTable} {row : Row} (h : row ∈ db.rows) :
    { row with ack := true } ∈ (sqliteBlockMarkAcked db row.key).rows :=
  (mem_modify db).mpr (.inr ⟨row, h, rfl, rfl⟩)

theorem markAcked_other {db : BlockTable} {k : Key} {row : Row} (h : row ∈ db.rows)
    (other : row.key ≠ k) : row ∈ (sqliteBlockMarkAcked db k).rows :=
  (mem_modify db).mpr (.inl ⟨h, other⟩)

theorem mem_markVerified {db : BlockTable} {k : Key} {version : Int} {row : Row}
    (h : row ∈ (sqliteBlockMarkVerified db k version).rows) :
    ∃ old ∈ db.rows, Row.Marked k version old row := by
  rcases (mem_modify db).mp h with ⟨member, -⟩ | ⟨old, member, key, rfl⟩
  · exact ⟨row, member, ⟨rfl, rfl, rfl, rfl⟩, .inl ⟨rfl, rfl⟩⟩
  · exact ⟨old, member, ⟨rfl, rfl, rfl, rfl⟩, .inr ⟨key, rfl, .inr rfl⟩⟩

theorem mem_upsert {db : BlockTable} {remoteId : String} {k : Key} {size : Int32} {hash : UInt64}
    {ack : Bool} {version : Int} {row : Row}
    (h : row ∈ (sqliteBlockUpsertV db remoteId k size hash ack version).rows) :
    row = ⟨k.1, k.2, size, hash, ack, 0, version, remoteId⟩ ∨ (row ∈ db.rows ∧ row.key ≠ k) :=
  (mem_put db).mp h

def unackedRows (db : BlockTable) (remoteId : String) : List Row :=
  db.rows.filter fun r => !r.ack && r.remoteId == remoteId

def Row.before (a b : Row) : Bool :=
  decide (a.lastSent < b.lastSent) || (a.lastSent == b.lastSent && decide (a.offset ≤ b.offset))

/-- A result of sqlite_get_unacked_with_hash in some order of its rows: ties in
the ORDER BY are broken either way, and the caller shuffles. -/
def IsUnackedBatch (db : BlockTable) (remoteId : String) (limit : Nat) (batch : List Row) : Prop :=
  batch.Nodup ∧ (∀ r ∈ batch, r ∈ unackedRows db remoteId) ∧
    batch.length = min limit (unackedRows db remoteId).length ∧
    ∀ r ∈ batch, ∀ r' ∈ unackedRows db remoteId, r' ∉ batch → r.before r' = true

instance (db : BlockTable) (remoteId : String) (limit : Nat) (batch : List Row) :
    Decidable (IsUnackedBatch db remoteId limit batch) :=
  inferInstanceAs (Decidable (_ ∧ _ ∧ _ ∧ _))

theorem IsUnackedBatch.selected {db : BlockTable} {remoteId : String} {limit : Nat}
    {batch : List Row} (h : IsUnackedBatch db remoteId limit batch) :
    (batch.map Row.key).Nodup ∧ ∀ r ∈ batch, sqliteBlockLookup db r.key = some r.hash := by
  have rows : ∀ r ∈ batch, r ∈ db.rows := fun r hr => (List.mem_filter.mp (h.2.1 r hr)).1
  refine ⟨h.1.map_on fun r hr r' hr' same => ?_, fun r hr => ?_⟩
  · exact List.inj_on_of_nodup_map db.unique (rows r hr) (rows r' hr') same
  · rw [sqliteBlockLookup, (get_eq_some_iff db).mpr ⟨rows r hr, rfl⟩]
    rfl

def sqliteCountUnackedV (db : BlockTable) (remoteId : String) (beforeVersion : Int) : Nat :=
  (unackedRows db remoteId).countP fun r => decide (r.version < beforeVersion)

theorem version_of_countUnackedV {db : BlockTable} {remoteId : String} {version : Int}
    (h : sqliteCountUnackedV db remoteId version = 0) {row : Row} (member : row ∈ db.rows)
    (remote : row.remoteId = remoteId) (unacked : row.ack = false) : version ≤ row.version := by
  have listed : row ∈ unackedRows db remoteId := by
    simp [unackedRows, member, remote, unacked]
  have current := List.countP_eq_zero.mp h row listed
  simpa using current

def sqliteCountUnacked (db : BlockTable) (remoteId : String) : Nat := (unackedRows db remoteId).length

def sqliteCountBlocks (db : BlockTable) : Nat := db.rows.length

end Go2Cloud.Tracker
