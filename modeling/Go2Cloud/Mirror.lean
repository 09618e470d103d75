import Go2Cloud.Client.Round
import Go2Cloud.Server.BlockWriter

/-! Source disks and their copies on the target. -/
namespace Go2Cloud.Mirror
open Protocol Tracker BlockWriter

abbrev Source := Int32 → Nat → UInt8

def Source.read (src : Source) (k : Key) (len : Nat) : List UInt8 :=
  ByteStore.read (src k.1) k.2.toInt.toNat len

def Source.write (src : Source) (devno : Int32) (pos : Nat) (bytes : List UInt8) : Source :=
  Function.update src devno (ByteStore.write (src devno) pos bytes)

/-- The block is what a read of the source at its key returns, in the length that
every read at this key has. -/
def FromSource (src : Source) (len : Key → Nat) (b : Block) : Prop :=
  b.data = src.read b.key (len b.key)

instance (src : Source) (len : Key → Nat) (b : Block) : Decidable (FromSource src len b) :=
  inferInstanceAs (Decidable (_ = _))

def Matches (src : Source) (store : Store) (k : Key) (len : Nat) : Prop :=
  0 ≤ k.2.toInt ∧
    ∃ i, diskOf k.1 = some i ∧ ByteStore.read (store i) k.2.toInt.toNat len = src.read k len

theorem FromSource.length {src : Source} {len : Key → Nat} {b : Block} (h : FromSource src len b) :
    b.data.length = len b.key := by
  rw [h, Source.read, ByteStore.read_length]

def Copies (src : Source) (b : Block) : Prop := b.data = src.read b.key b.data.length

theorem FromSource.copies {src : Source} {len : Key → Nat} {b : Block} (h : FromSource src len b) :
    Copies src b := by
  rw [Copies, h.length]
  exact h

theorem FromSource.eq_of_key {src : Source} {len : Key → Nat} {a b : Block}
    (ha : FromSource src len a) (hb : FromSource src len b) (key : a.key = b.key) : a = b := by
  have data : a.data = b.data := by rw [ha, hb, key]
  cases a
  cases b
  simp only [Block.key, Prod.mk.injEq] at key
  simp_all

def Covers (b : Block) (devno : Int32) (a : Nat) : Prop :=
  b.devno = devno ∧ b.offset.toInt.toNat ≤ a ∧ a < b.offset.toInt.toNat + b.data.length

instance (b : Block) (devno : Int32) (a : Nat) : Decidable (Covers b devno a) :=
  inferInstanceAs (Decidable (_ ∧ _ ∧ _))

def byteAt (b : Block) (a : Nat) : Option UInt8 := b.data[a - b.offset.toInt.toNat]?

theorem byteAt_read (src : Source) (k : Key) (n : Nat) {devno : Int32} {a : Nat}
    (h : Covers ⟨k.1, k.2, src.read k n⟩ devno a) :
    byteAt ⟨k.1, k.2, src.read k n⟩ a = some (src devno a) := by
  obtain ⟨device, low, high⟩ := h
  simp only [Source.read, ByteStore.read_length] at low high device
  have inside : a - k.2.toInt.toNat < n := by omega
  rw [byteAt, Source.read, ByteStore.read_getElem? _ _ inside, device, Nat.add_sub_cancel' low]

theorem write_outside (src : Source) {devno : Int32} {pos : Nat} {bytes : List UInt8} {d : Int32}
    {a : Nat} (h : ¬ (d = devno ∧ pos ≤ a ∧ a < pos + bytes.length)) :
    src.write devno pos bytes d a = src d a := by
  by_cases device : d = devno
  · subst device
    rw [Source.write, Function.update_self]
    exact ByteStore.write_outside _ (by by_contra inside; exact h ⟨rfl, by omega, by omega⟩)
  · rw [Source.write, Function.update_of_ne device]

theorem byteAt_write (src : Source) {b : Block} {devno : Int32} {a : Nat} (h : Covers b devno a) :
    byteAt b a = some (src.write b.devno b.offset.toInt.toNat b.data devno a) := by
  obtain ⟨rfl, low, high⟩ := h
  obtain ⟨n, rfl⟩ : ∃ n, a = b.offset.toInt.toNat + n := ⟨a - b.offset.toInt.toNat, by omega⟩
  have inside : n < b.data.length := by omega
  rw [Source.write, Function.update_self, ByteStore.write_inside _ _ inside, byteAt,
    Nat.add_sub_cancel_left, List.getElem?_eq_getElem inside]

variable {src : Source} {len : Key → Nat}

theorem Matches.put {store : Store} {k : Key} {n : Nat} (h : Matches src store k n) {b : Block}
    (source : FromSource src len b) {landed : List UInt8} (landed_le : landed <+: b.data) :
    Matches src (store.put b.devno b.offset landed) k n := by
  obtain ⟨nonneg, i, disk, same⟩ := h
  refine ⟨nonneg, i, disk, ?_⟩
  cases target : diskOf b.devno with
  | none => simpa [Store.put, target] using same
  | some j =>
    rw [Store.put_on _ target]
    by_cases here : i = j
    · subst here
      have device : b.devno = k.1 := diskOf_injective target disk
      rw [source, Source.read, Block.key, device] at landed_le
      rw [Function.update_self]
      refine ByteStore.read_eq_read_iff.mpr fun x hx => ?_
      rcases ByteStore.write_of_read landed_le (k.2.toInt.toNat + x) with copied | kept
      · exact copied
      · rw [kept]
        exact ByteStore.read_eq_read_iff.mp same x hx
    · rw [Function.update_of_ne here]
      exact same

theorem matches_put_self (store : Store) {b : Block} (source : FromSource src len b)
    {i : Fin maxTargetDisks} (disk : diskOf b.devno = some i) (nonneg : 0 ≤ b.offset.toInt) :
    Matches src (store.put b.devno b.offset b.data) b.key (len b.key) := by
  refine ⟨nonneg, i, disk, ?_⟩
  rw [Store.put_on _ disk, Function.update_self, ← source, ← source.length]
  exact ByteStore.read_write_self _ _ _

theorem put_uncovered (store : Store) {b : Block} {devno : Int32} {i : Fin maxTargetDisks} {a : Nat}
    (disk : diskOf devno = some i) (h : ¬ Covers b devno a) :
    store.put b.devno b.offset b.data i a = store i a := by
  cases target : diskOf b.devno with
  | none => simp [Store.put, target]
  | some j =>
    rw [Store.put_on _ target]
    by_cases here : i = j
    · subst here
      have device : b.devno = devno := diskOf_injective target disk
      rw [Function.update_self]
      refine ByteStore.write_outside _ ?_
      by_contra inside
      exact h ⟨device, by omega, by omega⟩
    · rw [Function.update_of_ne here]

theorem byteAt_put (store : Store) {b : Block} {devno : Int32} {i : Fin maxTargetDisks} {a : Nat}
    (disk : diskOf devno = some i) (h : Covers b devno a) :
    byteAt b a = some (store.put b.devno b.offset b.data i a) := by
  obtain ⟨rfl, low, high⟩ := h
  obtain ⟨n, rfl⟩ : ∃ n, a = b.offset.toInt.toNat + n := ⟨a - b.offset.toInt.toNat, by omega⟩
  have inside : n < b.data.length := by omega
  rw [Store.put_on _ disk, Function.update_self, ByteStore.write_inside _ _ inside, byteAt,
    Nat.add_sub_cancel_left, List.getElem?_eq_getElem inside]

theorem put_covered (store : Store) {b : Block} (copies : Copies src b) {devno : Int32}
    {i : Fin maxTargetDisks} {a : Nat} (disk : diskOf devno = some i) (h : Covers b devno a) :
    store.put b.devno b.offset b.data i a = src devno a := by
  obtain ⟨rfl, low, high⟩ := h
  rw [Store.put_on _ disk, Function.update_self]
  obtain ⟨n, rfl⟩ : ∃ n, a = b.offset.toInt.toNat + n := ⟨a - b.offset.toInt.toNat, by omega⟩
  have inside : n < b.data.length := by omega
  rw [ByteStore.write_inside _ _ inside]
  have whole := ByteStore.read_getElem? (src b.devno) b.offset.toInt.toNat inside
  have byte : b.data[n]? = some (src b.devno (b.offset.toInt.toNat + n)) :=
    (congrArg (·[n]?) copies).trans whole
  exact (List.getElem_eq_iff inside).mpr byte

/-- Writing source blocks one after another copies exactly the bytes they cover. -/
theorem foldl_put_source {blocks : List Block} (source : ∀ b ∈ blocks, Copies src b)
    (store : Store) {devno : Int32} {i : Fin maxTargetDisks} (disk : diskOf devno = some i)
    (a : Nat) :
    blocks.foldl (fun s b => s.put b.devno b.offset b.data) store i a =
      if ∃ b ∈ blocks, Covers b devno a then src devno a else store i a := by
  induction blocks generalizing store with
  | nil => simp
  | cons b blocks ih =>
    rw [List.foldl_cons, ih fun b' hb' => source b' (List.mem_cons_of_mem _ hb')]
    by_cases rest : ∃ b' ∈ blocks, Covers b' devno a
    · obtain ⟨b', member, covers⟩ := rest
      rw [if_pos ⟨b', member, covers⟩, if_pos ⟨b', List.mem_cons_of_mem _ member, covers⟩]
    · rw [if_neg rest]
      by_cases first : Covers b devno a
      · rw [if_pos ⟨b, List.mem_cons_self, first⟩,
          put_covered store (source b List.mem_cons_self) disk first]
      · rw [put_uncovered store disk first, if_neg]
        rintro ⟨b', member, covers⟩
        rcases List.mem_cons.mp member with rfl | later
        · exact first covers
        · exact rest ⟨b', later, covers⟩

end Go2Cloud.Mirror

/-! Blocks queued so far, newest first, and the latest content sent for a key. -/
namespace Go2Cloud.History
open Protocol Tracker Round

def hashOf (b : Block) : UInt64 := blockHash b.offset b.data

def latest (sent : List Block) (k : Key) : Option Block := sent.find? fun b => b.key = k

theorem latest_cons (b : Block) (sent : List Block) (k : Key) :
    latest (b :: sent) k = if b.key = k then some b else latest sent k := by
  simp only [latest, List.find?_cons]
  split <;> simp_all

theorem latest_append (xs ys : List Block) (k : Key) :
    latest (xs ++ ys) k = (latest xs k).or (latest ys k) :=
  List.find?_append

theorem latest_some {sent : List Block} {k : Key} {b : Block} (h : latest sent k = some b) :
    b ∈ sent ∧ b.key = k :=
  ⟨List.mem_of_find?_eq_some h, of_decide_eq_true (List.find?_some h :)⟩

/-- The tracker records the hash of the latest transmission of every block. -/
def Tracks (db : BlockTable) (sent : List Block) : Prop :=
  ∀ k, sqliteBlockLookup db k = (latest sent k).map hashOf

theorem tracks_empty : Tracks Keyed.empty [] := fun _ => rfl

theorem Tracks.sent {db db' : BlockTable} {sent : List Block} (h : Tracks db sent) {b : Block}
    (recorded : ∀ k, sqliteBlockLookup db' k =
      if b.key = k then some (hashOf b) else sqliteBlockLookup db k) : Tracks db' (b :: sent) := by
  intro k
  rw [recorded, latest_cons]
  split
  · rfl
  · exact h k

def NoCollision (sent scanned : List Block) : Prop :=
  ∀ old ∈ sent, ∀ b ∈ scanned, old.key = b.key → hashOf old = hashOf b → old = b

instance (sent scanned : List Block) : Decidable (NoCollision sent scanned) :=
  inferInstanceAs (Decidable (∀ old ∈ sent, ∀ b ∈ scanned, _))

end Go2Cloud.History
