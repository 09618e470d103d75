import Go2Cloud.Lib.Table
import Mathlib.Data.List.Perm.Basic

/-! Two tables with the same rows of one owner, where the other rows stay away from a
set of keys. Reads, writes and queries of the owner that keep to these keys cannot
tell the tables apart. -/
namespace Go2Cloud.Keyed

variable {α κ : Type} {key : α → κ}

/-- The owner's rows are the same and have keys in `T`; no other row has. -/
structure Alike (own : α → Prop) (T : κ → Prop) (t t' : Table α κ key) : Prop where
  same : ∀ r, own r → (r ∈ t.rows ↔ r ∈ t'.rows)
  inside : ∀ r ∈ t.rows, own r → T (key r)
  apart : ∀ r ∈ t.rows, T (key r) → own r
  apart' : ∀ r ∈ t'.rows, T (key r) → own r

variable {own : α → Prop} {T : κ → Prop} {t t' : Table α κ key}

theorem nodup_rows (t : Table α κ key) : t.rows.Nodup := List.Nodup.of_map key t.unique

theorem Alike.filter_perm (h : Alike own T t t') {p : α → Bool} (owned : ∀ r, p r = true → own r) :
    (t.rows.filter p).Perm (t'.rows.filter p) := by
  rw [List.perm_ext_iff_of_nodup ((nodup_rows t).filter p) ((nodup_rows t').filter p)]
  intro r
  rw [List.mem_filter, List.mem_filter]
  exact and_congr_left fun selected => h.same r (owned r selected)

variable [DecidableEq κ]

theorem Alike.get_eq (h : Alike own T t t') {k : κ} (inside : T k) : get t k = get t' k := by
  apply Option.ext
  intro r
  rw [get_eq_some_iff, get_eq_some_iff]
  refine and_congr_left_iff.mpr fun here => ?_
  subst here
  constructor
  · intro member
    exact (h.same r (h.apart r member inside)).mp member
  · intro member
    exact (h.same r (h.apart' r member inside)).mpr member

theorem apart_put {x : α} (owned : own x) (apart : ∀ r ∈ t.rows, T (key r) → own r) :
    ∀ r ∈ (put t x).rows, T (key r) → own r := by
  intro r member there
  rcases (mem_put t).mp member with rfl | ⟨old, -⟩
  · exact owned
  · exact apart r old there

theorem Alike.put (h : Alike own T t t') {x : α} (owned : own x) (inside : T (key x)) :
    Alike own T (put t x) (put t' x) := by
  refine ⟨fun r owned_r => ?_, fun r member owned_r => ?_, apart_put owned h.apart,
    apart_put owned h.apart'⟩
  · rw [mem_put, mem_put, h.same r owned_r]
  · rcases (mem_put t).mp member with rfl | ⟨old, -⟩
    · exact inside
    · exact h.inside r old owned_r

theorem apart_modify {k : κ} {f : α → α} (keeps : ∀ r, key (f r) = key r)
    (owner : ∀ r, own (f r) ↔ own r) (apart : ∀ r ∈ t.rows, T (key r) → own r) :
    ∀ r ∈ (modify t k f keeps).rows, T (key r) → own r := by
  intro r member there
  rcases (mem_modify t).mp member with ⟨old, -⟩ | ⟨old, old_member, -, rfl⟩
  · exact apart r old there
  · rw [keeps] at there
    exact (owner old).mpr (apart old old_member there)

theorem Alike.modify (h : Alike own T t t') (k : κ) {f : α → α} (keeps : ∀ r, key (f r) = key r)
    (owner : ∀ r, own (f r) ↔ own r) :
    Alike own T (modify t k f keeps) (modify t' k f keeps) := by
  refine ⟨fun r owned => ?_, fun r member owned => ?_, apart_modify keeps owner h.apart,
    apart_modify keeps owner h.apart'⟩
  · rw [mem_modify, mem_modify, h.same r owned]
    refine or_congr_right (exists_congr fun old => ?_)
    constructor
    · rintro ⟨member, here, rfl⟩
      exact ⟨(h.same old ((owner old).mp owned)).mp member, here, rfl⟩
    · rintro ⟨member, here, rfl⟩
      exact ⟨(h.same old ((owner old).mp owned)).mpr member, here, rfl⟩
  · rcases (mem_modify t).mp member with ⟨old, -⟩ | ⟨old, old_member, -, rfl⟩
    · exact h.inside r old owned
    · rw [keeps]
      exact h.inside old old_member ((owner old).mp owned)

theorem length_modify (t : Table α κ key) (k : κ) (f : α → α) (keeps : ∀ r, key (f r) = key r) :
    (modify t k f keeps).rows.length = t.rows.length :=
  List.length_map _

theorem filter_key_eq {rows : List α} (unique : (rows.map key).Nodup) (k : κ) :
    rows.filter (fun r => decide (key r = k)) = (rows.find? fun r => decide (key r = k)).toList := by
  induction rows with
  | nil => rfl
  | cons r rest ih =>
    obtain ⟨fresh, unique⟩ := List.nodup_cons.mp unique
    by_cases here : key r = k
    · -- no later row has the key of the first
      have none_left : rest.filter (fun r => decide (key r = k)) = [] := by
        rw [List.filter_eq_nil_iff]
        intro r' member same
        exact fresh (List.mem_map.mpr ⟨r', member, (of_decide_eq_true same).trans here.symm⟩)
      simp [here, none_left]
    · simp [here, ih unique]

theorem length_put (t : Table α κ key) (x : α) :
    (put t x).rows.length + (get t (key x)).toList.length = t.rows.length + 1 := by
  have split := List.length_eq_length_filter_add (l := t.rows) fun r => decide (key r = key x)
  rw [filter_key_eq t.unique] at split
  simp only [put, List.length_append, List.length_singleton, get, ne_eq, decide_not]
  omega

end Go2Cloud.Keyed
