import Mathlib.Data.List.Basic
import Mathlib.Data.List.Nodup
import Mathlib.Data.List.Perm.Subperm
import Mathlib.Logic.Function.Basic

/-! Tables with a unique key: the rows in insertion order, replaced and updated
by key; the first element of each key; and the first `limit` items under an order. -/
namespace Go2Cloud.Keyed

structure Table (α κ : Type) (key : α → κ) where
  rows : List α
  unique : (rows.map key).Nodup

variable {α κ : Type} {key : α → κ}

def empty : Table α κ key := ⟨[], List.nodup_nil⟩

variable [DecidableEq κ]

def get (t : Table α κ key) (k : κ) : Option α := t.rows.find? fun r => key r = k

def put (t : Table α κ key) (x : α) : Table α κ key where
  rows := t.rows.filter (fun r => key r ≠ key x) ++ [x]
  unique := by
    rw [List.map_append, List.nodup_append]
    refine ⟨t.unique.sublist (List.filter_sublist.map _), by simp, ?_⟩
    intro a ha b hb
    obtain ⟨r, hr, rfl⟩ := List.mem_map.mp ha
    simp only [List.map_cons, List.map_nil, List.mem_singleton] at hb
    simpa [hb] using (List.mem_filter.mp hr).2

def modify (t : Table α κ key) (k : κ) (f : α → α) (keeps : ∀ r, key (f r) = key r) :
    Table α κ key where
  rows := t.rows.map fun r => if key r = k then f r else r
  unique := by
    have same : (t.rows.map fun r => if key r = k then f r else r).map key = t.rows.map key := by
      rw [List.map_map]
      refine List.map_congr_left fun r _ => ?_
      simp only [Function.comp_apply]
      split
      · exact keeps r
      · rfl
    rw [same]
    exact t.unique

theorem get_eq_some_iff (t : Table α κ key) {k : κ} {r : α} :
    get t k = some r ↔ r ∈ t.rows ∧ key r = k := by
  constructor
  · intro found
    have member := List.mem_of_find?_eq_some found
    have same := List.find?_some found
    exact ⟨member, of_decide_eq_true same⟩
  · rintro ⟨member, rfl⟩
    cases found : get t (key r) with
    | none => simpa using List.find?_eq_none.mp found r member
    | some r' =>
      have same : key r' = key r := by simpa using List.find?_some found
      rw [List.inj_on_of_nodup_map t.unique (List.mem_of_find?_eq_some found) member same]

theorem mem_put (t : Table α κ key) {x r : α} :
    r ∈ (put t x).rows ↔ r = x ∨ (r ∈ t.rows ∧ key r ≠ key x) := by
  simp only [put, List.mem_append, List.mem_filter, List.mem_singleton, decide_eq_true_eq]
  exact or_comm

theorem mem_modify (t : Table α κ key) {k : κ} {f : α → α} {keeps : ∀ r, key (f r) = key r}
    {r : α} :
    r ∈ (modify t k f keeps).rows ↔
      (r ∈ t.rows ∧ key r ≠ k) ∨ ∃ old ∈ t.rows, key old = k ∧ r = f old := by
  simp only [modify, List.mem_map]
  constructor
  · rintro ⟨old, member, rfl⟩
    split
    next same => exact .inr ⟨old, member, same, rfl⟩
    next other => exact .inl ⟨member, other⟩
  · rintro (⟨member, other⟩ | ⟨old, member, same, rfl⟩)
    · exact ⟨r, member, if_neg other⟩
    · exact ⟨old, member, if_pos same⟩

theorem get_put (t : Table α κ key) (x : α) (k : κ) :
    get (put t x) k = if key x = k then some x else get t k := by
  apply Option.ext
  intro r
  rw [get_eq_some_iff, mem_put]
  split
  next same =>
    constructor
    · rintro ⟨rfl | ⟨-, other⟩, here⟩
      · rfl
      · exact absurd (here.trans same.symm) other
    · rintro ⟨⟩
      exact ⟨.inl rfl, same⟩
  next other =>
    rw [get_eq_some_iff]
    constructor
    · rintro ⟨rfl | ⟨member, -⟩, here⟩
      · exact absurd here other
      · exact ⟨member, here⟩
    · rintro ⟨member, here⟩
      exact ⟨.inr ⟨member, fun same => other (same.symm.trans here)⟩, here⟩

theorem get_modify (t : Table α κ key) (k : κ) (f : α → α) (keeps : ∀ r, key (f r) = key r)
    (k' : κ) :
    get (modify t k f keeps) k' = (get t k').map fun r => if key r = k then f r else r := by
  apply Option.ext
  intro r
  rw [get_eq_some_iff, mem_modify, Option.map_eq_some_iff]
  constructor
  · rintro ⟨⟨member, other⟩ | ⟨old, member, same, rfl⟩, here⟩
    · exact ⟨r, (get_eq_some_iff t).mpr ⟨member, here⟩, if_neg other⟩
    · exact ⟨old, (get_eq_some_iff t).mpr ⟨member, (keeps old).symm.trans here⟩, if_pos same⟩
  · rintro ⟨old, found, rfl⟩
    obtain ⟨member, here⟩ := (get_eq_some_iff t).mp found
    split
    next same => exact ⟨.inr ⟨old, member, same, rfl⟩, (keeps old).trans here⟩
    next other => exact ⟨.inl ⟨member, other⟩, here⟩

theorem map_get_of_ne (t : Table α κ key) {k k' : κ} (other : k' ≠ k) (f : α → α) :
    ((get t k').map fun r => if key r = k then f r else r) = get t k' := by
  cases found : get t k' with
  | none => rfl
  | some r =>
    obtain rfl : key r = k' := ((get_eq_some_iff t).mp found).2
    rw [Option.map_some, if_neg other]

theorem rows_perm (t : Table α κ key) (k : κ) :
    t.rows.Perm ((get t k).toList ++ t.rows.filter fun r => key r ≠ k) := by
  have rows : t.rows.Nodup := t.unique.of_map
  refine (List.perm_ext_iff_of_nodup rows ?_).mpr fun r => ?_
  · rw [List.nodup_append]
    refine ⟨by cases get t k <;> simp, rows.filter _, fun a ha b hb same => ?_⟩
    have here := ((get_eq_some_iff t).mp (Option.mem_toList.mp ha)).2
    exact of_decide_eq_true (List.mem_filter.mp hb).2 (same ▸ here)
  · simp only [List.mem_append, Option.mem_toList, get_eq_some_iff,
      List.mem_filter, decide_eq_true_eq]
    tauto

theorem countP_rows (t t' : Table α κ key) (k : κ) (others : ∀ j, j ≠ k → get t' j = get t j)
    (p : α → Bool) :
    t'.rows.countP p + (get t k).toList.countP p = t.rows.countP p + (get t' k).toList.countP p := by
  have same : (t'.rows.filter fun r => key r ≠ k).Perm (t.rows.filter fun r => key r ≠ k) := by
    refine (List.perm_ext_iff_of_nodup (t'.unique.of_map.filter _) (t.unique.of_map.filter _)).mpr
      fun r => ?_
    simp only [List.mem_filter, decide_eq_true_eq]
    refine and_congr_left fun other => ?_
    have both := (get_eq_some_iff t').symm.trans ((others _ other).symm ▸ get_eq_some_iff t (r := r))
    simpa using both
  rw [(rows_perm t k).countP_eq p, (rows_perm t' k).countP_eq p, List.countP_append,
    List.countP_append, same.countP_eq p]
  omega

section Once

/-- The elements a loop takes up that leaves out all but the first of each key, when `done`
holds of the keys seen before. -/
def once (key : α → κ) : List α → (κ → Bool) → List α
  | [], _ => []
  | a :: rest, done =>
    if done (key a) then once key rest done
    else a :: once key rest (Function.update done (key a) true)

theorem mem_once {key : α → κ} {xs : List α} {done : κ → Bool} {a : α} :
    a ∈ once key xs done ↔
      done (key a) = false ∧ xs.find? (fun x => key x = key a) = some a := by
  induction xs generalizing done with
  | nil => simp [once]
  | cons x rest ih =>
    rw [once]
    by_cases same : key x = key a
    · rw [List.find?_cons_of_pos (by simpa using same), Option.some.injEq]
      split
      next before =>
        rw [same] at before
        simp [ih, before]
      next fresh =>
        rw [same] at fresh ⊢
        rw [List.mem_cons, ih, Function.update_self]
        simp [fresh, eq_comm]
    · rw [List.find?_cons_of_neg (by simpa using same)]
      split
      · exact ih
      · rw [List.mem_cons, ih, Function.update_of_ne (Ne.symm same)]
        refine or_iff_right ?_
        rintro rfl
        exact same rfl

end Once

section Selection

structure Selects (before : α → α → Bool) (limit : Nat) (items batch : List α) : Prop where
  nodup : batch.Nodup
  within : ∀ x ∈ batch, x ∈ items
  length : batch.length = min limit items.length
  first : ∀ x ∈ batch, ∀ y ∈ items, y ∉ batch → before x y = true

variable {before : α → α → Bool} {limit : Nat} {items batch : List α} {x : α}

/-- An item that is passed over stands behind a full batch. -/
theorem Selects.passed_over (h : Selects before limit items batch) (member : x ∈ items)
    (out : x ∉ batch) : batch.length = limit ∧ ∀ y ∈ batch, before y x = true := by
  refine ⟨?_, fun y hy => h.first y hy x member out⟩
  have distinct : (x :: batch).Nodup := List.nodup_cons.mpr ⟨out, h.nodup⟩
  have fits : (x :: batch).Subperm items :=
    List.subperm_of_subset distinct (List.cons_subset.mpr ⟨member, h.within⟩)
  have longer := fits.length_le
  have length := h.length
  rw [List.length_cons] at longer
  omega

theorem Selects.starves (h : Selects before limit items batch) {front : List α}
    (distinct : front.Nodup) (ahead : ∀ y ∈ front, y ∈ items ∧ before x y = false)
    (out : x ∉ front) (many : limit ≤ front.length) : x ∉ batch := by
  intro member
  have taken : ∀ y ∈ front, y ∈ batch := by
    intro y hy
    by_contra left
    have behind := h.first x member y (ahead y hy).1 left
    rw [(ahead y hy).2] at behind
    cases behind
  have fits : (x :: front).Subperm batch :=
    List.subperm_of_subset (List.nodup_cons.mpr ⟨out, distinct⟩)
      (List.cons_subset.mpr ⟨member, taken⟩)
  have longer := fits.length_le
  have length := h.length
  rw [List.length_cons] at longer
  omega

theorem exists_selects (trans : ∀ x y z, before x y = true → before y z = true → before x z = true)
    (total : ∀ x y, (before x y || before y x) = true) (distinct : items.Nodup) (limit : Nat) :
    ∃ batch, Selects before limit items batch := by
  have sorted := List.pairwise_mergeSort trans total items
  have perm := List.mergeSort_perm items before
  have split := List.take_append_drop limit (items.mergeSort before)
  refine ⟨(items.mergeSort before).take limit, ?_, ?_, ?_, ?_⟩
  · exact (perm.nodup_iff.mpr distinct).sublist (List.take_sublist _ _)
  · exact fun x member => perm.subset (List.mem_of_mem_take member)
  · rw [List.length_take, perm.length_eq]
  · intro x member y listed out
    rw [← split] at sorted
    have later : y ∈ (items.mergeSort before).drop limit := by
      have there := perm.symm.subset listed
      rw [← split] at there
      exact (List.mem_append.mp there).resolve_left out
    exact (List.pairwise_append.mp sorted).2.2 x member y later

end Selection

end Go2Cloud.Keyed
