import Mathlib.Data.List.Basic
import Mathlib.Data.List.TakeWhile
import Mathlib.Data.Nat.Find

/-! C strings as lists of characters. The list ends where the string has its NUL,
and a pointer into a string is the rest of the list from there on. -/
namespace Go2Cloud.CStrings

abbrev CString := { text : List Char // '\x00' ∉ text }

def strncmpZero : (a b : List Char) → (n : Nat) → Bool
  | _, _, 0 => true
  | [], [], _ + 1 => true
  | a :: as, b :: bs, n + 1 => decide (a = b) && strncmpZero as bs n
  | _, _, _ + 1 => false

def strstr (text needle : List Char) : Option (List Char) :=
  (text.dropInfix? needle).map fun parts => needle ++ parts.2

def strchr (text : List Char) (c : Char) : Option (List Char) :=
  match text.dropWhile (· != c) with
  | [] => none
  | c :: rest => some (c :: rest)

/-- `rest` is what stands behind the first `needle` of `text`. -/
def Behind (text needle rest : List Char) : Prop :=
  ∃ before, text = before ++ (needle ++ rest) ∧
    ∀ other after, text = other ++ (needle ++ after) → before.length ≤ other.length

def AtMostOnce (needle text : List Char) : Prop :=
  ∀ n ≤ text.length, ∀ m ≤ text.length,
    needle <+: text.drop n → needle <+: text.drop m → n = m

instance (needle text : List Char) : Decidable (AtMostOnce needle text) :=
  inferInstanceAs (Decidable (∀ n ≤ text.length, ∀ m ≤ text.length,
    needle <+: text.drop n → needle <+: text.drop m → n = m))

/-- The cell `i` of an array that holds `text`; `none` past its NUL, where nothing
was stored. -/
def cell (text : List Char) (i : Nat) : Option Char :=
  if i = text.length then some '\x00' else text[i]?

theorem strncmpZero_iff (a b : List Char) (n : Nat) :
    strncmpZero a b n = true ↔ a.take n = b.take n := by
  fun_induction strncmpZero a b n with
  | case1 => simp
  | case2 => simp
  | case3 a as b bs n ih => simp [ih]
  | case4 a b n none_left no_cons =>
    cases a with
    | nil =>
      cases b with
      | nil => exact (none_left rfl rfl).elim
      | cons b bs => simp
    | cons a as =>
      cases b with
      | nil => simp
      | cons b bs => exact (no_cons a as b bs rfl rfl).elim

theorem strstr_eq_some_iff {text needle p : List Char} :
    strstr text needle = some p ↔ ∃ rest, p = needle ++ rest ∧ Behind text needle rest := by
  rw [strstr, Option.map_eq_some_iff]
  constructor
  · rintro ⟨⟨before, rest⟩, found, rfl⟩
    obtain ⟨⟨word, whole, same⟩, first⟩ := List.dropInfix?_eq_some_iff.mp found
    obtain rfl := eq_of_beq same
    refine ⟨rest, rfl, before, by rw [whole, List.append_assoc], fun other after h => ?_⟩
    exact first other word after (by rw [h, List.append_assoc]) (beq_self_eq_true word)
  · rintro ⟨rest, rfl, before, whole, first⟩
    refine ⟨(before, rest), List.dropInfix?_eq_some_iff.mpr ⟨⟨needle, ?_, ?_⟩, ?_⟩, rfl⟩
    · rw [whole, List.append_assoc]
    · exact beq_self_eq_true needle
    · intro other word after h same
      obtain rfl := eq_of_beq same
      exact first other after (by rw [h, List.append_assoc])

theorem exists_behind {text needle : List Char} (h : needle <:+: text) :
    ∃ rest, Behind text needle rest := by
  obtain ⟨before, after, whole⟩ := h
  have some_occurrence : ∃ n before rest, before.length = n ∧ text = before ++ (needle ++ rest) :=
    ⟨_, before, after, rfl, by rw [← whole, List.append_assoc]⟩
  classical
  obtain ⟨first, rest, length, whole⟩ := Nat.find_spec some_occurrence
  refine ⟨rest, first, whole, fun other after h => ?_⟩
  rw [length]
  exact Nat.find_min' some_occurrence ⟨other, after, rfl, h⟩

theorem Behind.isInfix {text needle rest : List Char} (h : Behind text needle rest) :
    needle <:+: text := by
  obtain ⟨before, whole, -⟩ := h
  exact ⟨before, rest, by rw [whole, List.append_assoc]⟩

theorem strstr_eq_none_iff {text needle : List Char} :
    strstr text needle = none ↔ ¬ needle <:+: text := by
  constructor
  · intro missing found
    obtain ⟨rest, behind⟩ := exists_behind found
    have some_rest := strstr_eq_some_iff.mpr ⟨rest, rfl, behind⟩
    rw [missing] at some_rest
    cases some_rest
  · intro missing
    cases found : strstr text needle with
    | none => rfl
    | some p =>
      obtain ⟨rest, -, behind⟩ := strstr_eq_some_iff.mp found
      exact absurd behind.isInfix missing

theorem AtMostOnce.behind {needle before rest : List Char}
    (once : AtMostOnce needle (before ++ (needle ++ rest))) :
    Behind (before ++ (needle ++ rest)) needle rest := by
  refine ⟨before, rfl, fun other after h => ?_⟩
  have here : needle <+: (before ++ (needle ++ rest)).drop before.length := by
    rw [List.drop_left]
    exact List.prefix_append needle rest
  have there : needle <+: (before ++ (needle ++ rest)).drop other.length := by
    rw [h, List.drop_left]
    exact List.prefix_append needle after
  have inside : other.length ≤ (before ++ (needle ++ rest)).length := by
    rw [h, List.length_append]
    omega
  rw [once before.length (by simp) other.length inside here there]

theorem AtMostOnce.suffix {needle before text : List Char}
    (once : AtMostOnce needle (before ++ text)) : AtMostOnce needle text := by
  have drop (n : Nat) : (before ++ text).drop (before.length + n) = text.drop n := by
    rw [List.drop_append]
    simp
  intro n hn m hm here there
  have length : (before ++ text).length = before.length + text.length := List.length_append
  have same := once (before.length + n) (by omega) (before.length + m) (by omega)
    (by rwa [drop]) (by rwa [drop])
  omega

theorem strchr_head (c : Char) (text : List Char) : strchr (c :: text) c = some (c :: text) := by
  simp [strchr]

theorem strchr_skip {before : List Char} {c : Char} (clear : c ∉ before) (text : List Char) :
    strchr (before ++ text) c = strchr text c := by
  have skipped : (before ++ text).dropWhile (· != c) = text.dropWhile (· != c) := by
    refine List.dropWhile_append_of_pos fun d member => ?_
    simp only [bne_iff_ne, ne_eq]
    rintro rfl
    exact clear member
  rw [strchr, skipped, strchr]

theorem strchr_append {before : List Char} {c : Char} (clear : c ∉ before) (rest : List Char) :
    strchr (before ++ c :: rest) c = some (c :: rest) := by
  rw [strchr_skip clear, strchr_head]

theorem strchr_eq_some_iff {text p : List Char} {c : Char} :
    strchr text c = some p ↔
      ∃ before rest, text = before ++ p ∧ p = c :: rest ∧ c ∉ before := by
  constructor
  · intro found
    unfold strchr at found
    cases stop : text.dropWhile (· != c) with
    | nil => simp [stop] at found
    | cons d rest =>
      simp only [stop, Option.some.injEq] at found
      have head := List.head?_dropWhile_not (· != c) text
      rw [stop] at head
      have same : d = c := by simpa using head
      refine ⟨text.takeWhile (· != c), rest, ?_, by rw [← found, same], fun member => ?_⟩
      · rw [← found, ← stop, List.takeWhile_append_dropWhile]
      · simpa using List.mem_takeWhile_imp member
  · rintro ⟨before, rest, rfl, rfl, clear⟩
    exact strchr_append clear rest

end Go2Cloud.CStrings
