import Go2Cloud.Lib.CStrings
import Go2Cloud.Lib.Runs
import Mathlib.Data.Nat.Digits.Lemmas

/-! The SkipPartitions string of cmd_incsync: partition_is_skipped
(client/main.c). A character stands for one byte; `none` is a read of a cell of
`target` that snprintf did not write. -/
namespace Go2Cloud.SkipList
open CStrings Runs

def decimal (v : Int32) : List Char :=
  if v.toInt < 0 then '-' :: Nat.toDigits 10 v.toInt.natAbs else Nat.toDigits 10 v.toInt.natAbs

def entryText (devno partIndex : Int32) : List Char := decimal devno ++ ':' :: decimal partIndex

def targetSize : Nat := 32

/-- snprintf cuts its output to the size of the array, less the NUL. -/
def target (devno partIndex : Int32) : List Char :=
  (entryText devno partIndex).take (targetSize - 1)

def isSeparator (c : Char) : Bool := c == ' ' || c == ',' || c == '\t'

def matchesTarget (target start : List Char) (len : Nat) : Option Bool :=
  -- the test on the `len` characters from `start` on
  if len > 0 ∧ len < targetSize ∧ strncmpZero target start len = true then
    (cell target len).map fun c => c == '\x00'
  else some false

def scan (target p : List Char) : Option Bool :=
  match _front : p.dropWhile isSeparator with
  | [] => some false
  | c :: rest =>
    let start := c :: rest
    let len := (start.takeWhile fun c => !isSeparator c).length
    match matchesTarget target start len with
    | some false => scan target (start.dropWhile fun c => !isSeparator c)
    | result => result
termination_by p.length
decreasing_by exact rest_length_lt _front

def partitionIsSkipped (skipStr : Option CString) (devno partIndex : Int32) : Option Bool :=
  match skipStr with
  | none => some false
  | some skipStr =>
    if skipStr.1 = [] then some false else scan (target devno partIndex) skipStr.1

theorem decimal_length_le (v : Int32) : (decimal v).length ≤ 11 := by
  have low := v.le_toInt
  have high := v.toInt_lt
  have digits : (Nat.toDigits 10 v.toInt.natAbs).length ≤ 10 :=
    (Nat.length_toDigits_le_iff (by decide) (by decide)).mpr (by omega)
  unfold decimal
  split
  · rw [List.length_cons]
    omega
  · omega

theorem entryText_length_le (devno partIndex : Int32) :
    (entryText devno partIndex).length ≤ 23 := by
  have first := decimal_length_le devno
  have second := decimal_length_le partIndex
  rw [entryText, List.length_append, List.length_cons]
  omega

theorem target_eq (devno partIndex : Int32) :
    target devno partIndex = entryText devno partIndex := by
  -- the array is large enough for every pair of integers
  have short := entryText_length_le devno partIndex
  exact List.take_of_length_le (by unfold targetSize; omega)

theorem decimal_isDigit {v : Int32} {c : Char} (h : c ∈ decimal v) :
    c = '-' ∨ c.isDigit = true := by
  have digit (member : c ∈ Nat.toDigits 10 v.toInt.natAbs) : c.isDigit = true :=
    Nat.isDigit_of_mem_toDigits (by decide) (by decide) member
  unfold decimal at h
  split at h
  · rcases List.mem_cons.mp h with rfl | member
    · exact .inl rfl
    · exact .inr (digit member)
  · exact .inr (digit h)

theorem entryText_clear {devno partIndex : Int32} {c : Char} (h : c ∈ entryText devno partIndex) :
    isSeparator c = false ∧ c ≠ '\x00' := by
  have printable : c = ':' ∨ c = '-' ∨ c.isDigit = true := by
    rcases List.mem_append.mp h with first | second
    · exact .inr (decimal_isDigit first)
    · rcases List.mem_cons.mp second with rfl | second
      · exact .inl rfl
      · exact .inr (decimal_isDigit second)
  rcases printable with rfl | rfl | digit
  · decide
  · decide
  · have other {d : Char} (hd : d.isDigit = false) : c ≠ d := by
      rintro rfl
      rw [hd] at digit
      cases digit
    simp [isSeparator, other (d := ' ') rfl, other (d := ',') rfl, other (d := '\t') rfl,
      other (d := '\x00') rfl]

theorem matchesTarget_append {target token : List Char} (rest : List Char)
    (fits : target.length < targetSize) (ends : ∀ c ∈ target, c ≠ '\x00') (nonempty : token ≠ []) :
    matchesTarget target (token ++ rest) token.length = some (decide (token = target)) := by
  -- a token of at least one character matches exactly when it is the target; the comparison fails
  -- before the cells behind the NUL would be read
  have positive : token.length > 0 := List.length_pos_iff.mpr nonempty
  simp only [matchesTarget, strncmpZero_iff, List.take_left]
  by_cases same : token = target
  · subst same
    rw [if_pos ⟨positive, fits, List.take_length⟩]
    simp [cell]
  · simp only [same, decide_false]
    split
    next found =>
      obtain ⟨-, -, agree⟩ := found
      have shorter : token.length ≤ target.length := by
        have length := congrArg List.length agree
        rw [List.length_take] at length
        omega
      have other : token.length ≠ target.length := by
        intro equal
        rw [equal, List.take_length] at agree
        exact same agree.symm
      have inside : token.length < target.length := by omega
      simp [cell, other, inside, ends _ (List.getElem_mem inside)]
    next => rfl

theorem scan_spec {target : List Char} (fits : target.length < targetSize)
    (ends : ∀ c ∈ target, c ≠ '\x00') (p : List Char) :
    ∃ found, scan target p = some found ∧ (found = true ↔ IsRun isSeparator p target) := by
  have tested {start : List Char} (nonempty : start.takeWhile (fun c => !isSeparator c) ≠ []) :
      matchesTarget target start (start.takeWhile fun c => !isSeparator c).length =
        some (decide (start.takeWhile (fun c => !isSeparator c) = target)) := by
    have whole := matchesTarget_append (start.dropWhile fun c => !isSeparator c) fits ends nonempty
    rwa [List.takeWhile_append_dropWhile] at whole
  fun_induction scan target p with
  | case1 p front =>
    refine ⟨false, rfl, ?_⟩
    rw [← isRun_dropWhile, front]
    simp [not_isRun_nil]
  | case2 p c rest front start len fails ih =>
    obtain ⟨found, later, runs⟩ := ih
    obtain ⟨nonempty, first⟩ := isRun_first target front
    rw [tested nonempty, Option.some_inj, decide_eq_false_iff_not] at fails
    refine ⟨found, later, ?_⟩
    rw [first, runs]
    exact (or_iff_right fun same => fails same.symm).symm
  | case3 p c rest front start len succeeds =>
    obtain ⟨nonempty, first⟩ := isRun_first target front
    rw [tested nonempty] at succeeds ⊢
    have same : (c :: rest).takeWhile (fun c => !isSeparator c) = target := by
      by_contra differs
      exact succeeds (congrArg some (decide_eq_false differs))
    exact ⟨_, rfl, by simp [first, same]⟩

/-- The skip list names a partition exactly when one of its entries is the text of
the partition, whatever else the string holds. -/
theorem partitionIsSkipped_iff (skipStr : Option CString) (devno partIndex : Int32) :
    ∃ skipped, partitionIsSkipped skipStr devno partIndex = some skipped ∧
      (skipped = true ↔
        ∃ text ∈ skipStr, IsRun isSeparator text.1 (entryText devno partIndex)) := by
  have fits : (entryText devno partIndex).length < targetSize :=
    lt_of_le_of_lt (entryText_length_le devno partIndex) (by decide)
  cases skipStr with
  | none => exact ⟨false, rfl, by simp⟩
  | some text =>
    obtain ⟨found, scanned, runs⟩ := scan_spec fits (fun c hc => (entryText_clear hc).2) text.1
    simp only [partitionIsSkipped, target_eq]
    by_cases blank : text.1 = []
    · exact ⟨false, by rw [if_pos blank], by simp [blank, not_isRun_nil]⟩
    · exact ⟨found, by rw [if_neg blank, scanned], by simp [runs]⟩

end Go2Cloud.SkipList
