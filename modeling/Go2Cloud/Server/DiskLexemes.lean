import Go2Cloud.Lib.JsonLexemes
import Go2Cloud.Server.DiskConfig

/-! Which receiver.json the search of main (server/main.c) reads as configured, said of the
strings of the file and the characters between them. The search takes names and values for
the same, and does not see where a section ends. -/
namespace Go2Cloud.DiskConfig
open CStrings Json BlockWriter

def digits (i : Fin maxTargetDisks) : List Char := Nat.toDigits 10 i.val

/-- From the first brace behind the first string `name` on. The brace may stand in a string. -/
def openName (name : List Char) (ls : List Lexeme) : Option (List Lexeme) :=
  (behindName name ls).bind (cutAt '{')

def disksFrom (ls : List Lexeme) : List Lexeme :=
  ((openName targetName ls).bind (openName disksName)).getD []

def skippedMark : Lexeme → Bool
  | .mark c => isSkipped c
  | _ => false

def upToString : List Lexeme → Option (List Char)
  | .mark c :: ls => (upToString ls).map (c :: ·)
  | .string _ :: _ => some []
  | _ => none

/-- What is taken for a path behind a colon: the next string, up to a quote in it. Where the
colon ends a string, it is what stands between that string and the next. -/
def valueAt (ls : List Lexeme) : Option (List Char) :=
  match ls.dropWhile skippedMark with
  | .string body :: _ => some (body.takeWhile (· != '"'))
  | .rest body :: ls => if body.all isSkipped then upToString ls else none
  | _ => none

def pathBehind (ls : List Lexeme) (i : Fin maxTargetDisks) : Option (List Char) :=
  (((behindName (digits i) ls).bind (cutAt ':')).bind valueAt).map (·.take (pathSize - 1))

def Counted (ls : List Lexeme) (i : Fin maxTargetDisks) : Prop :=
  ∀ j ≤ i, ∃ l ∈ ls, l.names (digits j) = true

/-- The numbers are there up to every configured one, and behind the first string of each
stands the path configured for it, or none if it is not configured. -/
structure Orderly (ls : List Lexeme) (disks : DiskTable) : Prop where
  counted : ∀ i, (disks i).isSome = true → Counted ls i
  read : ∀ i, Counted ls i → pathBehind ls i = disks i

theorem isWord_digits (i : Fin maxTargetDisks) : IsWord (digits i) := by
  revert i
  decide +kernel

theorem isWord_target : IsWord targetName := by decide
theorem isWord_disks : IsWord disksName := by decide

theorem jsonNav_spell {ls : List Lexeme} (h : Lexed ls) {name : List Char} (word : IsWord name)
    (short : name.length ≤ jsonMaxKey) : jsonNav (spell ls) name = (openName name ls).map spell := by
  simp only [jsonNav, take_quoted short, h.strstr word, openName]
  cases behindName name ls with
  | none => rfl
  | some back =>
    rw [Option.map_some, Option.bind_some, List.drop_left, strchr_spell (by decide),
      Option.bind_some]

theorem openName_lexed {ls found : List Lexeme} (h : Lexed ls) {name : List Char}
    (opened : openName name ls = some found) : Lexed found := by
  obtain ⟨back, behind, cut⟩ := Option.bind_eq_some_iff.mp opened
  exact (h.behindName behind).cutAt (by decide) cut

theorem findDisks_spell {ls : List Lexeme} (h : Lexed ls) :
    findDisks (spell ls) = ((openName targetName ls).bind (openName disksName)).map spell := by
  rw [findDisks, jsonNav_spell h isWord_target targetName_length_le]
  cases opened : openName targetName ls with
  | none => rfl
  | some found =>
    rw [Option.map_some, Option.bind_some, Option.bind_some,
      jsonNav_spell (openName_lexed h opened) isWord_disks disksName_length_le]

theorem disksFrom_lexed {ls : List Lexeme} (h : Lexed ls) : Lexed (disksFrom ls) := by
  unfold disksFrom
  cases found : (openName targetName ls).bind (openName disksName) with
  | none => exact ⟨by simp, trivial⟩
  | some inner =>
    obtain ⟨target, opened, opened'⟩ := Option.bind_eq_some_iff.mp found
    exact openName_lexed (openName_lexed h opened) opened'

theorem targetDisks_spell {ls : List Lexeme} (h : Lexed ls) :
    targetDisks (spell ls) =
      readDisks (spell (disksFrom ls)) (List.finRange maxTargetDisks) blockWriterInit := by
  unfold targetDisks disksFrom
  rw [findDisks_spell h]
  cases (openName targetName ls).bind (openName disksName) with
  | none =>
    refine funext fun i => ?_
    revert i
    decide +kernel
  | some found => rfl

theorem dropWhile_spell {ls : List Lexeme} {apart : Bool} (h : Spaced apart ls) :
    (spell ls).dropWhile isSkipped = spell (ls.dropWhile skippedMark) := by
  induction ls generalizing apart with
  | nil => rfl
  | cons l ls ih =>
    cases l with
    | rest body => cases h
    | string body => rfl
    | mark c =>
      rw [spell_cons, Lexeme.spell, List.singleton_append, List.dropWhile_cons, ih h]
      cases skipped : isSkipped c <;> simp [skippedMark, skipped, Lexeme.spell]

theorem copyPath_append {body : List Char} (clear : '"' ∉ body) (rest : List Char) :
    copyPath (body ++ '"' :: rest) = .register (body.take (pathSize - 1)) :=
  copyPath_eq_register_iff.mpr ⟨body, rest, rfl, clear, rfl⟩

theorem copyPath_string (body rest : List Char) :
    copyPath (body ++ '"' :: rest) =
      .register ((body.takeWhile (· != '"')).take (pathSize - 1)) := by
  have clear : '"' ∉ body.takeWhile (· != '"') := fun member => by
    simpa using List.mem_takeWhile_imp member
  have split : ∃ tail, body ++ '"' :: rest = body.takeWhile (· != '"') ++ '"' :: tail := by
    by_cases inside : '"' ∈ body
    · obtain ⟨front, back, whole, -, dropped⟩ := dropWhile_of_mem inside
      refine ⟨back ++ '"' :: rest, ?_⟩
      rw [← List.cons_append, ← dropped, ← List.append_assoc, List.takeWhile_append_dropWhile]
    · refine ⟨rest, ?_⟩
      rw [List.takeWhile_eq_self_iff.mpr]
      intro c member
      simp only [bne_iff_ne, ne_eq]
      rintro rfl
      exact inside member
  obtain ⟨tail, whole⟩ := split
  rw [whole, copyPath_append clear]

theorem copyPath_spell {ls : List Lexeme} {apart : Bool} (formed : ∀ l ∈ ls, l.Formed)
    (spaced : Spaced apart ls) :
    copyPath (spell ls) =
      match upToString ls with
      | none => .next
      | some body => .register (body.take (pathSize - 1)) := by
  have split : (upToString ls = none → '"' ∉ spell ls) ∧ ∀ body, upToString ls = some body →
      '"' ∉ body ∧ ∃ rest, spell ls = body ++ '"' :: rest := by
    induction ls generalizing apart with
    | nil => simp [upToString]
    | cons l ls ih =>
      obtain ⟨here, later⟩ := List.forall_mem_cons.mp formed
      cases l with
      | rest body => cases spaced
      | string body => simp [upToString, Lexeme.spell, quoted]
      | mark c =>
        obtain ⟨none_left, found⟩ := ih later spaced
        have printed : '"' ≠ c := Ne.symm here
        constructor
        · intro missing
          simp only [upToString, Option.map_eq_none_iff] at missing
          simp [Lexeme.spell, printed, none_left missing]
        · intro body whole
          obtain ⟨inner, up, rfl⟩ := Option.map_eq_some_iff.mp whole
          obtain ⟨clear, rest, spelled⟩ := found inner up
          exact ⟨by simp [printed, clear], rest, by simp [Lexeme.spell, spelled]⟩
  cases up : upToString ls with
  | none =>
    have missing : strchr (spell ls) '"' = none := by
      have skipped := strchr_skip (split.1 up) []
      rw [List.append_nil] at skipped
      exact skipped
    rw [copyPath, missing]
  | some body =>
    obtain ⟨clear, rest, spelled⟩ := split.2 body up
    rw [spelled, copyPath_append clear]

theorem dropWhile_rest {body : List Char} (guarded : Guarded body) (text : List Char) :
    (body.all isSkipped = true ∧ (body ++ '"' :: text).dropWhile isSkipped = '"' :: text) ∨
    (body.all isSkipped = false ∧
      ∀ p, (body ++ '"' :: text).dropWhile isSkipped ≠ '"' :: p) := by
  cases skipped : body.all isSkipped with
  | true =>
    refine .inl ⟨rfl, ?_⟩
    rw [List.dropWhile_append_of_pos (by simpa using skipped),
      List.dropWhile_cons_of_neg (by decide)]
  | false =>
    refine .inr ⟨rfl, fun p same => ?_⟩
    have stops : body.dropWhile isSkipped ≠ [] := by
      intro all
      rw [List.dropWhile_eq_nil_iff] at all
      rw [List.all_eq_true.mpr all] at skipped
      cases skipped
    obtain ⟨c, back, dropped⟩ := List.exists_cons_of_ne_nil stops
    rw [List.dropWhile_append, dropped] at same
    obtain ⟨rfl, -⟩ := List.cons.inj same
    -- the quote would stand behind a backslash, which is not skipped
    have escape := guarded (body.takeWhile isSkipped) back (by
      rw [← dropped, List.takeWhile_append_dropWhile])
    exact absurd (List.mem_takeWhile_imp (List.mem_of_getLast? escape)) (by decide)

def copyQuoted : List Char → Pass
  | '"' :: p => copyPath p
  | _ => .next

theorem copyQuoted_other {t : List Char} (other : ∀ p, t ≠ '"' :: p) : copyQuoted t = .next := by
  unfold copyQuoted
  split
  next p => exact absurd rfl (other p)
  next => rfl

theorem copyQuoted_outside {ls : List Lexeme} {apart : Bool} (formed : ∀ l ∈ ls, l.Formed)
    (spaced : Spaced apart ls) :
    copyQuoted ((spell ls).dropWhile isSkipped) =
      ((valueAt ls).map (·.take (pathSize - 1))).elim .next .register := by
  rw [dropWhile_spell spaced]
  unfold valueAt
  cases dropped : ls.dropWhile skippedMark with
  | nil => rfl
  | cons l back =>
    have member : l ∈ ls := (List.dropWhile_suffix _).subset (dropped ▸ List.mem_cons_self)
    cases l with
    | rest body => exact absurd member spaced.no_rest
    | string body =>
      have copied := copyPath_string body (spell back)
      simpa [Lexeme.spell, quoted, copyQuoted] using copied
    | mark c =>
      have printed : c ≠ '"' := formed _ member
      exact copyQuoted_other fun p same => printed (List.cons.inj same).1

theorem copyQuoted_valueAt {ls : List Lexeme} (h : Lexed ls) :
    copyQuoted ((spell ls).dropWhile isSkipped) =
      ((valueAt ls).map (·.take (pathSize - 1))).elim .next .register := by
  cases ls with
  | nil => rfl
  | cons l ls =>
    cases l with
    | mark c => exact copyQuoted_outside h.formed h.spaced
    | string body => exact copyQuoted_outside h.formed h.spaced
    | rest body =>
      obtain ⟨guarded, formed⟩ := List.forall_mem_cons.mp h.formed
      have first : (Lexeme.rest body :: ls).dropWhile skippedMark = .rest body :: ls := rfl
      rw [spell_cons, Lexeme.spell, List.append_assoc, List.singleton_append]
      simp only [valueAt, first]
      rcases dropWhile_rest guarded (spell ls) with ⟨all, dropped⟩ | ⟨some_other, stops⟩
      · simp only [dropped, all, if_true, copyQuoted, copyPath_spell formed h.spaced]
        cases upToString ls <;> rfl
      · rw [copyQuoted_other stops]
        simp [some_other]

theorem readDisk_spell {ls : List Lexeme} (h : Lexed ls) (i : Fin maxTargetDisks) :
    readDisk (spell ls) i =
      if (behindName (digits i) ls).isSome then (pathBehind ls i).elim .next .register
      else .stop := by
  have search : strstr (spell ls) (number i) =
      (behindName (digits i) ls).map fun back => number i ++ spell back :=
    h.strstr (isWord_digits i)
  unfold readDisk pathBehind
  rw [key_eq, search]
  cases found : behindName (digits i) ls with
  | none => rfl
  | some back =>
    have colon : strchr (spell back) ':' = (cutAt ':' back).map spell := strchr_spell (by decide) back
    simp only [Option.map_some, List.drop_left, colon, Option.bind_some, Option.isSome_some, if_true]
    cases cut : cutAt ':' back with
    | none => rfl
    | some at_colon =>
      simp only [Option.map_some, Option.bind_some]
      exact copyQuoted_valueAt ((h.behindName found).cutAt (by decide) cut)

theorem isSome_behindName_iff {w : List Char} {ls : List Lexeme} :
    (behindName w ls).isSome = true ↔ ∃ l ∈ ls, l.names w = true := by
  rw [← not_iff_not, Bool.not_eq_true, Option.isSome_eq_false_iff, Option.isNone_iff_eq_none,
    behindName_eq_none_iff]
  simp

/-- The disks read from the text of lexemes. -/
theorem targetDisks_eq_iff {ls : List Lexeme} (h : Lexed ls) {disks : DiskTable} :
    targetDisks (spell ls) = disks ↔ Orderly (disksFrom ls) disks := by
  have inner := disksFrom_lexed h
  rw [targetDisks_spell h]
  generalize disksFrom ls = section_lexemes at inner
  have quoted_iff (i : Fin maxTargetDisks) :
      (∀ j ≤ i, number j <:+: spell section_lexemes) ↔ Counted section_lexemes i :=
    forall₂_congr fun j _ => inner.isInfix_iff (isWord_digits j)
  have leads_iff (i : Fin maxTargetDisks) (path : List Char) (counted : Counted section_lexemes i) :
      Leads (spell section_lexemes) i path ↔ pathBehind section_lexemes i = some path := by
    rw [← readDisk_eq_register_iff, readDisk_spell inner,
      if_pos (isSome_behindName_iff.mpr (counted i le_rfl))]
    cases pathBehind section_lexemes i <;> simp
  have read_iff (i : Fin maxTargetDisks) (path : List Char) :
      readDisks (spell section_lexemes) (List.finRange maxTargetDisks) blockWriterInit i =
        some path ↔ Counted section_lexemes i ∧ pathBehind section_lexemes i = some path := by
    rw [readDisks_eq_some_iff, quoted_iff]
    exact and_congr_right fun counted => leads_iff i path counted
  constructor
  · rintro rfl
    refine ⟨fun i some_path => ?_, fun i counted => Option.ext fun path => ?_⟩
    · obtain ⟨path, found⟩ := Option.isSome_iff_exists.mp some_path
      exact ((read_iff i path).mp found).1
    · rw [read_iff]
      exact (and_iff_right counted).symm
  · intro orderly
    refine funext fun i => Option.ext fun path => ?_
    rw [read_iff]
    constructor
    · rintro ⟨counted, found⟩
      rw [← orderly.read i counted, found]
    · intro configured
      have counted := orderly.counted i (by simp [configured])
      exact ⟨counted, (orderly.read i counted).trans configured⟩

end Go2Cloud.DiskConfig
