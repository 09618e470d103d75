import Go2Cloud.Lib.CStrings
import Go2Cloud.Lib.Json

/-! The lexemes of a JSON text, as far as a search for quoted words needs them: the strings,
and every character outside them. In a JSON text a quoted word can only stand where a string
has that spelling, or ends in it behind an escaped quote. -/
namespace Go2Cloud.Json
open CStrings

/-- `rest` is what is left of a string from some character of it on. -/
inductive Lexeme where
  | string (body : List Char)
  | rest (body : List Char)
  | mark (c : Char)
  deriving DecidableEq, Repr

def Lexeme.spell : Lexeme → List Char
  | .string body => quoted body
  | .rest body => body ++ ['"']
  | .mark c => [c]

def spell (ls : List Lexeme) : List Char := ls.flatMap Lexeme.spell

abbrev Inside := Option (List Char × Bool)

def scan : Inside → List Char → List Lexeme
  | _, [] => []
  | none, c :: t => if c = '"' then scan (some ([], false)) t else .mark c :: scan none t
  | some (body, true), c :: t => scan (some (body ++ [c], false)) t
  | some (body, false), c :: t =>
    if c = '"' then .string body :: scan none t
    else scan (some (body ++ [c], c == '\\')) t

def lexemes (text : List Char) : List Lexeme := scan none text

def Guarded (body : List Char) : Prop :=
  ∀ front back, body = front ++ '"' :: back → front.getLast? = some '\\'

def Lexeme.Formed : Lexeme → Prop
  | .string body => Guarded body
  | .rest body => Guarded body
  | .mark c => c ≠ '"'

/-- The strings are whole and there is a colon or a comma between two of them; `apart` says that
there was one since the last string. -/
def Spaced : Bool → List Lexeme → Prop
  | _, [] => True
  | apart, .mark c :: ls => Spaced (apart || c == ':' || c == ',') ls
  | apart, .string _ :: ls => apart = true ∧ Spaced false ls
  | _, .rest _ :: _ => False

def SpacedFrom : List Lexeme → Prop
  | .rest _ :: ls => Spaced false ls
  | ls => Spaced true ls

structure Lexed (ls : List Lexeme) : Prop where
  formed : ∀ l ∈ ls, l.Formed
  spaced : SpacedFrom ls

@[simp] theorem spell_nil : spell [] = [] := rfl

@[simp] theorem spell_cons (l : Lexeme) (ls : List Lexeme) : spell (l :: ls) = l.spell ++ spell ls :=
  List.flatMap_cons

@[simp] theorem spell_append (ls ls' : List Lexeme) : spell (ls ++ ls') = spell ls ++ spell ls' :=
  List.flatMap_append

theorem guarded_nil : Guarded [] := by
  intro front back h
  simp at h

theorem Guarded.cons {c : Char} {body : List Char} (h : Guarded body) (printed : c ≠ '"') :
    Guarded (c :: body) := by
  intro front back split
  cases front with
  | nil => exact absurd (List.cons.inj split).1 printed
  | cons d front =>
    have inner := h front back (List.cons.inj split).2
    rw [List.getLast?_cons, inner]
    rfl

theorem Guarded.escape {e : Char} {body : List Char} (h : Guarded body) :
    Guarded ('\\' :: e :: body) := by
  intro front back split
  match front, split with
  | [], split => exact absurd (List.cons.inj split).1 (by decide)
  | [d], split =>
    cases (List.cons.inj split).1
    rfl
  | d :: d' :: front, split =>
    have inner := h front back (List.cons.inj (List.cons.inj split).2).2
    rw [List.getLast?_cons_cons, List.getLast?_cons, inner]
    rfl

theorem Guarded.suffix {front back : List Char} (h : Guarded (front ++ back))
    (printed : back.head? ≠ some '"') : Guarded back := by
  intro inner tail split
  have whole := h (front ++ inner) tail (by rw [split, List.append_assoc])
  cases inner with
  | nil =>
    rw [split] at printed
    exact absurd rfl printed
  | cons d inner =>
    rw [List.getLast?_append_of_ne_nil _ (List.cons_ne_nil d inner)] at whole
    exact whole

theorem hexDigit_ne_quote {c : Char} (h : (hexDigit c).isSome) : c ≠ '"' := by
  rintro rfl
  exact absurd h (by decide)

theorem hexDigit_ne_escape {c : Char} (h : (hexDigit c).isSome) : c ≠ '\\' := by
  rintro rfl
  exact absurd h (by decide)

theorem guarded_of_decode (body : List Char) (h : (decode body).isSome) : Guarded body := by
  fun_induction decode body with
  | case1 => exact guarded_nil
  | case2 a b c d rest ih =>
    obtain ⟨code, tail⟩ := isSome_of_map₂ h
    obtain ⟨high, low⟩ := isSome_of_map₂ code
    obtain ⟨ha, hb⟩ := isSome_of_map₂ high
    obtain ⟨hc, hd⟩ := isSome_of_map₂ low
    have digits := (((ih tail).cons (hexDigit_ne_quote hd)).cons (hexDigit_ne_quote hc)).cons
      (hexDigit_ne_quote hb)
    exact (digits.cons (hexDigit_ne_quote ha)).escape
  | case3 e rest _ ih => exact (ih (isSome_of_map₂ h).2).escape
  | case4 => cases h
  | case5 c rest _ _ plain ih =>
    rw [Option.isSome_map] at h
    exact (ih h).cons fun quote => plain (.inl quote)

theorem scan_plain {c : Char} (quote : c ≠ '"') (escape : c ≠ '\\') (before text : List Char) :
    scan (some (before, false)) (c :: text) = scan (some (before ++ [c], false)) text := by
  rw [scan, if_neg quote, beq_false_of_ne escape]

theorem scan_hex {c : Char} (h : (hexDigit c).isSome) (before text : List Char) :
    scan (some (before, false)) (c :: text) = scan (some (before ++ [c], false)) text :=
  scan_plain (hexDigit_ne_quote h) (hexDigit_ne_escape h) before text

theorem scan_escape (e : Char) (before text : List Char) :
    scan (some (before, false)) ('\\' :: e :: text) = scan (some (before ++ ['\\', e], false)) text := by
  simp [scan]

theorem scan_decoded (body : List Char) (h : (decode body).isSome) (before text : List Char) :
    scan (some (before, false)) (body ++ '"' :: text) = .string (before ++ body) :: scan none text := by
  fun_induction decode body generalizing before with
  | case1 => simp [scan]
  | case2 a b c d rest ih =>
    obtain ⟨code, tail⟩ := isSome_of_map₂ h
    obtain ⟨high, low⟩ := isSome_of_map₂ code
    obtain ⟨ha, hb⟩ := isSome_of_map₂ high
    obtain ⟨hc, hd⟩ := isSome_of_map₂ low
    simp only [List.cons_append]
    rw [scan_escape, scan_hex ha, scan_hex hb, scan_hex hc, scan_hex hd, ih tail]
    simp
  | case3 e rest _ ih =>
    simp only [List.cons_append]
    rw [scan_escape, ih (isSome_of_map₂ h).2]
    simp
  | case4 => cases h
  | case5 c rest _ _ plain ih =>
    rw [Option.isSome_map] at h
    rw [List.cons_append, scan_plain (fun quote => plain (.inl quote))
      (fun escape => plain (.inr (.inl escape))), ih h]
    simp

structure LexesTo (text : List Char) (ls : List Lexeme) : Prop where
  scan_eq : ∀ after, lexemes (text ++ after) = ls ++ lexemes after
  spell_eq : spell ls = text
  formed : ∀ l ∈ ls, l.Formed
  spaced : Spaced true ls

theorem Spaced.mono {ls : List Lexeme} {apart : Bool} (h : Spaced apart ls) : Spaced true ls := by
  induction ls generalizing apart with
  | nil => trivial
  | cons l ls ih =>
    cases l with
    | mark c => exact ih h
    | string body => exact ⟨rfl, h.2⟩
    | rest body => cases h

theorem Spaced.no_rest {ls : List Lexeme} {apart : Bool} (h : Spaced apart ls) {body : List Char} :
    .rest body ∉ ls := by
  induction ls generalizing apart with
  | nil => simp
  | cons l ls ih =>
    cases l with
    | mark c => simpa using ih h
    | string b => simpa using ih h.2
    | rest b => cases h

theorem Spaced.spacedFrom {ls : List Lexeme} (h : Spaced true ls) : SpacedFrom ls := by
  cases ls with
  | nil => trivial
  | cons l ls =>
    cases l with
    | mark c => exact h
    | string body => exact h
    | rest body => cases h

theorem Spaced.append_mark {ls ls' : List Lexeme} {apart : Bool} (h : Spaced apart ls)
    (h' : Spaced true ls') {c : Char} (separates : c = ':' ∨ c = ',') :
    Spaced apart (ls ++ .mark c :: ls') := by
  induction ls generalizing apart with
  | nil =>
    rcases separates with rfl | rfl <;> simpa [Spaced] using h'
  | cons l ls ih =>
    cases l with
    | mark d => exact ih h
    | string body => exact ⟨h.1, ih h.2⟩
    | rest body => cases h

def marks (text : List Char) : List Lexeme := text.map .mark

theorem Spaced.append_marks {ls : List Lexeme} {apart : Bool} (h : Spaced apart ls)
    (text : List Char) : Spaced apart (ls ++ marks text) := by
  induction ls generalizing apart with
  | nil =>
    induction text generalizing apart with
    | nil => trivial
    | cons c text ih => exact ih h
  | cons l ls ih =>
    cases l with
    | mark d => exact ih h
    | string body => exact ⟨h.1, ih h.2⟩
    | rest body => cases h

theorem Spaced.marks_append {ls : List Lexeme} (h : Spaced true ls) (text : List Char) :
    Spaced true (marks text ++ ls) := by
  induction text with
  | nil => exact h
  | cons c text ih => exact ih

theorem spell_marks (text : List Char) : spell (marks text) = text := by
  induction text with
  | nil => rfl
  | cons c text ih => simpa [marks, Lexeme.spell] using ih

theorem lexesTo_marks {text : List Char} (h : '"' ∉ text) : LexesTo text (marks text) where
  scan_eq after := by
    induction text with
    | nil => rfl
    | cons c text ih =>
      simp only [List.mem_cons, not_or] at h
      rw [List.cons_append, lexemes, scan, if_neg (Ne.symm h.1)]
      exact congrArg _ (ih h.2)
  spell_eq := spell_marks text
  formed := by
    intro l member
    obtain ⟨c, inside, rfl⟩ := List.mem_map.mp member
    exact fun quote => h (quote ▸ inside)
  spaced := by
    have start : Spaced true [] := trivial
    exact start.append_marks text

theorem lexesTo_string {body : List Char} (h : (decode body).isSome) :
    LexesTo (quoted body) [.string body] where
  scan_eq after := by
    have scanned := scan_decoded body h [] after
    simpa [lexemes, quoted, scan] using scanned
  spell_eq := by simp [Lexeme.spell]
  formed := by simp [Lexeme.Formed, guarded_of_decode body h]
  spaced := ⟨rfl, trivial⟩

theorem LexesTo.append_marks {text text' : List Char} {ls : List Lexeme} (h : LexesTo text ls)
    (outside : '"' ∉ text') : LexesTo (text ++ text') (ls ++ marks text') where
  scan_eq after := by
    rw [List.append_assoc, h.scan_eq, (lexesTo_marks outside).scan_eq, List.append_assoc]
  spell_eq := by rw [spell_append, h.spell_eq, spell_marks]
  formed := List.forall_mem_append.mpr ⟨h.formed, (lexesTo_marks outside).formed⟩
  spaced := h.spaced.append_marks text'

theorem LexesTo.marks_append {text text' : List Char} {ls : List Lexeme} (h : LexesTo text ls)
    (outside : '"' ∉ text') : LexesTo (text' ++ text) (marks text' ++ ls) where
  scan_eq after := by
    rw [List.append_assoc, (lexesTo_marks outside).scan_eq, h.scan_eq, List.append_assoc]
  spell_eq := by rw [spell_append, h.spell_eq, spell_marks]
  formed := List.forall_mem_append.mpr ⟨(lexesTo_marks outside).formed, h.formed⟩
  spaced := h.spaced.marks_append text'

theorem LexesTo.append_mark {text text' : List Char} {ls ls' : List Lexeme} (h : LexesTo text ls)
    (h' : LexesTo text' ls') {c : Char} (separates : c = ':' ∨ c = ',') :
    LexesTo (text ++ c :: text') (ls ++ .mark c :: ls') where
  scan_eq after := by
    have outside : '"' ∉ [c] := by rcases separates with rfl | rfl <;> decide
    have rest := (h'.marks_append outside).scan_eq after
    rw [List.append_assoc, h.scan_eq, List.append_assoc]
    exact congrArg (ls ++ ·) rest
  spell_eq := by rw [spell_append, spell_cons, h.spell_eq, h'.spell_eq]; rfl
  formed := by
    have printed : c ≠ '"' := by rcases separates with rfl | rfl <;> decide
    exact List.forall_mem_append.mpr ⟨h.formed, List.forall_mem_cons.mpr ⟨printed, h'.formed⟩⟩
  spaced := h.spaced.append_mark h'.spaced separates

theorem Renders.lexesTo {phrase : Phrase} {text : List Char} (h : Renders phrase text) :
    ∃ ls, LexesTo text ls := by
  have no_quote {w : List Char} (blank : Blank w) : '"' ∉ w := not_mem_of_blank blank (by decide)
  induction h with
  | null => exact ⟨_, lexesTo_marks (by decide)⟩
  | true => exact ⟨_, lexesTo_marks (by decide)⟩
  | false => exact ⟨_, lexesTo_marks (by decide)⟩
  | number digits => exact ⟨_, lexesTo_marks (digits.not_mem (by decide) (by decide))⟩
  | string body => exact ⟨_, lexesTo_string body⟩
  | emptyArray blank => exact ⟨_, lexesTo_marks (by simp [no_quote blank])⟩
  | emptyObject blank => exact ⟨_, lexesTo_marks (by simp [no_quote blank])⟩
  | array _ ih =>
    obtain ⟨ls, inner⟩ := ih
    have opens : '"' ∉ ['['] := by decide
    have closes : '"' ∉ [']'] := by decide
    exact ⟨_, (inner.append_marks closes).marks_append opens⟩
  | object _ ih =>
    obtain ⟨ls, inner⟩ := ih
    have opens : '"' ∉ ['{'] := by decide
    have closes : '"' ∉ ['}'] := by decide
    exact ⟨_, (inner.append_marks closes).marks_append opens⟩
  | element before _ after ih =>
    obtain ⟨ls, inner⟩ := ih
    exact ⟨_, (inner.append_marks (no_quote after)).marks_append (no_quote before)⟩
  | lastElement _ ih => exact ih
  | elements _ _ first rest =>
    obtain ⟨ls, first⟩ := first
    obtain ⟨ls', rest⟩ := rest
    exact ⟨_, first.append_mark rest (.inr rfl)⟩
  | @member k v w w' t before name after _ ih =>
    obtain ⟨ls, value⟩ := ih
    have whole := (((lexesTo_string name).append_marks (no_quote after)).append_mark value
      (.inl rfl)).marks_append (no_quote before)
    rw [List.append_assoc (quoted k)] at whole
    exact ⟨_, whole⟩
  | lastMember _ ih => exact ih
  | members _ _ first rest =>
    obtain ⟨ls, first⟩ := first
    obtain ⟨ls', rest⟩ := rest
    exact ⟨_, first.append_mark rest (.inr rfl)⟩

/-- The lexemes of a JSON text spell it. -/
theorem Renders.spell_lexemes {phrase : Phrase} {text : List Char} (h : Renders phrase text) :
    spell (lexemes text) = text ∧ Lexed (lexemes text) := by
  obtain ⟨ls, lexes⟩ := h.lexesTo
  have same : lexemes text = ls := by
    have scanned := lexes.scan_eq []
    simpa [lexemes, scan] using scanned
  rw [same]
  exact ⟨lexes.spell_eq, lexes.formed, lexes.spaced.spacedFrom⟩

def IsWord (w : List Char) : Prop := ∀ c ∈ w, c ≠ '"' ∧ c ≠ '\\' ∧ c ≠ ':' ∧ c ≠ ','

instance (w : List Char) : Decidable (IsWord w) :=
  List.decidableBAll (fun c => c ≠ '"' ∧ c ≠ '\\' ∧ c ≠ ':' ∧ c ≠ ',') w

def Lexeme.names (w : List Char) : Lexeme → Bool
  | .string body => body = w || ('\\' :: '"' :: w).isSuffixOf body
  | .rest body => ('\\' :: '"' :: w).isSuffixOf body
  | .mark _ => false

def behindName (w : List Char) : List Lexeme → Option (List Lexeme)
  | [] => none
  | l :: ls => if l.names w then some ls else behindName w ls

section
variable {w : List Char}

theorem IsWord.not_quote (word : IsWord w) : '"' ∉ w := fun member => (word _ member).1 rfl

theorem IsWord.not_escape (word : IsWord w) : '\\' ∉ w := fun member => (word _ member).2.1 rfl

theorem Guarded.eq_word {body after text : List Char} (h : Guarded body) (word : IsWord w)
    (same : w ++ '"' :: after = body ++ '"' :: text) : w = body ∧ after = text := by
  rcases List.append_eq_append_iff.mp same with ⟨c, rfl, ends⟩ | ⟨c, rfl, ends⟩
  · cases c with
    | nil => exact ⟨by simp, (List.cons.inj ends).2⟩
    | cons d c =>
      -- the first quote of the string would close it
      obtain rfl : '"' = d := (List.cons.inj ends).1
      have escape := h w c rfl
      exact absurd (List.mem_of_getLast? escape) word.not_escape
  · cases c with
    | nil => exact ⟨by simp, (List.cons.inj ends).2.symm⟩
    | cons d c =>
      obtain rfl : '"' = d := (List.cons.inj ends).1
      exact absurd (by simp) word.not_quote

theorem Spaced.no_word {ls : List Lexeme} (formed : ∀ l ∈ ls, l.Formed) (h : Spaced false ls)
    (word : IsWord w) {after : List Char} : spell ls ≠ w ++ '"' :: after := by
  induction ls generalizing w with
  | nil => simp
  | cons l ls ih =>
    cases l with
    | string body => cases h.1
    | rest body => cases h
    | mark c =>
      have printed : c ≠ '"' := formed _ List.mem_cons_self
      intro same
      rw [spell_cons, Lexeme.spell, List.singleton_append] at same
      cases w with
      | nil => exact printed (List.cons.inj same).1
      | cons d w =>
        obtain ⟨rfl, tail⟩ := List.cons.inj same
        obtain ⟨plain, word⟩ := List.forall_mem_cons.mp word
        have apart : (false || c == ':' || c == ',') = false := by simp [plain]
        simp only [Spaced, apart] at h
        exact ih (fun l member => formed l (List.mem_cons_of_mem _ member)) h word tail

theorem Guarded.occurrence {body before after : List Char} {ls : List Lexeme} (h : Guarded body)
    (formed : ∀ l ∈ ls, l.Formed) (spaced : Spaced false ls) (word : IsWord w)
    (same : body ++ '"' :: spell ls = before ++ (quoted w ++ after)) :
    ('\\' :: '"' :: w) <:+ body ∧ after = spell ls ∨
      ∃ before', spell ls = before' ++ (quoted w ++ after) := by
  have regroup : quoted w ++ after = '"' :: (w ++ '"' :: after) := by simp [quoted]
  rw [regroup] at same ⊢
  rcases List.append_eq_append_iff.mp same with ⟨c, rfl, ends⟩ | ⟨c, rfl, ends⟩
  · cases c with
    | nil => exact absurd (List.cons.inj ends).2 (spaced.no_word formed word)
    | cons d c => exact .inr ⟨c, (List.cons.inj ends).2⟩
  · cases c with
    | nil => exact absurd (List.cons.inj ends).2.symm (spaced.no_word formed word)
    | cons d c =>
      obtain ⟨rfl, tail⟩ := List.cons.inj ends
      have inner : Guarded c := by
        have whole : Guarded ((before ++ ['"']) ++ c) := by simpa using h
        refine whole.suffix fun quote => ?_
        obtain ⟨back, rfl⟩ : ∃ back, c = '"' :: back := List.head?_eq_some_iff.mp quote
        have escape := h (before ++ ['"']) back (by simp)
        simp at escape
      obtain ⟨front, rfl⟩ := List.getLast?_eq_some_iff.mp (h before c rfl)
      obtain ⟨rfl, rfl⟩ := inner.eq_word word tail
      exact .inl ⟨⟨front, by simp⟩, rfl⟩

theorem Lexed.tail {l : Lexeme} {ls : List Lexeme} (h : Lexed (l :: ls)) : Lexed ls where
  formed := (List.forall_mem_cons.mp h.formed).2
  spaced := by
    have spaced := h.spaced
    cases l with
    | mark c =>
      have inner : Spaced true ls := spaced
      exact inner.spacedFrom
    | string body => exact spaced.2.mono.spacedFrom
    | rest body =>
      have inner : Spaced false ls := spaced
      exact inner.mono.spacedFrom

theorem Lexed.occurrence {ls : List Lexeme} (h : Lexed ls) (word : IsWord w)
    {before after : List Char} (same : spell ls = before ++ (quoted w ++ after)) :
    ∃ front l back, ls = front ++ l :: back ∧ l.names w = true ∧ after = spell back := by
  induction ls generalizing before with
  | nil => simp [quoted] at same
  | cons l ls ih =>
    have later {before : List Char} (same : spell ls = before ++ (quoted w ++ after)) :
        ∃ front l' back, l :: ls = front ++ l' :: back ∧ l'.names w = true ∧ after = spell back := by
      obtain ⟨front, l', back, rfl, named, ends⟩ := ih h.tail same
      exact ⟨l :: front, l', back, rfl, named, ends⟩
    obtain ⟨here, formed⟩ := List.forall_mem_cons.mp h.formed
    rw [spell_cons] at same
    cases l with
    | mark c =>
      cases before with
      | nil => exact absurd (List.cons.inj same).1 here
      | cons d before => exact later (List.cons.inj same).2
    | rest body =>
      simp only [Lexeme.spell, List.append_assoc, List.singleton_append] at same
      rcases Guarded.occurrence here formed h.spaced word same with ⟨ends, rfl⟩ | ⟨before', same⟩
      · exact ⟨[], _, ls, rfl, by simpa [Lexeme.names] using ends, rfl⟩
      · exact later same
    | string body =>
      simp only [Lexeme.spell, quoted, List.cons_append, List.append_assoc, List.nil_append] at same
      cases before with
      | nil =>
        simp only [List.nil_append, List.cons.injEq, true_and] at same
        obtain ⟨rfl, rfl⟩ := Guarded.eq_word here word same.symm
        exact ⟨[], _, ls, rfl, by simp [Lexeme.names], rfl⟩
      | cons d before =>
        obtain ⟨rfl, same⟩ := List.cons.inj same
        have same : body ++ '"' :: spell ls = before ++ (quoted w ++ after) := by
          simpa [quoted] using same
        rcases Guarded.occurrence here formed h.spaced.2 word same with ⟨ends, rfl⟩ | ⟨before', same⟩
        · exact ⟨[], _, ls, rfl, by simp [Lexeme.names, ends], rfl⟩
        · exact later same

theorem Lexeme.names_spell {l : Lexeme} (h : l.names w = true) :
    ∃ front, l.spell = front ++ quoted w := by
  cases l with
  | mark c => cases h
  | rest body =>
    obtain ⟨front, rfl⟩ := List.isSuffixOf_iff_suffix.mp h
    exact ⟨front ++ ['\\'], by simp [Lexeme.spell, quoted]⟩
  | string body =>
    rcases Bool.or_eq_true_iff.mp h with whole | ends
    · obtain rfl := of_decide_eq_true whole
      exact ⟨[], rfl⟩
    · obtain ⟨front, rfl⟩ := List.isSuffixOf_iff_suffix.mp ends
      exact ⟨'"' :: (front ++ ['\\']), by simp [Lexeme.spell, quoted]⟩

theorem behindName_eq_none_iff {ls : List Lexeme} :
    behindName w ls = none ↔ ∀ l ∈ ls, l.names w = false := by
  induction ls with
  | nil => simp [behindName]
  | cons l ls ih => cases named : l.names w <;> simp [behindName, named, ih]

theorem behindName_split {ls back : List Lexeme} (h : behindName w ls = some back) :
    ∃ front l, ls = front ++ l :: back ∧ l.names w = true ∧ ∀ l' ∈ front, l'.names w = false := by
  induction ls with
  | nil => cases h
  | cons l ls ih =>
    rw [behindName] at h
    split at h
    next named =>
      cases h
      exact ⟨[], l, rfl, named, by simp⟩
    next unnamed =>
      obtain ⟨front, l', rfl, named, clear⟩ := ih h
      exact ⟨l :: front, l', rfl, named, by simpa [unnamed] using clear⟩

theorem Lexed.isInfix_iff {ls : List Lexeme} (h : Lexed ls) (word : IsWord w) :
    quoted w <:+: spell ls ↔ ∃ l ∈ ls, l.names w = true := by
  constructor
  · rintro ⟨before, after, whole⟩
    obtain ⟨front, l, back, rfl, named, -⟩ := h.occurrence word
      (by rw [← whole, List.append_assoc])
    exact ⟨l, by simp, named⟩
  · rintro ⟨l, member, named⟩
    obtain ⟨front, back, rfl⟩ := List.append_of_mem member
    obtain ⟨inner, spelled⟩ := Lexeme.names_spell named
    exact ⟨spell front ++ inner, spell back, by simp [spelled]⟩

/-- Behind the first quoted word is the text of the lexemes behind the first that holds it. -/
theorem Lexed.behind {ls back : List Lexeme} (h : Lexed ls) (word : IsWord w)
    (found : behindName w ls = some back) : Behind (spell ls) (quoted w) (spell back) := by
  obtain ⟨front, l, rfl, named, clear⟩ := behindName_split found
  obtain ⟨inner, spelled⟩ := Lexeme.names_spell named
  refine ⟨spell front ++ inner, by simp [spelled], fun other after whole => ?_⟩
  obtain ⟨front', l', back', split, named', rfl⟩ := h.occurrence word whole
  -- no lexeme of `front` holds the word, so the other one is not before it
  have later : (spell back').length ≤ (spell back).length := by
    rcases List.append_eq_append_iff.mp split with ⟨c, rfl, ends⟩ | ⟨c, rfl, ends⟩
    · cases c with
      | nil =>
        obtain ⟨-, rfl⟩ := List.cons.inj ends
        exact le_rfl
      | cons d c =>
        rw [List.cons_append] at ends
        obtain ⟨-, rfl⟩ := List.cons.inj ends
        simp only [spell_append, spell_cons, List.length_append]
        omega
    · cases c with
      | nil =>
        obtain ⟨-, rfl⟩ := List.cons.inj ends
        exact le_rfl
      | cons d c =>
        obtain ⟨rfl, -⟩ := List.cons.inj ends
        rw [clear l' (by simp)] at named'
        cases named'
  have lengths := congrArg List.length whole
  simp only [spell_append, spell_cons, spelled, List.length_append] at lengths ⊢
  omega

theorem Lexed.strstr {ls : List Lexeme} (h : Lexed ls) (word : IsWord w) :
    strstr (spell ls) (quoted w) = (behindName w ls).map fun back => quoted w ++ spell back := by
  cases found : behindName w ls with
  | none =>
    rw [Option.map_none, strstr_eq_none_iff, h.isInfix_iff word]
    simpa using behindName_eq_none_iff.mp found
  | some back =>
    rw [Option.map_some, strstr_eq_some_iff]
    exact ⟨spell back, rfl, h.behind word found⟩

theorem Lexed.suffix {front ls : List Lexeme} (h : Lexed (front ++ ls)) : Lexed ls := by
  induction front with
  | nil => exact h
  | cons l front ih => exact ih h.tail

theorem Lexed.behindName {ls back : List Lexeme} (h : Lexed ls)
    (found : behindName w ls = some back) : Lexed back := by
  obtain ⟨front, l, rfl, -, -⟩ := behindName_split found
  exact h.suffix.tail

end

/-- The lexemes from the first `c` on; a string it stands in is cut there. -/
def cutAt (c : Char) : List Lexeme → Option (List Lexeme)
  | [] => none
  | .mark d :: ls => if d = c then some (.mark d :: ls) else cutAt c ls
  | .string body :: ls =>
    if c ∈ body then some (.rest (body.dropWhile (· != c)) :: ls) else cutAt c ls
  | .rest body :: ls =>
    if c ∈ body then some (.rest (body.dropWhile (· != c)) :: ls) else cutAt c ls

theorem dropWhile_of_mem {c : Char} {body : List Char} (h : c ∈ body) :
    ∃ front back, body = front ++ c :: back ∧ c ∉ front ∧ body.dropWhile (· != c) = c :: back := by
  obtain ⟨front, back, rfl, clear⟩ := List.eq_append_cons_of_mem h
  refine ⟨front, back, rfl, clear, ?_⟩
  rw [List.dropWhile_append_of_pos, List.dropWhile_cons_of_neg (by simp)]
  intro d member
  simp only [bne_iff_ne, ne_eq]
  rintro rfl
  exact clear member

theorem strchr_rest {c : Char} {body : List Char} (h : c ∈ body)
    (ls : List Lexeme) :
    strchr (body ++ '"' :: spell ls) c = some (spell (.rest (body.dropWhile (· != c)) :: ls)) := by
  obtain ⟨front, back, rfl, clear, dropped⟩ := dropWhile_of_mem h
  rw [dropped, List.append_assoc, strchr_skip clear, List.cons_append]
  simpa [Lexeme.spell] using strchr_head c (back ++ '"' :: spell ls)

theorem strchr_spell {c : Char} (printed : c ≠ '"') (ls : List Lexeme) :
    strchr (spell ls) c = (cutAt c ls).map spell := by
  induction ls with
  | nil => rfl
  | cons l ls ih =>
    rw [spell_cons]
    cases l with
    | mark d =>
      rw [cutAt]
      split
      next here =>
        subst here
        exact strchr_head d (spell ls)
      next other =>
        rw [strchr_skip (by simpa [Lexeme.spell] using Ne.symm other), ih]
    | rest body =>
      rw [cutAt]
      split
      next inside =>
        simpa [Lexeme.spell] using strchr_rest inside ls
      next outside =>
        rw [strchr_skip (by simp [Lexeme.spell, outside, printed]), ih]
    | string body =>
      rw [cutAt]
      split
      next inside =>
        have skip : c ∉ ['"'] := by simp [printed]
        have found := strchr_rest inside ls
        rw [← strchr_skip skip] at found
        simpa [Lexeme.spell, quoted] using found
      next outside =>
        rw [strchr_skip (by simp [Lexeme.spell, quoted, outside, printed]), ih]

theorem Lexed.cutAt {c : Char} {ls found : List Lexeme} (h : Lexed ls) (printed : c ≠ '"')
    (cut : cutAt c ls = some found) : Lexed found := by
  have inside {body : List Char} (guarded : Guarded body) (member : c ∈ body) (back : List Lexeme)
      (formed : ∀ l ∈ back, l.Formed) (spaced : Spaced false back) :
      Lexed (.rest (body.dropWhile (· != c)) :: back) := by
    obtain ⟨front, tail, rfl, -, dropped⟩ := dropWhile_of_mem member
    rw [dropped]
    have left : Guarded (c :: tail) := guarded.suffix (by simpa using printed)
    exact ⟨List.forall_mem_cons.mpr ⟨left, formed⟩, spaced⟩
  induction ls with
  | nil => cases cut
  | cons l ls ih =>
    obtain ⟨here, formed⟩ := List.forall_mem_cons.mp h.formed
    cases l with
    | mark d =>
      rw [Json.cutAt] at cut
      split at cut
      · cases cut
        exact h
      · exact ih h.tail cut
    | rest body =>
      rw [Json.cutAt] at cut
      split at cut
      next member =>
        cases cut
        exact inside here member ls formed h.spaced
      next => exact ih h.tail cut
    | string body =>
      rw [Json.cutAt] at cut
      split at cut
      next member =>
        cases cut
        exact inside here member ls formed h.spaced.2
      next => exact ih h.tail cut

end Go2Cloud.Json
