import Mathlib.Data.List.Basic
import Mathlib.Data.Option.NAry

/-! The JSON grammar: which texts stand for which values. A character is one byte of
the text, so a longer UTF-8 sequence is several characters. -/
namespace Go2Cloud.Json

inductive Value where
  | null
  | boolean (b : Bool)
  | number (text : List Char)
  | string (body : List Char)
  | array (elements : List Value)
  | object (members : List (List Char × Value))

def isBlank (c : Char) : Bool := c == ' ' || c == '\t' || c == '\n' || c == '\r'

def Blank (w : List Char) : Prop := ∀ c ∈ w, isBlank c = true

def quoted (body : List Char) : List Char := '"' :: (body ++ ['"'])

def hexDigit (c : Char) : Option Nat :=
  if '0' ≤ c ∧ c ≤ '9' then some (c.toNat - '0'.toNat)
  else if 'a' ≤ c ∧ c ≤ 'f' then some (10 + c.toNat - 'a'.toNat)
  else if 'A' ≤ c ∧ c ≤ 'F' then some (10 + c.toNat - 'A'.toNat)
  else none

def escaped : Char → Option Char
  | '"' => some '"'
  | '\\' => some '\\'
  | '/' => some '/'
  | 'b' => some '\x08'
  | 'f' => some '\x0c'
  | 'n' => some '\n'
  | 'r' => some '\r'
  | 't' => some '\t'
  | _ => none

/-- The character of a `\u` escape. Exact on ASCII: a code above it is one character
here, and several bytes when it is not escaped. -/
def unicode (a b c d : Char) : Option Char :=
  Option.map₂ (fun high low => Char.ofNat (256 * high + low))
    (Option.map₂ (16 * · + ·) (hexDigit a) (hexDigit b))
    (Option.map₂ (16 * · + ·) (hexDigit c) (hexDigit d))

def decode : List Char → Option (List Char)
  | [] => some []
  | '\\' :: 'u' :: a :: b :: c :: d :: rest =>
    Option.map₂ List.cons (unicode a b c d) (decode rest)
  | '\\' :: e :: rest => Option.map₂ List.cons (escaped e) (decode rest)
  | c :: rest => if c = '"' ∨ c = '\\' ∨ c < ' ' then none else (decode rest).map (c :: ·)

def Digits (ds : List Char) : Prop := ds ≠ [] ∧ ∀ c ∈ ds, c.isDigit = true

def IsNumber (text : List Char) : Prop :=
  ∃ sign whole fraction exponent, text = sign ++ (whole ++ (fraction ++ exponent)) ∧
    (sign = [] ∨ sign = ['-']) ∧
    Digits whole ∧ (whole.head? = some '0' → whole = ['0']) ∧
    (fraction = [] ∨ ∃ ds, fraction = '.' :: ds ∧ Digits ds) ∧
    (exponent = [] ∨ ∃ e plus ds, exponent = e :: (plus ++ ds) ∧ (e = 'e' ∨ e = 'E') ∧
      (plus = [] ∨ plus = ['+'] ∨ plus = ['-']) ∧ Digits ds)

inductive Phrase where
  | value (v : Value)
  | element (v : Value)
  | elements (vs : List Value)
  | member (m : List Char × Value)
  | members (ms : List (List Char × Value))

/-- The texts of a phrase. A whole document is an element: a value with blanks
around it. -/
inductive Renders : Phrase → List Char → Prop
  | null : Renders (.value .null) ['n', 'u', 'l', 'l']
  | true : Renders (.value (.boolean true)) ['t', 'r', 'u', 'e']
  | false : Renders (.value (.boolean false)) ['f', 'a', 'l', 's', 'e']
  | number {text : List Char} : IsNumber text → Renders (.value (.number text)) text
  | string {body : List Char} : (decode body).isSome →
      Renders (.value (.string body)) (quoted body)
  | emptyArray {w : List Char} : Blank w → Renders (.value (.array [])) ('[' :: (w ++ [']']))
  | array {vs : List Value} {t : List Char} : Renders (.elements vs) t →
      Renders (.value (.array vs)) ('[' :: (t ++ [']']))
  | emptyObject {w : List Char} : Blank w →
      Renders (.value (.object [])) ('{' :: (w ++ ['}']))
  | object {ms : List (List Char × Value)} {t : List Char} : Renders (.members ms) t →
      Renders (.value (.object ms)) ('{' :: (t ++ ['}']))
  | element {v : Value} {w t w' : List Char} : Blank w → Renders (.value v) t → Blank w' →
      Renders (.element v) (w ++ (t ++ w'))
  | lastElement {v : Value} {t : List Char} : Renders (.element v) t →
      Renders (.elements [v]) t
  | elements {v : Value} {vs : List Value} {t ts : List Char} : Renders (.element v) t →
      Renders (.elements vs) ts → Renders (.elements (v :: vs)) (t ++ ',' :: ts)
  | member {k : List Char} {v : Value} {w w' t : List Char} : Blank w → (decode k).isSome →
      Blank w' → Renders (.element v) t →
      Renders (.member (k, v)) (w ++ (quoted k ++ (w' ++ ':' :: t)))
  | lastMember {m : List Char × Value} {t : List Char} : Renders (.member m) t →
      Renders (.members [m]) t
  | members {m : List Char × Value} {ms : List (List Char × Value)} {t ts : List Char} :
      Renders (.member m) t → Renders (.members ms) ts →
      Renders (.members (m :: ms)) (t ++ ',' :: ts)

def Value.members : Value → List (List Char × Value)
  | .object ms => ms
  | _ => []

def Value.under (v : Value) (name : List Char) : List Value :=
  (v.members.filter fun m => decode m.1 == some name).map Prod.snd

theorem not_mem_of_blank {w : List Char} {c : Char} (blank : Blank w)
    (printed : isBlank c = false) : c ∉ w := by
  intro member
  rw [blank c member] at printed
  cases printed

theorem isSome_of_map₂ {α β γ : Type} {f : α → β → γ} {a : Option α} {b : Option β}
    (h : (Option.map₂ f a b).isSome) : a.isSome ∧ b.isSome := by
  cases a <;> cases b <;> simp_all

theorem hexDigit_ne_nul {c : Char} (h : (hexDigit c).isSome) : '\x00' ≠ c := by
  rintro rfl
  exact absurd h (by decide)

theorem unicode_ne_nul {a b c d : Char} (h : (unicode a b c d).isSome) :
    '\x00' ∉ [a, b, c, d] := by
  obtain ⟨high, low⟩ := isSome_of_map₂ h
  obtain ⟨ha, hb⟩ := isSome_of_map₂ high
  obtain ⟨hc, hd⟩ := isSome_of_map₂ low
  simp [hexDigit_ne_nul ha, hexDigit_ne_nul hb, hexDigit_ne_nul hc, hexDigit_ne_nul hd]

theorem escaped_ne_nul {e : Char} (h : (escaped e).isSome) : '\x00' ≠ e := by
  rintro rfl
  exact absurd h (by decide)

theorem decode_noNul (body : List Char) (h : (decode body).isSome) : '\x00' ∉ body := by
  fun_induction decode body with
  | case1 => simp
  | case2 a b c d rest ih =>
    obtain ⟨code, tail⟩ := isSome_of_map₂ h
    have digits := unicode_ne_nul code
    have rest_clear := ih tail
    simp_all
  | case3 e rest _ ih =>
    obtain ⟨escape, tail⟩ := isSome_of_map₂ h
    simp [escaped_ne_nul escape, ih tail]
  | case4 => cases h
  | case5 c rest _ _ plain ih =>
    rw [Option.isSome_map] at h
    have printed : '\x00' ≠ c := by
      rintro rfl
      exact plain (.inr (.inr (by decide)))
    simp [printed, ih h]

theorem eq_of_decode {body text : List Char} (unescaped : '\\' ∉ body)
    (h : decode body = some text) : body = text := by
  fun_induction decode body generalizing text with
  | case1 => exact Option.some.inj h
  | case2 => simp at unescaped
  | case3 => simp at unescaped
  | case4 => cases h
  | case5 c rest _ _ _ ih =>
    obtain ⟨tail, decoded, rfl⟩ := Option.map_eq_some_iff.mp h
    rw [ih (fun mem => unescaped (List.mem_cons_of_mem c mem)) decoded]

theorem mem_members_of_under {v found : Value} {name : List Char} (h : v.under name = [found]) :
    ∃ k, (k, found) ∈ v.members ∧ decode k = some name := by
  have mem : found ∈ v.under name := by simp [h]
  simp only [Value.under, List.mem_map, List.mem_filter, beq_iff_eq] at mem
  obtain ⟨⟨k, value⟩, ⟨mem, named⟩, rfl⟩ := mem
  exact ⟨k, mem, named⟩

theorem eq_object_of_mem {v : Value} {m : List Char × Value} (h : m ∈ v.members) :
    v = .object v.members := by
  cases v with
  | object => rfl
  | null | boolean | number | string | array => cases h

theorem Digits.not_mem {ds : List Char} (h : Digits ds) {c : Char} (other : c.isDigit = false) :
    c ∉ ds := by
  intro member
  rw [h.2 c member] at other
  cases other

theorem IsNumber.not_mem {text : List Char} (h : IsNumber text) {c : Char}
    (other : c.isDigit = false) (unsigned : c ∉ ['-', '+', '.', 'e', 'E']) : c ∉ text := by
  obtain ⟨sign, whole, fraction, exponent, rfl, signs, digits, -, fractions, exponents⟩ := h
  simp only [List.mem_cons, List.not_mem_nil, or_false, not_or] at unsigned
  have in_sign : c ∉ sign := by rcases signs with rfl | rfl <;> simp [unsigned]
  have in_fraction : c ∉ fraction := by
    rcases fractions with rfl | ⟨ds, rfl, digits⟩
    · simp
    · simp [digits.not_mem other, unsigned]
  have in_exponent : c ∉ exponent := by
    rcases exponents with rfl | ⟨e, plus, ds, rfl, rfl | rfl, pluses, digits⟩
    · simp
    all_goals rcases pluses with rfl | rfl | rfl <;> simp [digits.not_mem other, unsigned]
  simp [in_sign, digits.not_mem other, in_fraction, in_exponent]

theorem Renders.noNul {phrase : Phrase} {t : List Char} (h : Renders phrase t) : '\x00' ∉ t := by
  have in_blank {w : List Char} (blank : Blank w) : '\x00' ∉ w := not_mem_of_blank blank (by decide)
  induction h with
  | null => decide
  | true => decide
  | false => decide
  | number digits => exact digits.not_mem (by decide) (by decide)
  | string body => simp [quoted, decode_noNul _ body]
  | emptyArray blank => simp [in_blank blank]
  | array _ ih => simp [ih]
  | emptyObject blank => simp [in_blank blank]
  | object _ ih => simp [ih]
  | element before _ after ih => simp [in_blank before, in_blank after, ih]
  | lastElement _ ih => exact ih
  | elements _ _ first rest => simp [first, rest]
  | member before name after _ ih =>
    simp [quoted, in_blank before, in_blank after, decode_noNul _ name, ih]
  | lastMember _ ih => exact ih
  | members _ _ first rest => simp [first, rest]

theorem Renders.split_members {ms : List (List Char × Value)} {t k : List Char} {v : Value}
    (h : Renders (.members ms) t) (mem : (k, v) ∈ ms) :
    ∃ before w tv after, t = before ++ (quoted k ++ (w ++ ':' :: (tv ++ after))) ∧ Blank w ∧
      Renders (.element v) tv := by
  have split_member {m : List Char × Value} {t : List Char} (h : Renders (.member m) t) :
      ∃ before w tv, t = before ++ (quoted m.1 ++ (w ++ ':' :: tv)) ∧ Blank w ∧
        Renders (.element m.2) tv := by
    cases h with
    | member _ _ blank value => exact ⟨_, _, _, rfl, blank, value⟩
  induction ms generalizing t with
  | nil => cases mem
  | cons m ms ih =>
    cases h with
    | lastMember first =>
      obtain rfl := List.mem_singleton.mp mem
      obtain ⟨before, w, tv, rfl, blank, value⟩ := split_member first
      exact ⟨before, w, tv, [], by rw [List.append_nil], blank, value⟩
    | @members _ _ t ts first rest =>
      rcases List.mem_cons.mp mem with rfl | later
      · obtain ⟨before, w, tv, rfl, blank, value⟩ := split_member first
        exact ⟨before, w, tv, ',' :: ts, by simp, blank, value⟩
      · obtain ⟨before, w, tv, after, rfl, blank, value⟩ := ih rest later
        exact ⟨t ++ ',' :: before, w, tv, after, by simp, blank, value⟩

theorem Renders.split_object {ms : List (List Char × Value)} {t k : List Char} {v : Value}
    (h : Renders (.value (.object ms)) t) (mem : (k, v) ∈ ms) :
    ∃ before w w' tv after,
      t = '{' :: (before ++ (quoted k ++ (w ++ ':' :: (w' ++ (tv ++ after))))) ∧ Blank w ∧
        Blank w' ∧ Renders (.value v) tv := by
  cases h with
  | emptyObject => cases mem
  | @object _ inner members =>
    obtain ⟨before, w, tv, after, rfl, blank, value⟩ := members.split_members mem
    cases value with
    | @element _ w' tv w'' blank' value _ =>
      exact ⟨before, w, w', tv, w'' ++ (after ++ ['}']), by simp, blank, blank', value⟩

theorem Renders.name_eq {ms : List (List Char × Value)} {t k name : List Char} {v : Value}
    (h : Renders (.value (.object ms)) t) (mem : (k, v) ∈ ms) (unescaped : '\\' ∉ t)
    (named : decode k = some name) : k = name := by
  obtain ⟨before, w, w', tv, after, rfl, -, -, -⟩ := h.split_object mem
  refine eq_of_decode (fun escape => unescaped ?_) named
  simp [quoted, escape]

theorem Renders.without_blanks {v : Value} {t : List Char} (h : Renders (.value v) t) :
    Renders (.element v) t := by
  have none_blank : Blank [] := by simp [Blank]
  simpa using Renders.element none_blank h none_blank

def single (name text : List Char) : List Char := '{' :: (quoted name ++ ':' :: text ++ ['}'])

theorem Renders.single (name : List Char) {v : Value} {t : List Char}
    (spelled : (decode name).isSome) (h : Renders (.value v) t) :
    Renders (.value (.object [(name, v)])) (single name t) := by
  have none_blank : Blank [] := by simp [Blank]
  have member : Renders (.member (name, v)) (quoted name ++ ':' :: t) :=
    .member none_blank spelled none_blank h.without_blanks
  exact .object (.lastMember member)

end Go2Cloud.Json
