import Go2Cloud.Lib.CStrings
import Go2Cloud.Lib.Json
import Go2Cloud.Server.BlockWriter
import Mathlib.Data.List.FinRange

/-! The target disks of receiver.json: json_nav and the disk section of main
(server/main.c), with the registration calls of server/block_writer.c. The code
does not parse the file. It searches it for quoted names, and every search runs to
the end of the file. -/
namespace Go2Cloud.DiskConfig
open CStrings Json BlockWriter

abbrev DiskTable := Fin maxTargetDisks → Option (List Char)

def pathSize : Nat := 512

def blockWriterInit : DiskTable := fun _ => none

def blockWriterRegister (disks : DiskTable) (devno : Int32) (filepath : List Char) :
    Bool × DiskTable :=
  match diskOf devno with
  | none => (false, disks)
  | some i => (true, Function.update disks i (some (filepath.take (pathSize - 1))))

def blockWriterHasRegistered (disks : DiskTable) : Bool :=
  (List.finRange maxTargetDisks).any fun i => (disks i).isSome

def jsonMaxKey : Nat := 64

/-- The argument `child` of json_nav is not used. -/
def jsonNav (json parent : List Char) : Option (List Char) :=
  let search := (quoted parent).take (jsonMaxKey + 8 - 1)
  (strstr json search).bind fun p => strchr (p.drop search.length) '{'

-- `snprintf(key, sizeof(key), "\"%d\"", i)`
def key (i : Fin maxTargetDisks) : List Char := (quoted (Nat.toDigits 10 i.val)).take 15

def isSkipped (c : Char) : Bool := c == ':' || c == ' ' || c == '\t' || c == '\n'

inductive Pass where
  -- how one pass of the loop over the disk numbers ends
  | stop
  | next
  | register (path : List Char)
  deriving DecidableEq

def copyPath (p : List Char) : Pass :=
  match strchr p '"' with
  | none => .next
  | some tail => .register (p.take (min (p.length - tail.length) (pathSize - 1)))

def readDisk (disksSection : List Char) (i : Fin maxTargetDisks) : Pass :=
  match strstr disksSection (key i) with
  | none => .stop
  | some p =>
    match strchr (p.drop (key i).length) ':' with
    | none => .next
    | some p =>
      match p.dropWhile isSkipped with
      | '"' :: p => copyPath p
      | _ => .next

def readDisks (disksSection : List Char) :
    List (Fin maxTargetDisks) → DiskTable → DiskTable
  | [], disks => disks
  | i :: rest, disks =>
    match readDisk disksSection i with
    | .stop => disks
    | .next => readDisks disksSection rest disks
    | .register path =>
      readDisks disksSection rest (blockWriterRegister disks (Int32.ofNat i.val) path).2

def targetName : List Char := ['T', 'a', 'r', 'g', 'e', 't']
def disksName : List Char := ['D', 'i', 's', 'k', 's']

def findDisks (configJson : List Char) : Option (List Char) :=
  (jsonNav configJson targetName).bind fun targetSection => jsonNav targetSection disksName

def targetDisks (configJson : List Char) : DiskTable :=
  -- what the parsing registers, before the default
  match findDisks configJson with
  | none => blockWriterInit
  | some disksSection => readDisks disksSection (List.finRange maxTargetDisks) blockWriterInit

def defaultPath : List Char := "/tmp/receiver_disk0.img".toList

def useDefault (disks : DiskTable) : DiskTable :=
  if blockWriterHasRegistered disks then disks else (blockWriterRegister disks 0 defaultPath).2

/-- The disks main registers. `file` is what read_file_all reads, `none` if it cannot;
as a C string it ends at the first NUL. -/
def receiverDisks (file : Option (List Char)) : DiskTable :=
  useDefault <|
    match file with
    | none => blockWriterInit
    | some bytes => targetDisks (bytes.takeWhile (· != '\x00'))

def number (i : Fin maxTargetDisks) : List Char := quoted (Nat.toDigits 10 i.val)

def Opens (text name found : List Char) : Prop :=
  ∃ gap inner, Behind text (quoted name) (gap ++ found) ∧ found = '{' :: inner ∧ '{' ∉ gap

def DisksAt (configJson disksSection : List Char) : Prop :=
  ∃ targetSection, Opens configJson targetName targetSection ∧
    Opens targetSection disksName disksSection

def Leads (disksSection : List Char) (i : Fin maxTargetDisks) (path : List Char) : Prop :=
  ∃ gap skipped body rest,
    Behind disksSection (number i) (gap ++ ':' :: (skipped ++ '"' :: (body ++ '"' :: rest))) ∧
    ':' ∉ gap ∧ (∀ c ∈ skipped, isSkipped c = true) ∧ '"' ∉ body ∧
    path = body.take (pathSize - 1)

/-- A disk is read if every number up to its own is quoted somewhere behind the
start of the section, and its own leads to a path. -/
def Reads (configJson : List Char) (disks : DiskTable) : Prop :=
  ∀ i path, disks i = some path ↔
    ∃ disksSection, DisksAt configJson disksSection ∧
      (∀ j ≤ i, number j <:+: disksSection) ∧ Leads disksSection i path

theorem key_eq (i : Fin maxTargetDisks) : key i = number i := by
  revert i
  decide +kernel

theorem take_quoted {parent : List Char} (short : parent.length ≤ jsonMaxKey) :
    (quoted parent).take (jsonMaxKey + 8 - 1) = quoted parent := by
  refine List.take_of_length_le ?_
  rw [quoted, List.length_cons, List.length_append]
  simp only [List.length_cons, List.length_nil]
  omega

theorem jsonNav_eq_some_iff {json parent found : List Char} (short : parent.length ≤ jsonMaxKey) :
    jsonNav json parent = some found ↔ Opens json parent found := by
  simp only [jsonNav, take_quoted short, Option.bind_eq_some_iff, strstr_eq_some_iff, strchr_eq_some_iff]
  constructor
  · rintro ⟨p, ⟨behind, rfl, isFirst⟩, gap, inner, split, open_brace, clear⟩
    rw [List.drop_left] at split
    exact ⟨gap, inner, split ▸ isFirst, open_brace, clear⟩
  · rintro ⟨gap, inner, isFirst, open_brace, clear⟩
    exact ⟨_, ⟨_, rfl, isFirst⟩, gap, inner, List.drop_left, open_brace, clear⟩

theorem targetName_length_le : targetName.length ≤ jsonMaxKey := by decide
theorem disksName_length_le : disksName.length ≤ jsonMaxKey := by decide

theorem findDisks_eq_some_iff {configJson disksSection : List Char} :
    findDisks configJson = some disksSection ↔ DisksAt configJson disksSection := by
  simp only [findDisks, Option.bind_eq_some_iff, jsonNav_eq_some_iff targetName_length_le,
    jsonNav_eq_some_iff disksName_length_le, DisksAt]

theorem diskOf_ofNat (i : Fin maxTargetDisks) : diskOf (Int32.ofNat i.val) = some i := by
  revert i
  decide

theorem register_disk (disks : DiskTable) (i : Fin maxTargetDisks) (path : List Char) :
    (blockWriterRegister disks (Int32.ofNat i.val) path).2 =
      Function.update disks i (some (path.take (pathSize - 1))) := by
  rw [blockWriterRegister, diskOf_ofNat]

theorem hasRegistered_iff (disks : DiskTable) :
    blockWriterHasRegistered disks = true ↔ disks ≠ blockWriterInit := by
  constructor
  · rintro found rfl
    simp [blockWriterHasRegistered, blockWriterInit] at found
  · intro some_disk
    by_contra missing
    refine some_disk (funext fun i => ?_)
    simp only [blockWriterHasRegistered, List.any_eq_true, List.mem_finRange, true_and,
      not_exists] at missing
    exact Option.not_isSome_iff_eq_none.mp (missing i)

theorem copyPath_eq_register_iff {p path : List Char} :
    copyPath p = .register path ↔
      ∃ body rest, p = body ++ '"' :: rest ∧ '"' ∉ body ∧ path = body.take (pathSize - 1) := by
  have cut (body rest : List Char) :
      (body ++ '"' :: rest).take (min ((body ++ '"' :: rest).length - ('"' :: rest).length)
        (pathSize - 1)) = body.take (pathSize - 1) := by
    rw [List.length_append, Nat.add_sub_cancel, Nat.min_comm, ← List.take_take, List.take_left]
  unfold copyPath
  constructor
  · intro copied
    split at copied
    · cases copied
    next tail found =>
      obtain ⟨body, rest, rfl, rfl, clear⟩ := strchr_eq_some_iff.mp found
      cases copied
      exact ⟨body, rest, rfl, clear, cut body rest⟩
  · rintro ⟨body, rest, rfl, clear, rfl⟩
    simp only [strchr_append clear, cut]

theorem dropWhile_skipped_iff {p rest : List Char} :
    (':' :: p).dropWhile isSkipped = '"' :: rest ↔
      ∃ skipped, p = skipped ++ '"' :: rest ∧ ∀ c ∈ skipped, isSkipped c = true := by
  rw [List.dropWhile_cons_of_pos (by decide)]
  constructor
  · intro stopped
    refine ⟨p.takeWhile isSkipped, ?_, fun c hc => List.mem_takeWhile_imp hc⟩
    rw [← stopped, List.takeWhile_append_dropWhile]
  · rintro ⟨skipped, rfl, all⟩
    rw [List.dropWhile_append_of_pos all, List.dropWhile_cons_of_neg (by decide)]

theorem readDisk_eq_stop_iff {disksSection : List Char} {i : Fin maxTargetDisks} :
    readDisk disksSection i = .stop ↔ ¬ number i <:+: disksSection := by
  rw [← strstr_eq_none_iff, ← key_eq]
  unfold readDisk copyPath
  constructor
  · intro stopped
    repeat' split at stopped
    all_goals first | assumption | cases stopped
  · intro missing
    rw [missing]

theorem readDisk_eq_register_iff {disksSection path : List Char} {i : Fin maxTargetDisks} :
    readDisk disksSection i = .register path ↔ Leads disksSection i path := by
  constructor
  · intro read
    unfold readDisk at read
    split at read
    · cases read
    next p first =>
      rw [key_eq] at first read
      obtain ⟨behind, rfl, isFirst⟩ := strstr_eq_some_iff.mp first
      rw [List.drop_left] at read
      split at read
      · cases read
      next colon found =>
        obtain ⟨gap, tail, rfl, rfl, clear⟩ := strchr_eq_some_iff.mp found
        split at read
        next p stopped =>
          obtain ⟨skipped, rfl, all⟩ := dropWhile_skipped_iff.mp stopped
          obtain ⟨body, rest, rfl, plain, rfl⟩ := copyPath_eq_register_iff.mp read
          exact ⟨gap, skipped, body, rest, isFirst, clear, all, plain, rfl⟩
        · cases read
  · rintro ⟨gap, skipped, body, rest, isFirst, clear, all, plain, rfl⟩
    have first := strstr_eq_some_iff.mpr ⟨_, rfl, isFirst⟩
    have stopped : (':' :: (skipped ++ '"' :: (body ++ '"' :: rest))).dropWhile isSkipped =
        '"' :: (body ++ '"' :: rest) := dropWhile_skipped_iff.mpr ⟨skipped, rfl, all⟩
    have copied := copyPath_eq_register_iff.mpr ⟨body, rest, rfl, plain, rfl⟩
    unfold readDisk
    simp only [key_eq, first, List.drop_left, strchr_append clear, stopped, copied]

theorem Leads.length_le {disksSection path : List Char} {i : Fin maxTargetDisks}
    (h : Leads disksSection i path) : path.length ≤ pathSize - 1 := by
  obtain ⟨gap, skipped, body, rest, -, -, -, -, rfl⟩ := h
  exact List.length_take_le _ _

theorem readDisks_apply (disksSection : List Char) (l : List (Fin maxTargetDisks))
    (disks : DiskTable) (i : Fin maxTargetDisks) :
    readDisks disksSection l disks i =
      if i ∈ l.takeWhile (fun j => readDisk disksSection j != .stop) then
        match readDisk disksSection i with
        | .register path => some path
        | _ => disks i
      else disks i := by
  induction l generalizing disks with
  | nil => rfl
  | cons j rest ih =>
    rw [readDisks, List.takeWhile_cons]
    cases pass : readDisk disksSection j with
    | stop => simp
    | next =>
      simp only [ih]
      by_cases same : i = j
      · subst same
        simp [pass]
      · simp [same]
    | register path =>
      have short := (readDisk_eq_register_iff.mp pass).length_le
      simp only [ih, register_disk, List.take_of_length_le short]
      by_cases same : i = j
      · subst same
        simp [pass]
      · simp [same]

theorem mem_takeWhile_iff {n : Nat} {p : Fin n → Bool} {l : List (Fin n)} {i : Fin n}
    (ascending : l.Pairwise (· < ·)) :
    i ∈ l.takeWhile p ↔ i ∈ l ∧ ∀ j ∈ l, j ≤ i → p j = true := by
  induction l with
  | nil => simp
  | cons k rest ih =>
    obtain ⟨below, ascending⟩ := List.pairwise_cons.mp ascending
    rw [List.takeWhile_cons]
    split
    next pass =>
      rw [List.mem_cons, List.mem_cons, ih ascending, List.forall_mem_cons]
      constructor
      · rintro (rfl | ⟨mem, all⟩)
        · exact ⟨.inl rfl, fun _ => pass, fun j hj le => absurd (below j hj) (not_lt.mpr le)⟩
        · exact ⟨.inr mem, fun _ => pass, all⟩
      · rintro ⟨rfl | mem, -, all⟩
        · exact .inl rfl
        · exact .inr ⟨mem, all⟩
    next fail =>
      constructor
      · intro mem
        cases mem
      · rintro ⟨mem, all⟩
        refine absurd (all k List.mem_cons_self ?_) fail
        rcases List.mem_cons.mp mem with rfl | mem
        · exact le_rfl
        · exact (below i mem).le

theorem readDisks_eq_some_iff {disksSection path : List Char} {i : Fin maxTargetDisks} :
    readDisks disksSection (List.finRange maxTargetDisks) blockWriterInit i = some path ↔
      (∀ j ≤ i, number j <:+: disksSection) ∧ Leads disksSection i path := by
  have ascending := List.pairwise_lt_finRange maxTargetDisks
  have reached : i ∈ (List.finRange maxTargetDisks).takeWhile
      (fun j => readDisk disksSection j != .stop) ↔ ∀ j ≤ i, number j <:+: disksSection := by
    simp only [mem_takeWhile_iff ascending, List.mem_finRange, true_and, forall_const,
      bne_iff_ne, ne_eq, readDisk_eq_stop_iff, not_not]
  rw [readDisks_apply, ← readDisk_eq_register_iff]
  simp only [reached, blockWriterInit]
  split
  next all_quoted =>
    rw [and_iff_right all_quoted]
    cases readDisk disksSection i <;> simp
  next missing => simp [missing]

theorem reads_targetDisks (configJson : List Char) : Reads configJson (targetDisks configJson) := by
  intro i path
  unfold targetDisks
  simp only [← findDisks_eq_some_iff]
  cases findDisks configJson with
  | none => simp [blockWriterInit]
  | some disksSection => simp [readDisks_eq_some_iff]

theorem reads_iff {configJson : List Char} {disks : DiskTable} :
    Reads configJson disks ↔ targetDisks configJson = disks := by
  constructor
  · intro reads
    refine funext fun i => Option.ext fun path => ?_
    exact (reads_targetDisks configJson i path).trans (reads i path).symm
  · rintro rfl
    exact reads_targetDisks configJson

def onlyDefault : DiskTable := Function.update blockWriterInit 0 (some defaultPath)

theorem register_default : (blockWriterRegister blockWriterInit 0 defaultPath).2 = onlyDefault := by
  have zero : diskOf 0 = some 0 := by decide
  have short : defaultPath.take (pathSize - 1) = defaultPath := by decide +kernel
  rw [blockWriterRegister, zero, short]
  rfl

theorem onlyDefault_ne : onlyDefault ≠ blockWriterInit := by
  intro same
  have zero := congrFun same 0
  simp [onlyDefault, blockWriterInit] at zero

theorem useDefault_of_ne {disks : DiskTable} (h : disks ≠ blockWriterInit) :
    useDefault disks = disks :=
  if_pos ((hasRegistered_iff disks).mpr h)

theorem useDefault_init : useDefault blockWriterInit = onlyDefault := by
  rw [useDefault, if_neg (by simp [hasRegistered_iff]), register_default]

inductive Configures (v : Value) : DiskTable → Prop
  | noTarget : v.under targetName = [] → Configures v blockWriterInit
  | noDisks {t : Value} : v.under targetName = [t] → t.under disksName = [] →
      Configures v blockWriterInit
  | disks {t : Value} {entries : List (List Char × Value)} {disks : DiskTable} :
      v.under targetName = [t] → t.under disksName = [.object entries] →
      (entries.map fun entry => decode entry.1).Nodup →
      (∀ entry ∈ entries, ∃ i : Fin maxTargetDisks, ∃ path,
        decode entry.1 = some (Nat.toDigits 10 i.val) ∧ entry.2 = .string path ∧
        '"' ∉ path ∧ '\\' ∉ path ∧ path.length < pathSize) →
      (∀ i path, disks i = some path ↔
        ∃ name, (name, .string path) ∈ entries ∧ decode name = some (Nat.toDigits 10 i.val)) →
      Configures v disks

structure Document where
  text : List Char
  members : List (List Char × Value)
  disks : DiskTable
  renders : Renders (.element (.object members)) text
  configures : Configures (.object members) disks

def Document.expected (d : Document) : DiskTable :=
  if ∀ i, d.disks i = none then onlyDefault else d.disks

theorem Document.expected_eq (d : Document) : d.expected = useDefault d.disks := by
  unfold expected
  split
  next none =>
    have empty : d.disks = blockWriterInit := funext none
    rw [empty, useDefault_init]
  next some =>
    rw [useDefault_of_ne]
    intro empty
    exact some fun i => congrFun empty i

theorem receiverDisks_text (d : Document) :
    receiverDisks (some d.text) = useDefault (targetDisks d.text) := by
  have whole : d.text.takeWhile (· != '\x00') = d.text := by
    rw [List.takeWhile_eq_self_iff]
    intro c hc
    rw [bne_iff_ne]
    rintro rfl
    exact d.renders.noNul hc
  rw [receiverDisks, whole]

theorem useDefault_ne (disks : DiskTable) : useDefault disks ≠ blockWriterInit := by
  by_cases empty : disks = blockWriterInit
  · rw [empty, useDefault_init]
    exact onlyDefault_ne
  · rwa [useDefault_of_ne empty]

/-- Nothing in the file misleads the search: the disks are numbered from 0 without a gap, the
next number is nowhere in quotes, and every name searched for is there only once. -/
structure Document.Plain (d : Document) (n : Nat) : Prop where
  numbered : ∀ i, (d.disks i).isSome = true ↔ i.val < n
  next_missing : ∀ i : Fin maxTargetDisks, i.val = n → ¬ number i <:+: d.text
  target_once : AtMostOnce (quoted targetName) d.text
  disks_once : AtMostOnce (quoted disksName) d.text
  number_once : ∀ i : Fin maxTargetDisks, i.val < n → AtMostOnce (number i) d.text
  unescaped : '\\' ∉ d.text
  no_return : '\r' ∉ d.text

theorem Opens.isSuffix {text name found : List Char} (h : Opens text name found) :
    found <:+ text := by
  obtain ⟨gap, inner, ⟨before, rfl, -⟩, -, -⟩ := h
  exact ⟨before ++ (quoted name ++ gap), by simp⟩

theorem DisksAt.isSuffix {text disksSection : List Char} (h : DisksAt text disksSection) :
    disksSection <:+ text := by
  obtain ⟨targetSection, first, second⟩ := h
  exact second.isSuffix.trans first.isSuffix

theorem DisksAt.unique {text a b : List Char} (ha : DisksAt text a) (hb : DisksAt text b) :
    a = b := by
  rw [← findDisks_eq_some_iff] at ha hb
  exact Option.some.inj (ha.symm.trans hb)

theorem Leads.unique {disksSection a b : List Char} {i : Fin maxTargetDisks}
    (ha : Leads disksSection i a) (hb : Leads disksSection i b) : a = b := by
  rw [← readDisk_eq_register_iff] at ha hb
  exact Pass.register.inj (ha.symm.trans hb)

/-- In the text of an object, the search for a member that is an object and whose name
stands nowhere else arrives at that member. -/
theorem opens_member {members inside : List (List Char × Value)}
    {name before text after : List Char}
    (renders : Renders (.value (.object members)) text) (mem : (name, .object inside) ∈ members)
    (once : AtMostOnce (quoted name) (before ++ (text ++ after))) :
    ∃ text' after', Opens (before ++ (text ++ after)) name (text' ++ after') ∧
      Renders (.value (.object inside)) text' := by
  obtain ⟨front, w, w', text', rest, rfl, blank, blank', value⟩ := renders.split_object mem
  obtain ⟨inner, starts⟩ : ∃ inner, text' = '{' :: inner := by
    cases value with
    | emptyObject => exact ⟨_, rfl⟩
    | object => exact ⟨_, rfl⟩
  have regroup : before ++
      ('{' :: (front ++ (quoted name ++ (w ++ ':' :: (w' ++ (text' ++ rest))))) ++ after) =
      (before ++ '{' :: front) ++
        (quoted name ++ ((w ++ ':' :: w') ++ (text' ++ (rest ++ after)))) := by simp
  rw [regroup] at once ⊢
  refine ⟨text', rest ++ after, ⟨w ++ ':' :: w', inner ++ (rest ++ after), once.behind, ?_, ?_⟩,
    value⟩
  · rw [starts, List.cons_append]
  · simp [not_mem_of_blank blank (c := '{') (by decide),
      not_mem_of_blank blank' (c := '{') (by decide)]

theorem leads_member {entries : List (List Char × Value)} {text after path : List Char}
    {i : Fin maxTargetDisks} (renders : Renders (.value (.object entries)) text)
    (mem : (Nat.toDigits 10 i.val, .string path) ∈ entries)
    (once : AtMostOnce (number i) (text ++ after)) (no_return : '\r' ∉ text ++ after)
    (plain : '"' ∉ path) (short : path.length < pathSize) : Leads (text ++ after) i path := by
  obtain ⟨front, w, w', value, rest, rfl, blank, blank', string⟩ := renders.split_object mem
  cases string with
  | string =>
    have regroup : '{' :: (front ++ (quoted (Nat.toDigits 10 i.val) ++
        (w ++ ':' :: (w' ++ (quoted path ++ rest))))) ++ after = ('{' :: front) ++
          (number i ++ (w ++ ':' :: (w' ++ '"' :: (path ++ '"' :: (rest ++ after))))) := by
      simp [number, quoted]
    rw [regroup] at once no_return ⊢
    refine ⟨w, w', path, rest ++ after, once.behind, not_mem_of_blank blank (by decide), ?_, plain,
      ?_⟩
    · intro c hc
      have is_blank := blank' c hc
      have not_return : c ≠ '\r' := by
        rintro rfl
        simp [hc] at no_return
      simp only [isBlank, isSkipped, Bool.or_eq_true, beq_iff_eq] at is_blank ⊢
      grind
    · rw [List.take_of_length_le (by omega)]

theorem Document.Plain.disksAt {d : Document} {n : Nat} (plain : d.Plain n) {t : Value}
    {entries : List (List Char × Value)} (target : (Value.object d.members).under targetName = [t])
    (disks : t.under disksName = [.object entries]) :
    ∃ text after, DisksAt d.text (text ++ after) ∧ Renders (.value (.object entries)) text := by
  obtain ⟨targetKey, target_mem, target_name⟩ := mem_members_of_under target
  obtain ⟨disksKey, disks_mem, disks_name⟩ := mem_members_of_under disks
  rw [eq_object_of_mem disks_mem] at target_mem
  obtain ⟨before, text, after, whole, renders⟩ : ∃ before text after,
      d.text = before ++ (text ++ after) ∧ Renders (.value (.object d.members)) text := by
    have renders := d.renders
    generalize d.text = text at renders
    cases renders with
    | element _ value _ => exact ⟨_, _, _, rfl, value⟩
  have unescaped := plain.unescaped
  have target_once := plain.target_once
  have disks_once := plain.disks_once
  rw [whole] at unescaped target_once disks_once ⊢
  obtain rfl := renders.name_eq target_mem (fun escape => unescaped (by simp [escape])) target_name
  obtain ⟨text', after', opens, renders'⟩ := opens_member renders target_mem target_once
  obtain ⟨skipped, same⟩ := opens.isSuffix
  rw [← same] at unescaped disks_once
  obtain rfl := renders'.name_eq disks_mem (fun escape => unescaped (by simp [escape])) disks_name
  have once : AtMostOnce (quoted disksName) ([] ++ (text' ++ after')) := disks_once.suffix
  obtain ⟨text'', after'', opens', renders''⟩ := opens_member renders' disks_mem once
  exact ⟨text'', after'', ⟨_, opens, opens'⟩, renders''⟩

theorem Document.Plain.leads {d : Document} {n : Nat} (plain : d.Plain n) {i : Fin maxTargetDisks}
    {path : List Char} (configured : d.disks i = some path) :
    ∃ disksSection, DisksAt d.text disksSection ∧ Leads disksSection i path := by
  have numbered : i.val < n := (plain.numbered i).mp (by simp [configured])
  have configures := d.configures
  generalize d.disks = disks at configures configured
  cases configures with
  | noTarget => cases configured
  | noDisks => cases configured
  | disks target section_found _ wellFormed entry_iff =>
    obtain ⟨text, after, found, renders⟩ := plain.disksAt target section_found
    obtain ⟨skipped, same⟩ := found.isSuffix
    obtain ⟨name, mem, named⟩ := (entry_iff i path).mp configured
    obtain ⟨_, _, -, string, no_quote, -, short⟩ := wellFormed _ mem
    obtain rfl := Value.string.inj string
    have unescaped := plain.unescaped
    have no_return := plain.no_return
    have once := plain.number_once i numbered
    rw [← same] at unescaped no_return once
    obtain rfl := renders.name_eq mem (fun escape => unescaped (by simp [escape])) named
    have no_return : '\r' ∉ text ++ after := fun mem => no_return (List.mem_append_right _ mem)
    exact ⟨_, found, leads_member renders mem once.suffix no_return no_quote short⟩

theorem Leads.isInfix {disksSection path : List Char} {i : Fin maxTargetDisks}
    (h : Leads disksSection i path) : number i <:+: disksSection := by
  obtain ⟨_, _, _, _, behind, -⟩ := h
  exact behind.isInfix

theorem Document.Plain.reads {d : Document} {n : Nat} (plain : d.Plain n) :
    Reads d.text d.disks := by
  intro i path
  constructor
  · intro configured
    obtain ⟨disksSection, found, leads⟩ := plain.leads configured
    refine ⟨disksSection, found, fun j le => ?_, leads⟩
    have numbered : i.val < n := (plain.numbered i).mp (by simp [configured])
    obtain ⟨other, configured'⟩ :=
      Option.isSome_iff_exists.mp ((plain.numbered j).mpr (lt_of_le_of_lt le numbered))
    obtain ⟨disksSection', found', leads'⟩ := plain.leads configured'
    exact found.unique found' ▸ leads'.isInfix
  · rintro ⟨disksSection, found, all_quoted, leads⟩
    by_cases numbered : i.val < n
    · obtain ⟨path', configured⟩ := Option.isSome_iff_exists.mp ((plain.numbered i).mpr numbered)
      obtain ⟨disksSection', found', leads'⟩ := plain.leads configured
      obtain rfl := found.unique found'
      rw [configured, leads.unique leads']
    · -- the loop has left at number `n`
      have le : n ≤ i.val := Nat.le_of_not_lt numbered
      have quoted_next := all_quoted ⟨n, lt_of_le_of_lt le i.isLt⟩ le
      exact absurd (quoted_next.trans found.isSuffix.isInfix) (plain.next_missing _ rfl)

/-- A plain file is read as configured. -/
theorem Document.Plain.receiverDisks_eq {d : Document} {n : Nat} (plain : d.Plain n) :
    receiverDisks (some d.text) = d.expected := by
  rw [receiverDisks_text, d.expected_eq, reads_iff.mp plain.reads]

def oneEntry (i : Fin maxTargetDisks) : List (List Char × Value) :=
  [(Nat.toDigits 10 i.val, .string ['/', 'b'])]

def oneDiskMembers (i : Fin maxTargetDisks) : List (List Char × Value) :=
  [(targetName, .object [(disksName, .object (oneEntry i))])]

def oneDiskText (i : Fin maxTargetDisks) : List Char :=
  single targetName (single disksName (single (Nat.toDigits 10 i.val) (quoted ['/', 'b'])))

def oneDiskTable (i : Fin maxTargetDisks) : DiskTable :=
  Function.update blockWriterInit i (some ['/', 'b'])

theorem decode_digits (i : Fin maxTargetDisks) :
    decode (Nat.toDigits 10 i.val) = some (Nat.toDigits 10 i.val) := by
  revert i
  decide +kernel

theorem digits_injective {i j : Fin maxTargetDisks} :
    Nat.toDigits 10 i.val = Nat.toDigits 10 j.val → i = j := by
  revert i j
  decide +kernel

theorem oneDisk_renders (i : Fin maxTargetDisks) :
    Renders (.element (.object (oneDiskMembers i))) (oneDiskText i) := by
  have path : Renders (.value (.string ['/', 'b'])) (quoted ['/', 'b']) := .string (by decide)
  have entries := Renders.single (Nat.toDigits 10 i.val) (by simp [decode_digits]) path
  have disks := Renders.single disksName (by decide) entries
  exact (Renders.single targetName (by decide) disks).without_blanks

theorem oneDiskTable_eq_some_iff {i j : Fin maxTargetDisks} {path : List Char} :
    oneDiskTable i j = some path ↔ j = i ∧ path = ['/', 'b'] := by
  by_cases same : j = i
  · subst same
    simp [oneDiskTable, eq_comm]
  · simp [oneDiskTable, blockWriterInit, same]

theorem oneDisk_configures (i : Fin maxTargetDisks) :
    Configures (.object (oneDiskMembers i)) (oneDiskTable i) := by
  have target : (Value.object (oneDiskMembers i)).under targetName =
      [.object [(disksName, .object (oneEntry i))]] := rfl
  have disks : (Value.object [(disksName, .object (oneEntry i))]).under disksName =
      [.object (oneEntry i)] := rfl
  refine .disks target disks (List.nodup_singleton _) ?_ ?_
  · intro entry mem
    obtain rfl := List.mem_singleton.mp mem
    exact ⟨i, ['/', 'b'], decode_digits i, rfl, by decide, by decide, by decide⟩
  · intro j path
    rw [oneDiskTable_eq_some_iff]
    constructor
    · rintro ⟨rfl, rfl⟩
      exact ⟨_, List.mem_singleton.mpr rfl, decode_digits j⟩
    · rintro ⟨name, mem, named⟩
      obtain ⟨rfl, string⟩ := Prod.mk.inj (List.mem_singleton.mp mem)
      rw [decode_digits, Option.some.injEq] at named
      exact ⟨digits_injective named.symm, Value.string.inj string⟩

def oneDisk (i : Fin maxTargetDisks) : Document :=
  -- the file that configures disk `i` only, written without blanks
  ⟨oneDiskText i, oneDiskMembers i, oneDiskTable i, oneDisk_renders i, oneDisk_configures i⟩

theorem oneDisk_plain : (oneDisk 0).Plain 1 where
  numbered i := by
    revert i
    decide +kernel
  next_missing i := by
    revert i
    decide +kernel
  target_once := by decide +kernel
  disks_once := by decide +kernel
  number_once i := by
    revert i
    decide +kernel
  unescaped := by decide +kernel
  no_return := by decide +kernel

end Go2Cloud.DiskConfig
