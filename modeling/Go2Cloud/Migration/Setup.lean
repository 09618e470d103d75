import Go2Cloud.Client.Volume

/-! What do_migrate and cmd_incsync do before they read the first block (client/main.c): the
volumes with a letter get a snapshot (client/vss.c), the path of each snapshot is stored with the
volume of its name, and the readers are opened. `none` is an access outside an array. -/
namespace Go2Cloud.Setup
open CStrings Volumes
open SkipList

def vssMaxVolumes : Nat := 16

def hasLetter (v : VolumeInfo) : Bool := decide (v.name.1 ≠ []) && v.name.1[1]? == some ':'

def vssVolIndices (list : List VolumeInfo) : List Nat :=
  ((List.range list.length).filter fun i => list[i]?.any hasLetter).take vssMaxVolumes

/-- vss_snapshot_t. `source` is where the volume begins that the snapshot was taken of; the code
does not see it. -/
structure VssSnapshot where
  originalVolume : CString
  snapshotPath : List Char
  source : Int32 × Nat

/-- What the calls of VSS return: whether the set was started and completed, which volumes it
took, and the properties of each snapshot, if one of the attempts got them. -/
structure VssCalls where
  completed : Bool
  added : Nat → Bool
  properties : Nat → Option VssSnapshot

def vssCreateSnapshots (calls : VssCalls) (n : Nat) : Option (List VssSnapshot) :=
  -- vss_create_snapshots for `n` volumes; `none` stands for -1
  let addedCount := (List.range n).countP calls.added
  if addedCount = 0 ∨ calls.completed = false then none
  else some ((List.range addedCount).filterMap calls.properties)

def origLen (original : CString) : Nat :=
  -- the length of the name without a backslash at its end
  if original.1.getLast? = some '\\' then original.1.length - 1 else original.1.length

def nameMatches (s : VssSnapshot) (v : VolumeInfo) : Bool :=
  strncmpZero v.name.1 s.originalVolume.1 (origLen s.originalVolume) &&
    cell v.name.1 (origLen s.originalVolume) == some '\x00'

def mapSnapshot (indices : List Nat) (list : List VolumeInfo) (s : VssSnapshot) : List VolumeInfo :=
  -- the path goes to the first volume of that name
  match indices.find? fun i => list[i]?.any (nameMatches s) with
  | some i => list.modify i fun v => { v with vssPath := s.snapshotPath, hasVss := true }
  | none => list

def mapSnapshots (list : List VolumeInfo) (snapshots : List VssSnapshot) : List VolumeInfo :=
  snapshots.foldl (mapSnapshot (vssVolIndices list)) list

def openReaders (skipDisks : List Int32) (opens : VolumeInfo → Bool) :
    List VolumeInfo → List VolumeInfo → Option (List VolumeInfo)
  -- the readers of do_migrate, stored in an array of MAX_VOLUMES entries
  | [], readers => some readers
  | v :: rest, readers =>
    if v.devno ∉ skipDisks ∧ opens v = true then do
      let readers ← store readers v
      openReaders skipDisks opens rest readers
    else openReaders skipDisks opens rest readers

def gptIndex (devno : Int32) : Option (Fin 16) :=
  -- a place in gpt_done
  if h : 0 ≤ devno.toInt ∧ devno.toInt.toNat < 16 then some ⟨devno.toInt.toNat, h.2⟩ else none

def gptReaders : List VolumeInfo → (Fin 16 → Bool) → Option (List VolumeInfo)
  -- the readers whose disk the GPT step copies, each disk once
  | [], _ => some []
  | v :: rest, gptDone => do
    let i ← gptIndex v.devno
    if gptDone i then gptReaders rest gptDone
    else (gptReaders rest (Function.update gptDone i true)).map (v :: ·)

def isSkipped (skipDisks : List Int32) (skipPartStr : Option CString) (v : VolumeInfo) :
    Option Bool :=
  if v.devno ∈ skipDisks then some true
  else partitionIsSkipped skipPartStr v.devno (Int32.ofNat v.partIndex)

def activeIdx (skipDisks : List Int32) (skipPartStr : Option CString) :
    List (VolumeInfo × Nat) → List Nat → Option (List Nat)
  -- the volumes cmd_incsync scans, by their place in the list; active_idx has 64 entries
  | [], active => some active
  | (v, i) :: rest, active => do
    let skipped ← isSkipped skipDisks skipPartStr v
    if skipped then activeIdx skipDisks skipPartStr rest active
    else if active.length < 64 then activeIdx skipDisks skipPartStr rest (active ++ [i])
    else none

inductive Prepared where
  | aborted
  | ready (readers gpt : List VolumeInfo)

/-- do_migrate up to its readers, and the disks its GPT step takes up. Without a snapshot or a
reader it gives up. -/
def prepareMigrate (drives : DriveNo → Option Drive) (found : List FoundVolume) (calls : VssCalls)
    (skipDisks : List Int32) (opens : VolumeInfo → Bool) : Option Prepared := do
  let list ← volumeEnumerate drives found
  match vssCreateSnapshots calls (vssVolIndices list).length with
  | none => some .aborted
  | some [] => some .aborted
  | some snapshots =>
    let readers ← openReaders skipDisks opens (mapSnapshots list snapshots) []
    if readers = [] then some .aborted
    else (gptReaders readers fun _ => false).map (.ready readers)

-- cmd_incsync up to its list of volumes
def prepareIncsync (drives : DriveNo → Option Drive) (found : List FoundVolume)
    (skipDisks : List Int32) (skipPartStr : Option CString) : Option (List Nat) := do
  let list ← volumeEnumerate drives found
  activeIdx skipDisks skipPartStr list.zipIdx []

section Snapshots

theorem hasLetter_diskPart {v : VolumeInfo} {p : Nat} (name : v.name.1 = diskPart v.devno p) :
    hasLetter v = false := by
  simp [hasLetter, name, diskPart]

theorem cell_eq_nul (text : CString) (n : Nat) :
    cell text.1 n = some '\x00' ↔ n = text.1.length := by
  unfold cell
  split
  next here => simp [here]
  next other =>
    refine iff_of_false (fun nul => ?_) other
    exact text.2 (List.mem_of_getElem? nul)

theorem origLen_le (original : CString) : origLen original ≤ original.1.length := by
  unfold origLen
  split <;> omega

theorem nameMatches_iff (s : VssSnapshot) (v : VolumeInfo) :
    nameMatches s v = true ↔ v.name.1 = s.originalVolume.1.take (origLen s.originalVolume) := by
  have le := origLen_le s.originalVolume
  unfold nameMatches
  rw [Bool.and_eq_true, strncmpZero_iff, beq_iff_eq, cell_eq_nul]
  constructor
  · rintro ⟨same, whole⟩
    rw [← same, whole, List.take_length]
  · intro same
    have length : origLen s.originalVolume = v.name.1.length := by
      rw [same, List.length_take]
      omega
    exact ⟨by rw [length, List.take_length, ← length, same], length⟩

structure Mapped (snapshots : List VssSnapshot) (u v : VolumeInfo) : Prop where
  devno : v.devno = u.devno
  offset : v.partitionOffset = u.partitionOffset
  name : v.name = u.name
  vss : v.hasVss = true → u.hasVss = true ∨
    hasLetter u = true ∧ ∃ s ∈ snapshots, v.vssPath = s.snapshotPath ∧ nameMatches s u = true

def AllMapped (snapshots : List VssSnapshot) (list cur : List VolumeInfo) : Prop :=
  ∀ (i : Nat) (v : VolumeInfo), cur[i]? = some v → ∃ u, list[i]? = some u ∧ Mapped snapshots u v

theorem mapSnapshot_mapped {snapshots : List VssSnapshot} {s : VssSnapshot} (known : s ∈ snapshots)
    {list cur : List VolumeInfo} (h : AllMapped snapshots list cur) :
    AllMapped snapshots list (mapSnapshot (vssVolIndices list) cur s) := by
  intro i v at_i
  unfold mapSnapshot at at_i
  split at at_i
  next j found =>
    rw [List.getElem?_modify] at at_i
    obtain ⟨w, at_cur, changed⟩ := Option.map_eq_some_iff.mp at_i
    obtain ⟨u, at_list, mapped⟩ := h i w at_cur
    refine ⟨u, at_list, ?_⟩
    split at changed
    next here =>
      subst here
      have matched := List.find?_some found
      have index := List.mem_of_find?_eq_some found
      rw [at_cur, Option.any_some] at matched
      have letter := (List.mem_filter.mp (List.mem_of_mem_take index)).2
      rw [at_list, Option.any_some] at letter
      subst changed
      refine ⟨mapped.devno, mapped.offset, mapped.name, fun _ => .inr ⟨letter, s, known, rfl, ?_⟩⟩
      rw [nameMatches_iff] at matched ⊢
      rw [← mapped.name]
      exact matched
    · subst changed
      exact mapped
  · exact h i v at_i

theorem mapSnapshots_mapped (list : List VolumeInfo) (snapshots : List VssSnapshot)
    {v : VolumeInfo} (member : v ∈ mapSnapshots list snapshots) :
    ∃ u ∈ list, Mapped snapshots u v := by
  have fold : ∀ (rest : List VssSnapshot) (cur : List VolumeInfo), (∀ s ∈ rest, s ∈ snapshots) →
      AllMapped snapshots list cur →
      AllMapped snapshots list (rest.foldl (mapSnapshot (vssVolIndices list)) cur) := by
    intro rest
    induction rest with
    | nil => exact fun cur _ before => before
    | cons s rest ih =>
      intro cur known before
      exact ih _ (fun t ht => known t (List.mem_cons_of_mem _ ht))
        (mapSnapshot_mapped (known s List.mem_cons_self) before)
  obtain ⟨i, at_i⟩ := List.mem_iff_getElem?.mp member
  obtain ⟨u, at_list, mapped⟩ := fold snapshots list (fun s hs => hs)
    (fun i v here => ⟨v, here, rfl, rfl, rfl, .inl⟩) i v at_i
  exact ⟨u, List.mem_of_getElem? at_list, mapped⟩

def Reported (found : List FoundVolume) (snapshots : List VssSnapshot) : Prop :=
  ∀ s ∈ snapshots, ∃ f ∈ found, f.firstPath = some s.originalVolume ∧ f.place = some s.source

/-- Volumes whose first paths begin with the same two characters begin at the same place. -/
def LettersApart (found : List FoundVolume) : Prop :=
  ∀ f ∈ found, ∀ g ∈ found, ∀ p, f.firstPath = some p → ∀ q, g.firstPath = some q →
    driveLetter p = driveLetter q → f.place = g.place

/-- A volume is read from the snapshot of the volume that begins where it begins, unless two
volumes share a letter. -/
theorem snapshot_of_own_volume (drives : DriveNo → Option Drive) (found : List FoundVolume)
    (list : List VolumeInfo) (h : volumeEnumerate drives found = some list)
    (snapshots : List VssSnapshot) (reported : Reported found snapshots)
    (apart : LettersApart found) :
    ∀ v ∈ mapSnapshots list snapshots, v.hasVss = true →
      ∃ s ∈ snapshots, v.vssPath = s.snapshotPath ∧ s.source = (v.devno, v.partitionOffset) := by
  intro v member vss
  obtain ⟨u, old, mapped⟩ := mapSnapshots_mapped list snapshots member
  obtain ⟨fresh, named⟩ := volumeEnumerate_named h u old
  rcases mapped.vss vss with before | ⟨letter, s, known, path, matched⟩
  · rw [fresh] at before
    cases before
  refine ⟨s, known, path, ?_⟩
  rcases named with ⟨p, name⟩ | ⟨f, hf, p, firstPath, name, place⟩
  · rw [hasLetter_diskPart name] at letter
    cases letter
  obtain ⟨g, hg, original, source⟩ := reported s known
  have same : driveLetter p = driveLetter s.originalVolume := by
    -- the name has two characters, so it is all of the path but a backslash
    have le := origLen_le s.originalVolume
    have cut := (nameMatches_iff s u).mp matched
    have two : u.name.1.length = 2 := by
      have most : (driveLetter p).1.length ≤ 2 := List.length_take_le 2 p.1
      have least : 1 < u.name.1.length := by
        simp only [hasLetter, Bool.and_eq_true, beq_iff_eq] at letter
        exact (List.getElem?_eq_some_iff.mp letter.2).1
      rw [name] at least ⊢
      omega
    have length : origLen s.originalVolume = 2 := by
      rw [cut, List.length_take] at two
      omega
    rw [← name]
    exact Subtype.ext (by rw [cut, length]; rfl)
  have one := apart f hf g hg p firstPath _ original same
  rw [place, source] at one
  rw [← Option.some.inj one, mapped.devno, mapped.offset]

-- one drive with two partitions
def oneDrive : DriveNo → Option Drive := fun n =>
  if n = 0 then some ⟨some true, some 0, some [⟨1048576, 4096⟩, ⟨2097152, 4096⟩]⟩ else none

def rootOfC : CString := ⟨['C', ':', '\\'], by decide⟩

def letterC : List FoundVolume := [⟨some rootOfC, some [(0, 2097152)]⟩]

def shadowOfC : List VssSnapshot := [⟨rootOfC, ['S', 'h', 'a', 'd', 'o', 'w', '1'], (0, 2097152)⟩]

theorem letterC_reported : Reported letterC shadowOfC := by
  simp [Reported, letterC, shadowOfC, FoundVolume.place]

theorem letterC_apart : LettersApart letterC := by
  simp [LettersApart, letterC]

theorem snapshot_of_own_volume_letterC :
    ∃ list, volumeEnumerate oneDrive letterC = some list ∧
      (∃ v ∈ mapSnapshots list shadowOfC, v.hasVss = true) ∧
      ∀ v ∈ mapSnapshots list shadowOfC, v.hasVss = true →
        ∃ s ∈ shadowOfC, v.vssPath = s.snapshotPath ∧ s.source = (v.devno, v.partitionOffset) :=
  ⟨_, rfl, by decide, snapshot_of_own_volume oneDrive letterC _ rfl shadowOfC letterC_reported
    letterC_apart⟩

def folderOnC : List FoundVolume :=
  -- a volume mounted in a folder of drive C gets the name of C, and with it the snapshot
  ⟨some ⟨['C', ':', '\\', 'd', '\\'], by decide⟩, some [(0, 1048576)]⟩ :: letterC

example : ∃ list, volumeEnumerate oneDrive folderOnC = some list ∧
    ∃ v ∈ mapSnapshots list shadowOfC, v.hasVss = true ∧ v.partitionOffset = 1048576 :=
  ⟨_, rfl, by decide⟩

end Snapshots

section Bounds
variable {skipDisks : List Int32} {opens : VolumeInfo → Bool}

theorem mapSnapshot_length (indices : List Nat) (list : List VolumeInfo) (s : VssSnapshot) :
    (mapSnapshot indices list s).length = list.length := by
  unfold mapSnapshot
  split
  · rw [List.length_modify]
  · rfl

theorem mapSnapshots_length (list : List VolumeInfo) (snapshots : List VssSnapshot) :
    (mapSnapshots list snapshots).length = list.length := by
  unfold mapSnapshots
  generalize vssVolIndices list = indices
  induction snapshots generalizing list with
  | nil => rfl
  | cons s snapshots ih => rw [List.foldl_cons, ih, mapSnapshot_length]

theorem openReaders_eq {list readers : List VolumeInfo}
    (room : readers.length + list.length ≤ maxVolumes) :
    openReaders skipDisks opens list readers =
      some (readers ++ list.filter fun v => decide (v.devno ∉ skipDisks ∧ opens v = true)) := by
  induction list generalizing readers with
  | nil => simp [openReaders]
  | cons v rest ih =>
    rw [List.length_cons] at room
    rw [openReaders, List.filter_cons]
    split
    next opened =>
      rw [if_pos (decide_eq_true opened), store, if_pos (by omega)]
      simp only [Option.bind_eq_bind, Option.bind_some]
      rw [ih (by simp only [List.length_append, List.length_singleton]; omega), List.append_assoc]
      rfl
    next closed =>
      rw [if_neg (by simpa using closed)]
      exact ih (by omega)

theorem gptReaders_isSome_iff (readers : List VolumeInfo) (gptDone : Fin 16 → Bool) :
    (gptReaders readers gptDone).isSome ↔ ∀ v ∈ readers, (gptIndex v.devno).isSome := by
  induction readers generalizing gptDone with
  | nil => simp [gptReaders]
  | cons v rest ih =>
    rw [gptReaders, List.forall_mem_cons]
    cases gptIndex v.devno with
    | none => simp
    | some i =>
      simp only [Option.bind_eq_bind, Option.bind_some, Option.isSome_some, true_and]
      split
      · exact ih gptDone
      · rw [Option.isSome_map]
        exact ih _

theorem gptIndex_isSome_iff (devno : Int32) :
    (gptIndex devno).isSome ↔ 0 ≤ devno.toInt ∧ devno.toInt < 16 := by
  unfold gptIndex
  split
  next inside => simpa using ⟨inside.1, by omega⟩
  next outside => simpa using fun low => by omega

theorem isSkipped_isSome (skipDisks : List Int32) (skipPartStr : Option CString) (v : VolumeInfo) :
    ∃ skipped, isSkipped skipDisks skipPartStr v = some skipped := by
  unfold isSkipped partitionIsSkipped
  split
  · exact ⟨true, rfl⟩
  · split
    · exact ⟨false, rfl⟩
    · split
      · exact ⟨false, rfl⟩
      · have fits : (entryText v.devno (Int32.ofNat v.partIndex)).length < targetSize :=
          lt_of_le_of_lt (entryText_length_le ..) (by decide)
        rw [target_eq]
        obtain ⟨skipped, scanned, -⟩ := scan_spec fits (fun c hc => (entryText_clear hc).2) _
        exact ⟨skipped, scanned⟩

theorem activeIdx_isSome {skipPartStr : Option CString} {list : List (VolumeInfo × Nat)}
    {active : List Nat} (room : active.length + list.length ≤ 64) :
    (activeIdx skipDisks skipPartStr list active).isSome := by
  induction list generalizing active with
  | nil => rfl
  | cons x rest ih =>
    rw [List.length_cons] at room
    obtain ⟨skipped, decided⟩ := isSkipped_isSome skipDisks skipPartStr x.1
    rw [activeIdx, decided]
    simp only [Option.bind_eq_bind, Option.bind_some]
    split
    · exact ih (by omega)
    · rw [if_pos (by omega)]
      exact ih (by rw [List.length_append, List.length_singleton]; omega)

/-- Of the arrays that are filled before the transfer only gpt_done can be exceeded: it is if and
only if a volume is opened whose disk number is not below 16. -/
theorem setup_in_bounds_iff (drives : DriveNo → Option Drive) (found : List FoundVolume)
    (calls : VssCalls) (skipDisks : List Int32) (skipPartStr : Option CString)
    (opens : VolumeInfo → Bool) :
    (prepareIncsync drives found skipDisks skipPartStr).isSome ∧
      ((prepareMigrate drives found calls skipDisks opens).isSome ↔
        ∀ list, volumeEnumerate drives found = some list →
          ∀ snapshots, vssCreateSnapshots calls (vssVolIndices list).length = some snapshots →
            snapshots ≠ [] → ∀ v ∈ mapSnapshots list snapshots, v.devno ∉ skipDisks →
              opens v = true → 0 ≤ v.devno.toInt ∧ v.devno.toInt < 16) := by
  obtain ⟨list, listed, le⟩ := volumeEnumerate_isSome drives found
  constructor
  · rw [prepareIncsync, listed]
    exact activeIdx_isSome (by simpa [maxVolumes] using le)
  · simp only [prepareMigrate, listed, Option.bind_eq_bind, Option.bind_some, Option.some.injEq,
      forall_eq']
    match created : vssCreateSnapshots calls (vssVolIndices list).length with
    | none => simp
    | some [] => simp
    | some (s :: rest) =>
      have opened : openReaders skipDisks opens (mapSnapshots list (s :: rest)) [] = some _ :=
        openReaders_eq (by simpa [mapSnapshots_length] using le)
      simp only [opened, Option.bind_some, Option.some.injEq, forall_eq', ne_eq, reduceCtorEq,
        not_false_eq_true, forall_const, List.nil_append]
      split
      next none_opened =>
        simp only [Option.isSome_some, true_iff]
        intro v member kept opened
        exact (List.filter_eq_nil_iff.mp none_opened v member (decide_eq_true ⟨kept, opened⟩)).elim
      · rw [Option.isSome_map, gptReaders_isSome_iff]
        simp only [List.mem_filter, decide_eq_true_eq, gptIndex_isSome_iff, and_imp]

end Bounds

end Go2Cloud.Setup
