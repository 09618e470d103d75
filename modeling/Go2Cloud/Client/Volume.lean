import Go2Cloud.Client.FullSync
import Go2Cloud.Client.SkipList

/-! The list of volumes (client/volume.c): the partitions of the fixed drives, and the letters of
the volumes that begin where they begin. What the system calls return is an argument; `none` is a
write outside an array. -/
namespace Go2Cloud.Volumes
open CStrings
open FullSync (volumeBlockCount)
open SkipList (decimal decimal_isDigit)

def maxVolumes : Nat := 64

-- the drives volume_enumerate tries to open
abbrev DriveNo := Fin 16

structure VolumeInfo where
  devno : Int32
  drive : DriveNo
  partitionOffset : Nat
  totalBytes : Nat
  blockCount : Nat
  name : CString
  hasVss : Bool
  vssPath : List Char
  partIndex : Nat

structure PartitionEntry where
  startingOffset : Nat
  partitionLength : Nat

/-- What the calls about an open drive return: whether the medium is fixed, the number of the
device, the partitions; `none` where a call failed. -/
structure Drive where
  fixedMedia : Option Bool
  deviceNumber : Option UInt32
  layout : Option (List PartitionEntry)

def Drive.devno (d : Drive) (n : DriveNo) : Int32 :=
  match d.deviceNumber with
  | some number => number.toInt32
  | none => Int32.ofNat n.val

def diskPart (devno : Int32) (partIndex : Nat) : List Char :=
  (['D', 'i', 's', 'k'] ++ decimal devno ++ ['P', 'a', 'r', 't'] ++ Nat.toDigits 10 partIndex).take 15

theorem diskPart_clear (devno : Int32) (partIndex : Nat) : '\x00' ∉ diskPart devno partIndex := by
  intro member
  have whole := List.mem_of_mem_take member
  simp only [List.mem_append] at whole
  rcases whole with ((disk | number) | part) | index
  · simp at disk
  · rcases decimal_isDigit number with digit | minus
    · simp at digit
    · simp at minus
  · simp at part
  · have digit := Nat.isDigit_of_mem_toDigits (by decide) (by decide) index
    simp at digit

def volumeOf (n : DriveNo) (devno : Int32) (p : Nat) (part : PartitionEntry) : VolumeInfo where
  devno := devno
  drive := n
  partitionOffset := part.startingOffset
  totalBytes := part.partitionLength
  blockCount := volumeBlockCount part.partitionLength
  name := ⟨diskPart devno (p + 1), diskPart_clear devno (p + 1)⟩
  hasVss := false
  vssPath := []
  partIndex := p + 1

def store (list : List VolumeInfo) (v : VolumeInfo) : Option (List VolumeInfo) :=
  if list.length < maxVolumes then some (list ++ [v]) else none

def addPartitions (n : DriveNo) (devno : Int32) :
    (p : Nat) → List PartitionEntry → List VolumeInfo → Option (List VolumeInfo)
  | _, [], list => some list
  | p, part :: rest, list =>
    if part.partitionLength = 0 then addPartitions n devno (p + 1) rest list
    else do
      let list ← store list (volumeOf n devno p part)
      if list.length ≥ maxVolumes then some list else addPartitions n devno (p + 1) rest list

def addDrives (drives : DriveNo → Option Drive) :
    List DriveNo → List VolumeInfo → Option (List VolumeInfo)
  | [], list => some list
  | n :: rest, list =>
    match drives n with
    | none => addDrives drives rest list
    | some d =>
      if d.fixedMedia = some true then
        match d.layout with
        | none => addDrives drives rest list
        | some parts => do
          let list ← addPartitions n (d.devno n) 0 parts list
          if list.length ≥ maxVolumes then some list else addDrives drives rest list
      else addDrives drives rest list

/-- A volume of FindFirstVolumeW: the first of its paths, and its extents as disk number and
starting offset. -/
structure FoundVolume where
  firstPath : Option CString
  extents : Option (List (UInt32 × Nat))

theorem take_clear (path : CString) : '\x00' ∉ path.1.take 2 :=
  fun member => path.2 (List.mem_of_mem_take member)

-- drive_letter: the first two characters of the path, whatever follows
def driveLetter (path : CString) : CString := ⟨path.1.take 2, take_clear path⟩

def nameFirst (devno : Int32) (offset : Nat) (letter : CString) : List VolumeInfo → List VolumeInfo
  -- the first entry of the list that begins there gets the name
  | [] => []
  | v :: rest =>
    if devno = v.devno ∧ offset = v.partitionOffset then { v with name := letter } :: rest
    else v :: nameFirst devno offset letter rest

/-- Of several extents only the first is compared, and a volume with one has only that. -/
def nameVolume (list : List VolumeInfo) (f : FoundVolume) : List VolumeInfo :=
  match f.firstPath, f.extents with
  | some path, some ((disk, offset) :: _) =>
    if path.1 = [] then list else nameFirst disk.toInt32 offset (driveLetter path) list
  | _, _ => list

def volumeEnumerate (drives : DriveNo → Option Drive) (found : List FoundVolume) :
    Option (List VolumeInfo) :=
  -- volume_enumerate; it returns -1 if the list is empty
  (addDrives drives (List.finRange 16) []).map fun list => found.foldl nameVolume list

section Bounds

theorem addPartitions_isSome (n : DriveNo) (devno : Int32) (p : Nat) (parts : List PartitionEntry)
    {list : List VolumeInfo} (room : list.length < maxVolumes) :
    ∃ list', addPartitions n devno p parts list = some list' ∧ list'.length ≤ maxVolumes := by
  induction parts generalizing p list with
  | nil => exact ⟨list, rfl, room.le⟩
  | cons part rest ih =>
    rw [addPartitions, store, if_pos room]
    split
    · exact ih (p + 1) room
    · simp only [Option.bind_eq_bind, Option.bind_some]
      have length : (list ++ [volumeOf n devno p part]).length = list.length + 1 := by simp
      split
      · exact ⟨_, rfl, by omega⟩
      · exact ih (p + 1) (by omega)

theorem addDrives_isSome (drives : DriveNo → Option Drive) (ns : List DriveNo)
    {list : List VolumeInfo} (room : list.length < maxVolumes) :
    ∃ list', addDrives drives ns list = some list' ∧ list'.length ≤ maxVolumes := by
  induction ns generalizing list with
  | nil => exact ⟨list, rfl, room.le⟩
  | cons n rest ih =>
    rw [addDrives]
    split
    · exact ih room
    next d _ =>
      split
      · split
        · exact ih room
        next parts _ =>
          obtain ⟨list', added, le⟩ := addPartitions_isSome n (d.devno n) 0 parts room
          rw [added]
          simp only [Option.bind_eq_bind, Option.bind_some]
          split
          · exact ⟨list', rfl, le⟩
          · exact ih (by omega)
      · exact ih room

theorem nameFirst_length (devno : Int32) (offset : Nat) (letter : CString) (list : List VolumeInfo) :
    (nameFirst devno offset letter list).length = list.length := by
  induction list with
  | nil => rfl
  | cons v rest ih =>
    rw [nameFirst]
    split
    · rfl
    · rw [List.length_cons, ih, List.length_cons]

theorem nameVolume_length (list : List VolumeInfo) (f : FoundVolume) :
    (nameVolume list f).length = list.length := by
  unfold nameVolume
  split
  · split
    · rfl
    · exact nameFirst_length ..
  · rfl

theorem volumeEnumerate_isSome (drives : DriveNo → Option Drive) (found : List FoundVolume) :
    ∃ list, volumeEnumerate drives found = some list ∧ list.length ≤ maxVolumes := by
  obtain ⟨list, added, le⟩ := addDrives_isSome drives (List.finRange 16)
    (by decide : [].length < maxVolumes)
  refine ⟨found.foldl nameVolume list, by rw [volumeEnumerate, added, Option.map_some], ?_⟩
  have length : (found.foldl nameVolume list).length = list.length := by
    clear added le
    induction found generalizing list with
    | nil => rfl
    | cons f found ih => rw [List.foldl_cons, ih, nameVolume_length]
  omega

end Bounds

section Names
variable {P : VolumeInfo → Prop}

theorem addPartitions_all {n : DriveNo} {devno : Int32} {parts : List PartitionEntry}
    {list list' : List VolumeInfo} (new : ∀ p part, P (volumeOf n devno p part))
    (before : ∀ v ∈ list, P v) {p : Nat} (h : addPartitions n devno p parts list = some list') :
    ∀ v ∈ list', P v := by
  induction parts generalizing p list with
  | nil => exact Option.some.inj h ▸ before
  | cons part rest ih =>
    rw [addPartitions, store] at h
    split at h
    · exact ih before h
    · split at h
      · simp only [Option.bind_eq_bind, Option.bind_some] at h
        have after : ∀ v ∈ list ++ [volumeOf n devno p part], P v := by
          intro v member
          rcases List.mem_append.mp member with old | last
          · exact before v old
          · exact List.mem_singleton.mp last ▸ new p part
        split at h
        · exact Option.some.inj h ▸ after
        · exact ih after h
      · cases h

theorem addDrives_all {drives : DriveNo → Option Drive} {ns : List DriveNo}
    {list list' : List VolumeInfo} (new : ∀ n devno p part, P (volumeOf n devno p part))
    (before : ∀ v ∈ list, P v) (h : addDrives drives ns list = some list') : ∀ v ∈ list', P v := by
  induction ns generalizing list with
  | nil => exact Option.some.inj h ▸ before
  | cons n rest ih =>
    rw [addDrives] at h
    split at h
    · exact ih before h
    · split at h
      · split at h
        · exact ih before h
        · obtain ⟨added, partitions, h⟩ := Option.bind_eq_some_iff.mp h
          have after := addPartitions_all (new n _) before partitions
          split at h
          · exact Option.some.inj h ▸ after
          · exact ih after h
      · exact ih before h

def FoundVolume.place (f : FoundVolume) : Option (Int32 × Nat) :=
  match f.extents with
  | some ((disk, offset) :: _) => some (disk.toInt32, offset)
  | _ => none

def Named (found : List FoundVolume) (v : VolumeInfo) : Prop :=
  (∃ p, v.name.1 = diskPart v.devno p) ∨
    ∃ f ∈ found, ∃ path, f.firstPath = some path ∧ v.name = driveLetter path ∧
      f.place = some (v.devno, v.partitionOffset)

theorem mem_nameFirst {devno : Int32} {offset : Nat} {letter : CString} {list : List VolumeInfo}
    {v : VolumeInfo} (member : v ∈ nameFirst devno offset letter list) :
    v ∈ list ∨ ∃ u ∈ list, devno = u.devno ∧ offset = u.partitionOffset ∧
      v = { u with name := letter } := by
  induction list with
  | nil => exact .inl member
  | cons u rest ih =>
    rw [nameFirst] at member
    split at member
    next here =>
      rcases List.mem_cons.mp member with rfl | later
      · exact .inr ⟨u, List.mem_cons_self, here.1, here.2, rfl⟩
      · exact .inl (List.mem_cons_of_mem _ later)
    · rcases List.mem_cons.mp member with rfl | later
      · exact .inl List.mem_cons_self
      · exact (ih later).imp (List.mem_cons_of_mem _)
          fun ⟨u, old, rest⟩ => ⟨u, List.mem_cons_of_mem _ old, rest⟩

theorem nameVolume_named {found : List FoundVolume} {f : FoundVolume} (known : f ∈ found)
    {list : List VolumeInfo} (before : ∀ v ∈ list, v.hasVss = false ∧ Named found v) :
    ∀ v ∈ nameVolume list f, v.hasVss = false ∧ Named found v := by
  unfold nameVolume
  split
  next path disk offset _ firstPath extents =>
    split
    · exact before
    · intro v member
      rcases mem_nameFirst member with old | ⟨u, old, devno, place, rfl⟩
      · exact before v old
      · refine ⟨(before u old).1, .inr ⟨f, known, path, firstPath, rfl, ?_⟩⟩
        simp only [FoundVolume.place, extents, devno, place]
  · exact before

theorem volumeEnumerate_named {drives : DriveNo → Option Drive} {found : List FoundVolume}
    {list : List VolumeInfo} (h : volumeEnumerate drives found = some list) :
    ∀ v ∈ list, v.hasVss = false ∧ Named found v := by
  obtain ⟨added, drivesAdded, rfl⟩ := Option.map_eq_some_iff.mp h
  have start : ∀ v ∈ added, v.hasVss = false ∧ Named found v :=
    addDrives_all (fun n devno p part => ⟨rfl, .inl ⟨p + 1, rfl⟩⟩) (by simp) drivesAdded
  have fold : ∀ (fs : List FoundVolume) (list : List VolumeInfo), (∀ f ∈ fs, f ∈ found) →
      (∀ v ∈ list, v.hasVss = false ∧ Named found v) →
      ∀ v ∈ fs.foldl nameVolume list, v.hasVss = false ∧ Named found v := by
    intro fs
    induction fs with
    | nil => exact fun list _ before => before
    | cons f fs ih =>
      intro list known before
      exact ih _ (fun g hg => known g (List.mem_cons_of_mem _ hg))
        (nameVolume_named (known f List.mem_cons_self) before)
  exact fold found added (fun f hf => hf) start

end Names

end Go2Cloud.Volumes
