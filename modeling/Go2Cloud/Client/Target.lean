import Go2Cloud.Lib.CStrings
import Mathlib.Data.Nat.Digits.Lemmas

/-! The target on the command line and the remote id made of it (main, cmd_incsync and do_migrate
in client/main.c). The id is the key under which the tracker keeps a receiver's rows and versions. -/
namespace Go2Cloud.Target
open CStrings

def isSpace (c : Char) : Bool :=
  c == ' ' || c == '\t' || c == '\n' || c == '\x0b' || c == '\x0c' || c == '\r'

/-- `none` where the number does not fit into an int and the result is undefined. -/
def atoi (p : List Char) : Option Int :=
  let v : Int :=
    match p.dropWhile isSpace with
    | '-' :: rest => -(Nat.ofDigitChars 10 (rest.takeWhile Char.isDigit) 0)
    | '+' :: rest => Nat.ofDigitChars 10 (rest.takeWhile Char.isDigit) 0
    | rest => Nat.ofDigitChars 10 (rest.takeWhile Char.isDigit) 0
  if -2 ^ 31 ≤ v ∧ v < 2 ^ 31 then some v else none

structure Receiver where
  serverIp : List Char
  serverPort : UInt16
  deriving DecidableEq

def serverIpSize : Nat := 64

def parseTarget (target : List Char) : Option Receiver :=
  -- up to the first colon the address, behind it the port
  match strchr target ':' with
  | some colon =>
    (atoi (colon.drop 1)).map fun port =>
      ⟨(target.takeWhile (· != ':')).take (serverIpSize - 1), UInt16.ofInt port⟩
  | none => some ⟨target.take (serverIpSize - 1), 3389⟩

def mainTarget (target : List Char) : Option Receiver :=
  -- main takes the default port for port 0
  (parseTarget target).map fun r => if r.serverPort = 0 then { r with serverPort := 3389 } else r

-- cmd_incsync keeps port 0
def incsyncTarget (target : List Char) : Option Receiver := parseTarget target

/-- What snprintf writes for `%s:%d` into an array of 256. -/
def remoteId (r : Receiver) : List Char :=
  (r.serverIp ++ ':' :: Nat.toDigits 10 r.serverPort.toNat).take 255

structure Receiver.Valid (r : Receiver) : Prop where
  short : r.serverIp.length ≤ serverIpSize - 1
  no_colon : ':' ∉ r.serverIp

theorem parseTarget_valid {target : List Char} {r : Receiver} (h : parseTarget target = some r) :
    r.Valid := by
  unfold parseTarget at h
  split at h
  · obtain ⟨port, -, rfl⟩ := Option.map_eq_some_iff.mp h
    refine ⟨List.length_take_le _ _, fun member => ?_⟩
    have before := List.mem_takeWhile_imp (List.mem_of_mem_take member)
    simp at before
  next none_found =>
    cases h
    refine ⟨List.length_take_le _ _, fun member => ?_⟩
    obtain ⟨before, after, split, clear⟩ :=
      List.eq_append_cons_of_mem (List.mem_of_mem_take member)
    rw [split, strchr_append clear] at none_found
    cases none_found

theorem toDigits_port_length (port : UInt16) : (Nat.toDigits 10 port.toNat).length ≤ 5 := by
  have range := port.toNat_lt
  exact (Nat.length_toDigits_le_iff (by decide) (by decide)).mpr (by omega)

theorem digit_plain {c : Char} (digit : c.isDigit = true) :
    isSpace c = false ∧ c ≠ '-' ∧ c ≠ '+' := by
  have other {d : Char} (hd : d.isDigit = false) : c ≠ d := by
    rintro rfl
    rw [hd] at digit
    cases digit
  refine ⟨?_, other rfl, other rfl⟩
  simp [isSpace, other (d := ' ') rfl, other (d := '\t') rfl, other (d := '\n') rfl,
    other (d := '\x0b') rfl, other (d := '\x0c') rfl, other (d := '\r') rfl]

theorem atoi_toDigits (port : UInt16) :
    atoi (Nat.toDigits 10 port.toNat) = some (port.toNat : Int) := by
  have range := port.toNat_lt
  have digits : ∀ c ∈ Nat.toDigits 10 port.toNat, c.isDigit = true :=
    fun c member => Nat.isDigit_of_mem_toDigits (by decide) (by decide) member
  have value : Nat.ofDigitChars 10 (Nat.toDigits 10 port.toNat) 0 = port.toNat :=
    Nat.ofDigitChars_ten_toDigits
  generalize Nat.toDigits 10 port.toNat = text at digits value
  have all : text.takeWhile Char.isDigit = text := List.takeWhile_eq_self_iff.mpr digits
  have front : text.dropWhile isSpace = text := by
    cases text with
    | nil => rfl
    | cons c rest =>
      rw [List.dropWhile_cons_of_neg]
      simp [(digit_plain (digits c List.mem_cons_self)).1]
  unfold atoi
  rw [front]
  split
  · exact ((digit_plain (digits '-' List.mem_cons_self)).2.1 rfl).elim
  · exact ((digit_plain (digits '+' List.mem_cons_self)).2.2 rfl).elim
  · rw [all, value, if_pos (by omega)]

theorem Receiver.Valid.remoteId_eq {r : Receiver} (valid : r.Valid) :
    remoteId r = r.serverIp ++ ':' :: Nat.toDigits 10 r.serverPort.toNat := by
  have digits := toDigits_port_length r.serverPort
  have short := valid.short
  refine List.take_of_length_le ?_
  simp only [List.length_append, List.length_cons, serverIpSize] at short ⊢
  omega

theorem Receiver.Valid.parse_remoteId {r : Receiver} (valid : r.Valid) :
    parseTarget (remoteId r) = some r := by
  have found := strchr_append valid.no_colon (Nat.toDigits 10 r.serverPort.toNat)
  have address : (r.serverIp ++ ':' :: Nat.toDigits 10 r.serverPort.toNat).takeWhile (· != ':') =
      r.serverIp := by
    rw [List.takeWhile_append_of_pos, List.takeWhile_cons_of_neg, List.append_nil]
    · simp
    · intro c member
      simp only [bne_iff_ne, ne_eq]
      rintro rfl
      exact valid.no_colon member
  have port : UInt16.ofInt r.serverPort.toNat = r.serverPort := by
    have range := r.serverPort.toNat_lt
    apply UInt16.toNat.inj
    simp only [UInt16.ofInt, UInt16.toNat_ofNat']
    omega
  rw [valid.remoteId_eq, parseTarget, found]
  simp only [List.drop_succ_cons, List.drop_zero, atoi_toDigits, Option.map_some, address, port,
    List.take_of_length_le valid.short]

theorem Receiver.Valid.remoteId_inj {r r' : Receiver} (valid : r.Valid) (valid' : r'.Valid) :
    remoteId r = remoteId r' ↔ r = r' := by
  refine ⟨fun same => ?_, fun same => same ▸ rfl⟩
  have parsed := valid.parse_remoteId
  rw [same, valid'.parse_remoteId] at parsed
  exact (Option.some.inj parsed).symm

theorem mainTarget_cases {target : List Char} {r : Receiver} (h : mainTarget target = some r) :
    ∃ r', incsyncTarget target = some r' ∧
      r = if r'.serverPort = 0 then { r' with serverPort := 3389 } else r' := by
  obtain ⟨r', parsed, rfl⟩ := Option.map_eq_some_iff.mp h
  exact ⟨r', parsed, rfl⟩

theorem mainTarget_valid {target : List Char} {r : Receiver} (h : mainTarget target = some r) :
    r.Valid ∧ r.serverPort ≠ 0 := by
  obtain ⟨r', parsed, rfl⟩ := mainTarget_cases h
  have valid := parseTarget_valid parsed
  split
  · exact ⟨⟨valid.short, valid.no_colon⟩, (by decide : (3389 : UInt16) ≠ 0)⟩
  next other => exact ⟨valid, other⟩

/-- Two targets have one remote id exactly when they name the same address and port, the id given
as a target names the receiver again, and main and cmd_incsync agree on a target unless its port
is read as 0. -/
theorem remoteId_identifies (target target' : List Char) (r r' : Receiver)
    (h : mainTarget target = some r) (h' : incsyncTarget target' = some r') :
    (remoteId r = remoteId r' ↔ r = r') ∧
      mainTarget (remoteId r) = some r ∧ incsyncTarget (remoteId r') = some r' ∧
      (target = target' → (remoteId r = remoteId r' ↔ r'.serverPort ≠ 0)) := by
  obtain ⟨valid, port⟩ := mainTarget_valid h
  have valid' := parseTarget_valid h'
  refine ⟨valid.remoteId_inj valid', ?_, valid'.parse_remoteId, fun same => ?_⟩
  · rw [mainTarget, valid.parse_remoteId, Option.map_some, if_neg port]
  · subst same
    rw [valid.remoteId_inj valid']
    constructor
    · rintro rfl
      exact port
    · intro other
      obtain ⟨r'', parsed, rfl⟩ := mainTarget_cases h
      rw [h'] at parsed
      cases parsed
      rw [if_neg other]

def localTarget : List Char := "127.0.0.1:3400".toList

theorem remoteId_identifies_local :
    mainTarget localTarget = some ⟨"127.0.0.1".toList, 3400⟩ ∧
      mainTarget (remoteId ⟨"127.0.0.1".toList, 3400⟩) = some ⟨"127.0.0.1".toList, 3400⟩ :=
  have parsed : mainTarget localTarget = some ⟨"127.0.0.1".toList, 3400⟩ := by decide +kernel
  ⟨parsed, (remoteId_identifies localTarget localTarget _ _ parsed (by decide +kernel :
    incsyncTarget localTarget = some ⟨"127.0.0.1".toList, 3400⟩)).2.1⟩

end Go2Cloud.Target
