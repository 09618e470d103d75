import Go2Cloud.Client.Msgpack
import Go2Cloud.Lib.Transition

/-! The message buffer over its whole life (client/msgpack.c): any calls of init,
reset, encode and free, with malloc and realloc failing as they like. The flag of
a writer routine is its return value, so a run of calls goes on after a failed
encode with whatever that encode left behind. -/
namespace Go2Cloud.Msgpack
open Protocol Transition

inductive Call where
  | init
  | free
  | reset
  | encode (b : Block)

def msgpackWriterFree (s : WriterState) : WriterState := { s with writer := ⟨[], 0⟩ }

def call : Call → WriterOp
  | .init => fun s => some (true, writerInit s.heap)
  | .free => fun s => some (true, msgpackWriterFree s)
  | .reset => fun s => some (true, writerReset s)
  | .encode b => msgpackEncodeBlock b

/-- The caller does not look at the return value. -/
def callStep (s : WriterState) (c : Call) : Option WriterState := (call c s).map Prod.snd

def Call.Short : Call → Prop
  | .encode b => b.data.length < 2 ^ 32
  | _ => True

structure SafeAppend (data : List UInt8) (s : WriterState) : Prop where
  fits : s.writer.bytes.length ≤ s.writer.capacity
  growth : s.writer.capacity - s.writer.bytes.length < data.length →
    ∃ c, Grown data.length s c ∧ writerEnsure data.length s = some (realloc s c)
  inside : ∀ s', writerEnsure data.length s = some (true, s') →
    s'.writer.bytes = s.writer.bytes ∧
      s'.writer.bytes.length + data.length ≤ s'.writer.capacity
  kept : ∀ s', writerEnsure data.length s = some (false, s') → s'.writer = s.writer
  returns : ∃ flag s', writerAppend data s = some (flag, s') ∧
    s'.writer.bytes.length ≤ s'.writer.capacity ∧ (flag = false → s'.writer = s.writer)

theorem safeAppend_of_fits (data : List UInt8) {s : WriterState} (ok : s.Fits)
    (bound : s.writer.bytes.length + data.length < 2 ^ 62) : SafeAppend data s := by
  obtain ⟨flag, s₁, ensured, -, same, kept, room, -⟩ := writerEnsure_spec data.length ok bound
  obtain ⟨flag', s₂, appended, ok₂, kept₂, -, -⟩ := writerAppend_spec data ok bound
  refine ⟨ok.fits, fun small => ?_, fun s' h => ?_, fun s' h => ?_,
    flag', s₂, appended, ok₂.fits, kept₂⟩
  · rcases writerEnsure_cases data.length ok bound with ⟨enough, -⟩ | ⟨-, c, grown, -, moved⟩
    · omega
    · exact ⟨c, grown, moved⟩
  · obtain ⟨rfl, rfl⟩ := Prod.mk.inj (Option.some.inj (ensured.symm.trans h))
    exact ⟨same, by rw [same]; exact room rfl⟩
  · obtain ⟨rfl, rfl⟩ := Prod.mk.inj (Option.some.inj (ensured.symm.trans h))
    exact kept rfl

theorem appendAll_returns (chunks : List (List UInt8)) {s : WriterState} (ok : s.Fits)
    (bound : s.writer.bytes.length + chunks.flatten.length < 2 ^ 62) :
    ∃ flag s', appendAll chunks s = some (flag, s') ∧ s'.Fits := by
  induction chunks generalizing s with
  | nil => exact ⟨true, s, rfl, ok⟩
  | cons chunk chunks ih =>
    rw [List.flatten_cons, List.length_append] at bound
    obtain ⟨flag, m, first, okm, -, bytes, -⟩ := writerAppend_spec chunk ok (by omega)
    cases flag with
    | false => exact ⟨false, m, by simp only [appendAll, WriterOp.andThen, first], okm⟩
    | true =>
      obtain ⟨flag, s', rest, ok'⟩ := ih okm (by rw [bytes rfl, List.length_append]; omega)
      exact ⟨flag, s', by simp only [appendAll, WriterOp.andThen, first, rest], ok'⟩

theorem appendAll_safe {done later : List (List UInt8)} {chunk : List UInt8} {s m : WriterState}
    (ok : s.Fits)
    (bound : s.writer.bytes.length + (done ++ chunk :: later).flatten.length < 2 ^ 62)
    (before : appendAll done s = some (true, m)) : SafeAppend chunk m := by
  simp only [List.flatten_append, List.flatten_cons, List.length_append] at bound
  obtain ⟨flag, m', again, okm⟩ := appendAll_returns done ok (by omega)
  obtain ⟨-, rfl⟩ := Prod.mk.inj (Option.some.inj (before.symm.trans again))
  refine safeAppend_of_fits chunk okm ?_
  rw [appendAll_bytes before, List.length_append]
  omega

theorem fields_bound {b : Block} (short : b.data.length < 2 ^ 32) (s : WriterState) :
    (writerReset s).writer.bytes.length + (fields b).flatten.length < 2 ^ 62 := by
  have total := blockBytes_length_le b
  rw [← blockBytes_eq]
  simp only [writerReset, List.length_nil]
  omega

theorem writerReset_fits {s : WriterState} (ok : s.Fits) : (writerReset s).Fits :=
  ⟨Nat.zero_le _, ok.size⟩

theorem writerInit_fits (heap : List Bool) : (writerInit heap).Fits := by
  unfold writerInit
  split <;> exact ⟨Nat.zero_le _, by simp [sizeWrap, msgpackBufInitialCap]⟩

theorem msgpackEncodeBlock_returns {b : Block} (short : b.data.length < 2 ^ 32) {s : WriterState}
    (ok : s.Fits) : ∃ flag s', msgpackEncodeBlock b s = some (flag, s') ∧ s'.Fits := by
  rw [msgpackEncodeBlock, encodeFields_eq]
  exact appendAll_returns (fields b) (writerReset_fits ok) (fields_bound short s)

theorem callStep_fits {s : WriterState} (ok : s.Fits) {c : Call} (short : c.Short) :
    ∃ s', callStep s c = some s' ∧ s'.Fits := by
  cases c with
  | init => exact ⟨_, rfl, writerInit_fits s.heap⟩
  | free => exact ⟨_, rfl, Nat.le_refl _, by simp [msgpackWriterFree, sizeWrap]⟩
  | reset => exact ⟨_, rfl, writerReset_fits ok⟩
  | encode b =>
    obtain ⟨flag, s', encoded, ok'⟩ := msgpackEncodeBlock_returns short ok
    exact ⟨s', by simp only [callStep, call, encoded, Option.map_some], ok'⟩

theorem calls_fits {s : WriterState} (ok : s.Fits) {calls : List Call}
    (short : ∀ c ∈ calls, c.Short) : ∃ s', run callStep s calls = some s' ∧ s'.Fits := by
  induction calls generalizing s with
  | nil => exact ⟨s, rfl, ok⟩
  | cons c calls ih =>
    obtain ⟨m, first, okm⟩ := callStep_fits ok (short c List.mem_cons_self)
    obtain ⟨s', rest, ok'⟩ := ih okm fun d mem => short d (List.mem_cons_of_mem _ mem)
    exact ⟨s', by simp only [run, first, Option.bind_some, rest], ok'⟩

/-- After any calls the next encode comes only to safe appends, returns, and leaves
the block's bytes when it returns 0, whatever failed before. -/
theorem writer_safe (heap : List Bool) (calls : List Call) (short : ∀ c ∈ calls, c.Short) :
    ∃ s, run callStep (writerInit heap) calls = some s ∧
      s.writer.bytes.length ≤ s.writer.capacity ∧
      ∀ b : Block, b.data.length < 2 ^ 32 →
        (∃ flag s', msgpackEncodeBlock b s = some (flag, s') ∧
          s'.writer.bytes.length ≤ s'.writer.capacity ∧
          (flag = true → s'.writer.bytes = blockBytes b)) ∧
        ∀ done chunk later m, fields b = done ++ chunk :: later →
          appendAll done (writerReset s) = some (true, m) → SafeAppend chunk m := by
  obtain ⟨s, ran, ok⟩ := calls_fits (writerInit_fits heap) short
  refine ⟨s, ran, ok.fits, fun b fit => ⟨?_, ?_⟩⟩
  · obtain ⟨flag, s', encoded, ok'⟩ := msgpackEncodeBlock_returns fit ok
    refine ⟨flag, s', encoded, ok'.fits, ?_⟩
    rintro rfl
    exact msgpackEncodeBlock_bytes encoded
  · intro done chunk later m split before
    have bound := fields_bound fit s
    rw [split] at bound
    exact appendAll_safe (writerReset_fits ok) bound before

/-- malloc and the first realloc fail; the second encode starts from capacity 0. -/
theorem writer_safe_after_failures :
    ∃ s, run callStep (writerInit [false, false]) [.encode ⟨0, 0, [1]⟩, .encode ⟨1, 512, []⟩] =
      some s ∧ s.writer.bytes.length ≤ s.writer.capacity := by
  obtain ⟨s, ran, fits, -⟩ := writer_safe [false, false]
    [.encode ⟨0, 0, [1]⟩, .encode ⟨1, 512, []⟩] (by simp [Call.Short])
  exact ⟨s, ran, fits⟩

end Go2Cloud.Msgpack
