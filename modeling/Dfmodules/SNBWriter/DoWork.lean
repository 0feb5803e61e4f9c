import Mathlib.Data.List.Basic

/-!
# `SNBWriter::do_work`: staging payloads in the write buffer

`SNBWriter` passes every fragment of every trigger record it pops to its `SNBHandler` through one
staging buffer, `m_membuffer`, which `do_conf` allocates page-aligned with `AsyncIO::memalloc`:
`m_alloc_size = 1024*1048576` bytes (`SNBWriter.hpp`). For each fragment `do_work` copies the
fragment's `get_size()` bytes from its storage location to the start of the buffer with `memcpy`,
then calls `store` on the buffer. The second `do_work` of `SNBWriter.cpp`, over the members of
`SNBWriter_210130.hpp` (`membuffer_`, `m_alloc_size = 1048576`), first copies and stores the
record's header in the same way.

Neither version compares a size with anything. The model keeps the buffer's bytes, with its
allocation size in its type (`Membuffer`), and for each `store` call the bytes the buffer holds
when it is made; the `store` overloads these calls name are not in the sources, so the model stops
at the call. A copy longer than the allocation writes past its end: undefined behaviour, which
ends the run (`Staging.overran`). There is no other way for a payload not to be stored.

`stagePayloads_overran_iff`: a run overruns the buffer exactly when one of its payloads is longer
than the allocation; `doWork_copies_unchecked` reads it for both versions of `do_work`.
-/

namespace Dfmodules.SNBWriter

/-- The staging buffer: the bytes of an allocation of `allocSize` bytes. -/
structure Membuffer (allocSize : ℕ) where
  bytes : List UInt8
  size : bytes.length = allocSize

/-- `memcpy(m_membuffer, data_block, data_block_size)`, `data_block_size` being the payload's byte
count: the payload's bytes replace the first bytes of the buffer. A payload longer than the
allocation is written past its end, undefined behaviour: `none`. -/
def memcpy {A : ℕ} (dst : Membuffer A) (src : List UInt8) : Option (Membuffer A) :=
  if h : src.length ≤ A then
    some ⟨src ++ dst.bytes.drop src.length, by
      simp only [List.length_append, List.length_drop, dst.size]; omega⟩
  else none

example : (memcpy (⟨[0, 0, 0], rfl⟩ : Membuffer 3) [7]).map (·.bytes) = some [7, 0, 0] := by decide

theorem memcpy_of_le {A : ℕ} (dst : Membuffer A) {src : List UInt8} (h : src.length ≤ A) :
    ∃ buf, memcpy dst src = some buf ∧ buf.bytes = src ++ dst.bytes.drop src.length :=
  ⟨_, dif_pos h, rfl⟩

theorem memcpy_of_lt {A : ℕ} (dst : Membuffer A) {src : List UInt8} (h : A < src.length) :
    memcpy dst src = none :=
  dif_neg (by omega)

/-- How a run of the staging loop ends. -/
inductive Staging (A : ℕ)
  /-- Every payload copied and stored: the buffer afterwards, and what each `store` call found in
  the buffer. -/
  | stored (buf : Membuffer A) (calls : List (List UInt8))
  /-- The copy of `payload` ran past the end of the allocation, after the `store` calls `calls`. -/
  | overran (calls : List (List UInt8)) (payload : List UInt8)

/-- The run with a `store` call that found `call` in the buffer made before it. -/
def Staging.afterStore {A : ℕ} (call : List UInt8) : Staging A → Staging A
  | .stored buf calls => .stored buf (call :: calls)
  | .overran calls payload => .overran (call :: calls) payload

/-- The loop body of `do_work` over payloads in order: `memcpy` the payload to the start of the
buffer, then `store` the buffer. -/
def stagePayloads {A : ℕ} : Membuffer A → List (List UInt8) → Staging A
  | buf, [] => .stored buf []
  | buf, p :: ps =>
    match memcpy buf p with
    | none => .overran [] p
    | some buf' => (stagePayloads buf' ps).afterStore buf'.bytes

/-- A `dataformats::TriggerRecord` as `do_work` reads it: the bytes of its header
(`get_header().get_storage_location()`, `get_total_size_bytes()`) and of each of its fragments
(`get_storage_location()`, `get_size()`), in order. -/
structure TriggerRecordBytes where
  header : List UInt8
  fragments : List (List UInt8)

/-- `SNBWriter::do_work` over the records it pops, in order: the fragment loop of each record on
the one buffer (the header's copy and `store` are commented out). -/
def doWork {A : ℕ} (buf : Membuffer A) (records : List TriggerRecordBytes) : Staging A :=
  stagePayloads buf (records.flatMap (·.fragments))

/-- The header-writing `do_work` of the second half of `SNBWriter.cpp`: each record's header, then
its fragments. -/
def doWorkWithHeader {A : ℕ} (buf : Membuffer A) (records : List TriggerRecordBytes) :
    Staging A :=
  stagePayloads buf (records.flatMap fun r => r.header :: r.fragments)

theorem afterStore_overran_iff {A : ℕ} (call : List UInt8) (s : Staging A) :
    (∃ calls p, s.afterStore call = .overran calls p) ↔ ∃ calls p, s = .overran calls p := by
  cases s <;> simp [Staging.afterStore]

/-- No size is checked: a run of the loop overruns the buffer exactly when one of its payloads is
longer than the allocation. -/
theorem stagePayloads_overran_iff {A : ℕ} (buf : Membuffer A) (ps : List (List UInt8)) :
    (∃ calls p, stagePayloads buf ps = .overran calls p) ↔ ∃ p ∈ ps, A < p.length := by
  induction ps generalizing buf with
  | nil => simp [stagePayloads]
  | cons p ps ih =>
    by_cases hp : p.length ≤ A
    · obtain ⟨buf', hc, -⟩ := memcpy_of_le buf hp
      simp only [stagePayloads, hc, afterStore_overran_iff, ih, List.mem_cons, exists_eq_or_imp]
      exact ⟨.inr, fun h' => h'.resolve_left (by omega)⟩
    · simp only [stagePayloads, memcpy_of_lt buf (by omega : A < p.length)]
      exact ⟨fun _ => ⟨p, List.mem_cons_self _ _, by omega⟩, fun _ => ⟨[], p, rfl⟩⟩

/-- A run over records overruns the buffer exactly when one of the records' payloads is longer
than the allocation. -/
theorem stagePayloads_flatMap_overran_iff {A : ℕ} (buf : Membuffer A)
    (records : List TriggerRecordBytes) (payloads : TriggerRecordBytes → List (List UInt8)) :
    (∃ calls p, stagePayloads buf (records.flatMap payloads) = .overran calls p) ↔
      ∃ r ∈ records, ∃ p ∈ payloads r, A < p.length := by
  rw [stagePayloads_overran_iff]
  simp only [List.mem_flatMap]
  exact ⟨fun ⟨p, ⟨r, hr, hp⟩, hl⟩ => ⟨r, hr, p, hp, hl⟩, fun ⟨r, hr, p, hp, hl⟩ => ⟨p, ⟨r, hr, hp⟩, hl⟩⟩

/-- Both versions of `do_work` copy every payload, fragment or header, whatever its size: a run
over popped records overruns the staging buffer exactly when one of the payloads it copies is
longer than the allocation, and there is no other outcome than storing every payload. -/
theorem doWork_copies_unchecked {A : ℕ} (buf : Membuffer A) (records : List TriggerRecordBytes) :
    ((∃ calls p, doWork buf records = .overran calls p) ↔
        ∃ r ∈ records, ∃ p ∈ r.fragments, A < p.length) ∧
      ((∃ calls p, doWorkWithHeader buf records = .overran calls p) ↔
        ∃ r ∈ records, ∃ p ∈ r.header :: r.fragments, A < p.length) :=
  ⟨stagePayloads_flatMap_overran_iff buf records _, stagePayloads_flatMap_overran_iff buf records _⟩

end Dfmodules.SNBWriter
