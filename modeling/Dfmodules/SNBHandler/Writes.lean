import Dfmodules.AsyncIo.Errors
import Dfmodules.SNBHandler.Basic

/-!
# What `store` guarantees about its writes

* The cursor. Every call accepts at most one write, of one block from the caller's buffer; the
  `k`-th accepted write is at `MIN_OFFSET + k * m_block_size` while that sum fits a `long long`,
  so for a positive multiple of `4096` the writes are page aligned, past the reserved head, and
  each starts past the end of every earlier one (`store_write_cursor`). A call whose `write`
  throws leaves `m_sent_ops` alone.
* The drain. When a call returns, whatever the kernel did, no unit is in flight and every write
  accepted so far has had its callback run exactly once (`store_serialises_writes`), provided the
  block's unit count is exact (`AsyncIo.InRange`). A call that `io_submit` refuses still counts in
  no completion: `m_completed_ops` counts accepted writes, not calls
  (`rejected_call_not_counted`).
* The backpressure test. With nothing in flight a call can return exactly when the block costs
  fewer than the `128` units of `AsyncIO(128)` (`store_returns_iff`). `SNBWriter` builds its
  handler with `m_io_size = 1024*1048576` bytes, `13107` units: its first `store` spins in the
  backpressure loop forever (`store_spins_at_writer_block_size`).
* Alignment. Neither the constructor nor `store` nor `AsyncIO::_submit_operation` looks at
  alignment: whatever the block size, aligned to `4096` or not, the write goes to `io_submit` as
  it is, at `MIN_OFFSET + m_sent_ops * m_block_size`, and what the kernel answers decides. A
  refusal throws `_io_submit_error` with nothing in flight changed; an accepted and completed
  write returns like any other (`store_leaves_alignment_to_kernel`).
* A lost completion. When a `retrieveCompletions` throws on a short completion, the units of the
  batch it abandoned stay counted though the kernel no longer holds their iocbs. From then on no
  `store` call returns, whatever the kernel does and however many calls follow
  (`store_stalls_after_lost_units`): each one either throws or spins in its drain loop.
  `Store.steps` reads one call as a run of the engine, so that `AsyncIo.Steps.gap_le` applies,
  and `Calls` is a sequence of later calls.
-/

namespace Dfmodules.SNBHandler

open AsyncIo

/-! ## The write cursor -/

/-- While `MIN_OFFSET + (k + 1) * B` fits a `long long`, the offset `store` passes for
`m_sent_ops = k` is the exact `4096 + k * B`. -/
theorem toLongLong_sequentialOffset {k B : ℕ} (hfit : 4096 + (k + 1) * B ≤ 2 ^ 63 - 1) :
    toLongLong (sequentialOffset (k % 2 ^ 64) B) = 4096 + k * B := by
  rcases Nat.eq_zero_or_pos B with rfl | hB
  · simp [sequentialOffset, toLongLong]
  · have h1 : (k + 1) * B = k * B + B := Nat.succ_mul k B
    have h2 : k ≤ k * B := Nat.le_mul_of_pos_right k hB
    rw [Nat.mod_eq_of_lt (by omega : k < 2 ^ 64)]
    simp only [sequentialOffset, toLongLong]
    rw [Nat.mod_eq_of_lt (by omega : k * B < 2 ^ 64),
      Nat.mod_eq_of_lt (by omega : 4096 + k * B < 2 ^ 64), if_pos (by omega)]
    push_cast
    rfl

/-- The offset of the `j`-th accepted write of a run, read off `Invariant.offsets`. -/
theorem Invariant.offset_getElem {ok : IoEvent Bool → Prop} {B : ℕ} {fd : ℤ} {h : SNBHandler}
    (ih : Invariant ok B fd h) {j : ℕ} (hj : j < h.mAsyncio.submitted.length) :
    h.mAsyncio.submitted[j].req.offset = toLongLong (sequentialOffset (j % 2 ^ 64) B) := by
  have := congrArg (·[j]?) ih.offsets
  simpa [hj] using this

/-- A call on an engine with nothing in flight that accepts and completes its write leaves
nothing in flight. -/
theorem storeImmediate_inflightOps {h : SNBHandler} (h0 : h.mAsyncio.inflightOps = 0)
    (membuffer : ℕ) (testFinished : Bool) :
    (storeImmediate h membuffer testFinished).mAsyncio.inflightOps = 0 := by
  have hg := getOperations_lt h.mBlockSize
  simp only [storeImmediate, withAsyncio_mAsyncio, AsyncIo.complete, AsyncIo.submitTail, if_pos,
    Outcome.state, h0, zero_add, writeRequest, setOffset_mBlockSize, Nat.mod_eq_of_lt hg]
  omega

/-- The write-cursor law of `store` for a block size `B` that is a positive multiple of `4096`:
a call accepts nothing and leaves `m_sent_ops` alone, or accepts exactly one `pwrite` of `B`
bytes from its buffer, `k` writes having been accepted before it; while
`4096 + (k + 1) * B ≤ 2^63 - 1` that write is at `4096 + k * B`, page aligned, and every earlier
write lies at or past `4096`, before it, and ends at or before its offset. -/
theorem store_write_cursor {ok : IoEvent Bool → Prop} {B : ℕ} {fd : ℤ} {h : SNBHandler}
    {membuffer : ℕ} {testFinished : Bool} {o : Outcome SNBHandler} (hB : 0 < B)
    (hB4 : B % 4096 = 0) (hr : Reachable ok B fd h) (hs : Store ok membuffer testFinished h o) :
    (o.state.mSentOps = h.mSentOps ∧ o.state.mAsyncio.submitted = h.mAsyncio.submitted) ∨
      ∃ w : Iocb Bool, o.state.mSentOps = (h.mSentOps + 1) % 2 ^ 64 ∧
        o.state.mAsyncio.submitted = h.mAsyncio.submitted ++ [w] ∧
        w.req.opcode = .pwrite ∧ w.req.fd = fd ∧ w.req.buffer = membuffer ∧ w.req.ioSize = B ∧
        (4096 + (h.mAsyncio.submitted.length + 1) * B ≤ 2 ^ 63 - 1 →
          w.req.offset = 4096 + h.mAsyncio.submitted.length * B ∧ (4096 : ℤ) ∣ w.req.offset ∧
          ∀ w' ∈ h.mAsyncio.submitted, 4096 ≤ w'.req.offset ∧ w'.req.offset < w.req.offset ∧
            w'.req.offset + B ≤ w.req.offset) := by
  have ih := hr.invariant
  obtain ⟨a, -, -, hcase, -⟩ := hs.spec
  rcases hcase with ⟨hst, hsub⟩ | ⟨hst, d, hsub⟩
  · exact .inl ⟨by simp [hst], by simp [hst, hsub]⟩
  refine .inr ⟨⟨h.setOffset.writeRequest membuffer testFinished, d⟩, by simp [hst],
    by simp [hst, hsub], rfl, by simp [writeRequest, ih.descriptor], rfl,
    by simp [writeRequest, ih.block], fun hfit => ?_⟩
  set n := h.mAsyncio.submitted.length
  have hoff : (h.setOffset.writeRequest membuffer testFinished).offset = 4096 + n * B := by
    simp only [writeRequest, setOffset, ih.sentOps, ih.block]
    exact toLongLong_sequentialOffset hfit
  have h4 : (4096 : ℤ) ∣ B := by exact_mod_cast Nat.dvd_of_mod_eq_zero hB4
  refine ⟨hoff, hoff ▸ Int.dvd_add (Int.dvd_refl _) (h4.mul_left _), fun w' hw' => ?_⟩
  -- the `j`-th earlier write, at `4096 + j * B` with `j + 1 ≤ n`
  obtain ⟨j, hj, rfl⟩ := List.getElem_of_mem hw'
  have hjn : (j + 1) * B ≤ n * B := Nat.mul_le_mul_right _ hj
  have h1 : (j + 1) * B = j * B + B := Nat.succ_mul j B
  have h2 : (n + 1) * B = n * B + B := Nat.succ_mul n B
  rw [ih.offset_getElem hj, toLongLong_sequentialOffset (by omega), hoff]
  exact_mod_cast (by omega :
    4096 ≤ 4096 + j * B ∧ 4096 + j * B < 4096 + n * B ∧ 4096 + j * B + B ≤ 4096 + n * B)

/-- The second call on `init 4096 3`, after a first one whose block was accepted and completed:
the second block goes to `8192`, past the end of the first. -/
theorem store_write_cursor_second_block :
    let h := storeImmediate (init 4096 3) 0 false
    ((storeImmediate h 0 false).mSentOps = h.mSentOps ∧
        (storeImmediate h 0 false).mAsyncio.submitted = h.mAsyncio.submitted) ∨
      ∃ w : Iocb Bool,
        (storeImmediate h 0 false).mSentOps = (h.mSentOps + 1) % 2 ^ 64 ∧
        (storeImmediate h 0 false).mAsyncio.submitted = h.mAsyncio.submitted ++ [w] ∧
        w.req.opcode = .pwrite ∧ w.req.fd = 3 ∧ w.req.buffer = 0 ∧ w.req.ioSize = 4096 ∧
        (4096 + (h.mAsyncio.submitted.length + 1) * 4096 ≤ 2 ^ 63 - 1 →
          w.req.offset = 4096 + (h.mAsyncio.submitted.length * 4096 : ℕ) ∧
          (4096 : ℤ) ∣ w.req.offset ∧
          ∀ w' ∈ h.mAsyncio.submitted, 4096 ≤ w'.req.offset ∧
            w'.req.offset < w.req.offset ∧ w'.req.offset + (4096 : ℕ) ≤ w.req.offset) :=
  store_write_cursor (by decide) (by decide)
    (.store 0 false .init (store_storeImmediate (h := init 4096 3) rfl rfl))
    (store_storeImmediate (h := storeImmediate (init 4096 3) 0 false)
      (storeImmediate_inflightOps rfl _ _) rfl)

/-- A block size of `0` is a multiple of `4096` too: on `init 0 3` two calls, each write accepted
and completed at once, both write at `4096`. -/
theorem zero_block_rewrites_min_offset :
    Store FullSize 0 false (init 0 3) (.returned (storeImmediate (init 0 3) 0 false)) ∧
      Store FullSize 0 false (storeImmediate (init 0 3) 0 false)
        (.returned (storeImmediate (storeImmediate (init 0 3) 0 false) 0 false)) ∧
      (storeImmediate (storeImmediate (init 0 3) 0 false) 0 false).mAsyncio.submitted.map
        (·.req.offset) = [4096, 4096] :=
  ⟨store_storeImmediate rfl rfl, store_storeImmediate rfl rfl, rfl⟩

/-! ## The drain -/

/-- `store` serialises its writes, whatever the kernel does, for a block size whose unit count
`_getOperations` returns exactly: when a call returns, no unit is in flight, the kernel holds no
write, every write accepted so far, this call's included, has had its callback run exactly once,
and `m_completed_ops` is the number of accepted writes made with `test_finished = false`, modulo
`2^64`. -/
theorem store_serialises_writes {ok : IoEvent Bool → Prop} {B : ℕ} {fd : ℤ} {h h' : SNBHandler}
    {membuffer : ℕ} {testFinished : Bool} (hB : InRange B) (hr : Reachable ok B fd h)
    (hs : Store ok membuffer testFinished h (.returned h')) :
    h'.mAsyncio.getIncompleOps = 0 ∧ h'.mAsyncio.ctx = [] ∧
      (∀ w ∈ h'.mAsyncio.submitted, h'.mAsyncio.invoked.count w = 1) ∧
      h'.mCompletedOps = completedBy h'.mAsyncio.submitted % 2 ^ 64 := by
  obtain ⟨a, -, -, hcase, h0⟩ := hs.spec
  have ih : Invariant ok B fd h' := (hr.store membuffer testFinished hs).invariant
  have hsa : h'.mAsyncio = a := by
    rcases hcase with ⟨hst, -⟩ | ⟨hst, -⟩ <;> exact congrArg SNBHandler.mAsyncio hst
  have h0' : h'.mAsyncio.inflightOps = 0 := hsa ▸ h0 h' rfl
  have hin : ∀ r ∈ h'.mAsyncio.submitted, InRange r.req.ioSize := fun r hr =>
    (ih.writes r hr).2.2 ▸ hB
  have hA := accounting_of_reachable (by decide) (by decide) ih.engine hin
  obtain ⟨hnil, hp⟩ := hA.settled hin h0'
  refine ⟨h0', hnil, fun w hw => ?_, ?_⟩
  · rw [hp.count_eq, List.count_eq_one_of_mem hA.nodup hw]
  · rw [ih.completedOps, completedBy, completedBy, (hp.filter _).length_eq]

/-- The first call on `init 4096 3`, the kernel accepting and completing the block at once. -/
theorem store_serialises_first_block :
    (storeImmediate (init 4096 3) 0 false).mAsyncio.getIncompleOps = 0 ∧
      (storeImmediate (init 4096 3) 0 false).mAsyncio.ctx = [] ∧
      (∀ w ∈ (storeImmediate (init 4096 3) 0 false).mAsyncio.submitted,
        (storeImmediate (init 4096 3) 0 false).mAsyncio.invoked.count w = 1) ∧
      (storeImmediate (init 4096 3) 0 false).mCompletedOps =
        completedBy (storeImmediate (init 4096 3) 0 false).mAsyncio.submitted % 2 ^ 64 :=
  store_serialises_writes (by decide) .init (store_storeImmediate rfl rfl)

/-- On `init 4096 3` a first call made with `test_finished = false` throws `_io_submit_error(-11)`
and a second one returns, its block written and completed: after two such calls
`m_completed_ops` is `1`. -/
theorem rejected_call_not_counted :
    Store FullSize 0 false (init 4096 3) (.threw (.ioSubmit (-11)) (init 4096 3).storeRejected) ∧
      Store FullSize 0 false (init 4096 3).storeRejected
        (.returned (storeImmediate (init 4096 3).storeRejected 0 false)) ∧
      (storeImmediate (init 4096 3).storeRejected 0 false).mCompletedOps = 1 :=
  ⟨store_storeRejected (by decide) rfl, store_storeImmediate rfl rfl, rfl⟩

/-! ## The writer's block size -/

/-- `SNBWriter` builds its handler with `m_io_size = 1024*1048576` bytes and `SNBHandler::init`
builds `AsyncIO(128)`. With nothing in flight, `_getOperations` counts `13107` units for the
block, the backpressure test of the first `store` is true, and no `store` call on that handler
ever ends, by returning or by throwing, whatever the kernel does. -/
theorem store_spins_at_writer_block_size (ok : IoEvent Bool → Prop) (fd : ℤ) (membuffer : ℕ)
    (testFinished : Bool) (o : Outcome SNBHandler) :
    (init (1024 * 1048576) fd).mAsyncio.getIncompleOps = 0 ∧
      getOperations (1024 * 1048576) = 13107 ∧
      (init (1024 * 1048576) fd).mAsyncio.mustWait (1024 * 1048576) = true ∧
      ¬ Store ok membuffer testFinished (init (1024 * 1048576) fd) o :=
  have hw : (AsyncIo.init 128 : AsyncIo Bool).mustWait (1024 * 1048576) = true := rfl
  ⟨rfl, rfl, hw, fun hs => Bool.false_ne_true ((hs.mustWait_of_ctx_nil rfl).symm.trans hw)⟩

/-- On a handler whose engine holds nothing and has no unit in flight, as after `init` and after
every call that returned, a `store` call can return, the kernel accepting the block and
completing it, exactly when the block's unit count is below the `128` of `AsyncIO(128)`; and a
call that ends at all, by returning or throwing, under any kernel, needs that bound. -/
theorem store_returns_iff {h : SNBHandler} {membuffer : ℕ} {testFinished : Bool}
    (hc : h.mAsyncio.ctx = []) (h0 : h.mAsyncio.inflightOps = 0)
    (hmax : h.mAsyncio.maxConcurrentOps = 128) :
    ((∃ h', Store FullSize membuffer testFinished h (.returned h')) ↔
        getOperations h.mBlockSize < 128) ∧
      ∀ (ok : IoEvent Bool → Prop) (o : Outcome SNBHandler),
        Store ok membuffer testFinished h o → getOperations h.mBlockSize < 128 := by
  have hg := getOperations_lt h.mBlockSize
  have hw_iff : h.mAsyncio.mustWait h.mBlockSize = false ↔ getOperations h.mBlockSize < 128 := by
    simp only [mustWait, h0, hmax, zero_add, decide_eq_false_iff_not, ge_iff_le, not_le]
    rw [Nat.mod_eq_of_lt hg]
  have hends (ok : IoEvent Bool → Prop) (o : Outcome SNBHandler)
      (hs : Store ok membuffer testFinished h o) : getOperations h.mBlockSize < 128 :=
    hw_iff.mp (hs.mustWait_of_ctx_nil hc)
  exact ⟨⟨fun ⟨_, hs⟩ => hends _ _ hs, fun hlt => ⟨_, store_storeImmediate h0 (hw_iff.mpr hlt)⟩⟩,
    hends⟩

/-- The handler `init 4096 3` after a first call whose page was written and completed: its
page-sized block costs one unit. -/
theorem store_returns_iff_after_one_block :
    let h := storeImmediate (init 4096 3) 0 false
    ((∃ h', Store FullSize 0 false h (.returned h')) ↔ getOperations h.mBlockSize < 128) ∧
      ∀ (ok : IoEvent Bool → Prop) (o : Outcome SNBHandler),
        Store ok 0 false h o → getOperations h.mBlockSize < 128 :=
  store_returns_iff rfl (storeImmediate_inflightOps rfl _ _) rfl

/-! ## No alignment check -/

/-- Alignment is left to the kernel. For every block size, a multiple of `4096` or not, and every
handler reached by `store` calls under any kernel whose backpressure test passes, the call hands
`io_submit` its write as it is: a `pwrite` of `m_block_size` bytes from the caller's buffer at
`MIN_OFFSET + m_sent_ops * m_block_size`, with no check in between. What `io_submit` answers
decides. When it refuses the write, as the kernel does with `-EINVAL` for a misaligned `O_DIRECT`
write, `store` throws `_io_submit_error(ret)` with `_inflight_ops`, the kernel's iocbs, the
accepted writes and `m_sent_ops` as they were. When it accepts the write and completes it, with
nothing else in flight, `store` returns as for any other write. -/
theorem store_leaves_alignment_to_kernel {ok : IoEvent Bool → Prop} {B : ℕ} {fd : ℤ}
    {h : SNBHandler} {membuffer : ℕ} {testFinished : Bool} (hr : Reachable ok B fd h)
    (hw : h.mAsyncio.mustWait B = false) (ret : ℤ) :
    SubmitOperation ok
        ⟨.pwrite, fd, toLongLong (sequentialOffset h.mSentOps B), membuffer, B, testFinished⟩
        h.mAsyncio
        (h.mAsyncio.submitTail
          ⟨.pwrite, fd, toLongLong (sequentialOffset h.mSentOps B), membuffer, B, testFinished⟩
          ret) ∧
      (ret ≠ 1 → Store ok membuffer testFinished h (.threw (.ioSubmit ret) h.storeRejected) ∧
        h.storeRejected.mAsyncio.inflightOps = h.mAsyncio.inflightOps ∧
        h.storeRejected.mAsyncio.ctx = h.mAsyncio.ctx ∧
        h.storeRejected.mAsyncio.submitted = h.mAsyncio.submitted ∧
        h.storeRejected.mSentOps = h.mSentOps) ∧
      (h.mAsyncio.inflightOps = 0 →
        Store FullSize membuffer testFinished h (.returned (storeImmediate h membuffer testFinished))) := by
  have ih := hr.invariant
  have hw' : h.mAsyncio.mustWait h.mBlockSize = false := ih.block ▸ hw
  have hreq : h.setOffset.writeRequest membuffer testFinished =
      ⟨.pwrite, fd, toLongLong (sequentialOffset h.mSentOps B), membuffer, B, testFinished⟩ := by
    simp [writeRequest, setOffset, ih.block, ih.descriptor]
  refine ⟨hreq ▸ .submit ret (.exit hw'),
    fun hret => ⟨store_storeRejected hret hw', rfl, rfl, rfl, rfl⟩,
    fun h0 => store_storeImmediate h0 hw'⟩

/-- The handler `SNBHandler(path, 1000)` after a first call whose `1000` bytes at `4096` were
written: the second write, at `5096`, reaches `io_submit`, and a refusal with `-EINVAL` throws. -/
theorem store_leaves_alignment_to_kernel_thousand :
    let h := storeImmediate (init 1000 3) 0 false
    SubmitOperation FullSize
        ⟨.pwrite, 3, toLongLong (sequentialOffset h.mSentOps 1000), 0, 1000, false⟩ h.mAsyncio
        (h.mAsyncio.submitTail
          ⟨.pwrite, 3, toLongLong (sequentialOffset h.mSentOps 1000), 0, 1000, false⟩ (-22)) ∧
      ((-22 : ℤ) ≠ 1 → Store FullSize 0 false h (.threw (.ioSubmit (-22)) h.storeRejected) ∧
        h.storeRejected.mAsyncio.inflightOps = h.mAsyncio.inflightOps ∧
        h.storeRejected.mAsyncio.ctx = h.mAsyncio.ctx ∧
        h.storeRejected.mAsyncio.submitted = h.mAsyncio.submitted ∧
        h.storeRejected.mSentOps = h.mSentOps) ∧
      (h.mAsyncio.inflightOps = 0 →
        Store FullSize 0 false h (.returned (storeImmediate h 0 false))) :=
  store_leaves_alignment_to_kernel
    (.store 0 false .init (store_storeImmediate (h := init 1000 3) rfl rfl)) rfl (-22)

/-- For every block size whose unit count fits `AsyncIO(128)`, a multiple of `4096` or not, the
first two `store` calls of a fresh handler hand `io_submit` writes of that many bytes at
`MIN_OFFSET` and at `MIN_OFFSET + m_block_size`, and both calls return when the kernel accepts and
completes them: no error is raised for a misaligned size or offset. -/
theorem store_submits_unaligned {B : ℕ} (fd : ℤ) (membuffer : ℕ) (testFinished : Bool)
    (hB : getOperations B < 128) :
    Store FullSize membuffer testFinished (init B fd)
        (.returned (storeImmediate (init B fd) membuffer testFinished)) ∧
      Store FullSize membuffer testFinished (storeImmediate (init B fd) membuffer testFinished)
        (.returned (storeImmediate (storeImmediate (init B fd) membuffer testFinished) membuffer
          testFinished)) ∧
      (storeImmediate (storeImmediate (init B fd) membuffer testFinished) membuffer
          testFinished).mAsyncio.submitted.map (·.req) =
        [⟨.pwrite, fd, 4096, membuffer, B, testFinished⟩,
          ⟨.pwrite, fd, toLongLong (sequentialOffset 1 B), membuffer, B, testFinished⟩] := by
  have hg := getOperations_lt B
  have hw (h : SNBHandler) (h0 : h.mAsyncio.inflightOps = 0) (hm : h.mAsyncio.maxConcurrentOps = 128)
      (hb : h.mBlockSize = B) : h.mAsyncio.mustWait h.mBlockSize = false := by
    simp only [mustWait, h0, hm, hb, zero_add, Nat.mod_eq_of_lt hg, decide_eq_false_iff_not]
    omega
  refine ⟨store_storeImmediate rfl (hw _ rfl rfl rfl),
    store_storeImmediate (storeImmediate_inflightOps rfl _ _)
      (hw _ (storeImmediate_inflightOps rfl _ _) rfl rfl), ?_⟩
  simp [storeImmediate, AsyncIo.submitTail, AsyncIo.complete, Outcome.state, writeRequest,
    setOffset, sent, init, AsyncIo.init, sequentialOffset, toLongLong]

/-- A handler built with `m_block_size = 1000`: writes of `1000` bytes at `4096` and `5096`. -/
theorem store_submits_unaligned_thousand :
    Store FullSize 0 false (init 1000 3) (.returned (storeImmediate (init 1000 3) 0 false)) ∧
      Store FullSize 0 false (storeImmediate (init 1000 3) 0 false)
        (.returned (storeImmediate (storeImmediate (init 1000 3) 0 false) 0 false)) ∧
      (storeImmediate (storeImmediate (init 1000 3) 0 false) 0 false).mAsyncio.submitted.map (·.req) =
        [⟨.pwrite, 3, 4096, 0, 1000, false⟩,
          ⟨.pwrite, 3, toLongLong (sequentialOffset 1 1000), 0, 1000, false⟩] :=
  store_submits_unaligned 3 0 false (by decide)

/-! ## A lost completion -/

section Stall

variable {ok : IoEvent Bool → Prop}

/-- One `store` call runs the engine from its state before the call to its state after. -/
theorem Store.steps {membuffer : ℕ} {testFinished : Bool} {h : SNBHandler}
    {o : Outcome SNBHandler} (hs : Store ok membuffer testFinished h o) :
    Steps ok h.mAsyncio o.state.mAsyncio := by
  cases hs with
  | writeThrew hw => exact hw.steps
  | retrieveThrew hw hr => exact hw.steps.trans (.retrieve hr (.refl _))
  | drain hw hr hl => simpa using hw.steps.trans (.retrieve hr hl.steps)

/-- On a handler of `InRange` blocks with more units in flight than the kernel holds, a `store`
call does not return, and the excess stays for the next call: the drain loop waits for units that
no iocb in the kernel carries. -/
theorem Store.stalls {blockSize : ℕ} {fd : ℤ} {h : SNBHandler}
    {o : Outcome SNBHandler} {membuffer : ℕ} {testFinished : Bool}
    (hB : InRange blockSize) (hr : Reachable ok blockSize fd h)
    (hl : units h.mAsyncio.ctx < h.mAsyncio.inflightOps) (hs : Store ok membuffer testFinished h o) :
    (∀ h', o ≠ .returned h') ∧ units o.state.mAsyncio.ctx < o.state.mAsyncio.inflightOps := by
  have hinv := (hr.store membuffer testFinished hs).invariant
  have hin (r) (hr' : r ∈ o.state.mAsyncio.submitted) : InRange r.req.ioSize :=
    (hinv.writes r hr').2.2 ▸ hB
  have hgap := hs.steps.gap_le (by decide) (by decide) hr.invariant.engine hin
  have hle := (accounting_of_reachable (by decide) (by decide) hinv.engine hin).units_ctx_le
  have hlost : units o.state.mAsyncio.ctx < o.state.mAsyncio.inflightOps := by omega
  refine ⟨fun h' ho => ?_, hlost⟩
  -- a call returns only with no unit in flight
  obtain ⟨a, -, -, hcase, hret⟩ := hs.spec
  have ha : o.state.mAsyncio = a := by rcases hcase with ⟨hst, -⟩ | ⟨hst, -⟩ <;> simp [hst]
  rw [ha, hret h' ho] at hlost
  exact Nat.not_lt_zero _ hlost

/-- The handler states a sequence of later `store` calls leads to from `h`, each call returning
or throwing. -/
inductive Calls (ok : IoEvent Bool → Prop) : SNBHandler → SNBHandler → Prop
  | refl (h : SNBHandler) : Calls ok h h
  | store {h h' : SNBHandler} {o : Outcome SNBHandler} (membuffer : ℕ) (testFinished : Bool) :
      Store ok membuffer testFinished h o → Calls ok o.state h' → Calls ok h h'

/-- Over every sequence of later calls, the handler stays reachable and the excess stays. -/
theorem Calls.stalled {blockSize : ℕ} {fd : ℤ} {h h' : SNBHandler} (hB : InRange blockSize)
    (hr : Reachable ok blockSize fd h) (hl : units h.mAsyncio.ctx < h.mAsyncio.inflightOps)
    (hc : Calls ok h h') :
    Reachable ok blockSize fd h' ∧ units h'.mAsyncio.ctx < h'.mAsyncio.inflightOps := by
  induction hc with
  | refl => exact ⟨hr, hl⟩
  | store membuffer testFinished hs _ ih =>
    exact ih (hr.store membuffer testFinished hs) (hs.stalls hB hr hl).2

/-- On a handler of `InRange` blocks, once more units are in flight than the kernel holds, as after
a `retrieveCompletions` that threw on a short completion, no later `store` call returns, whatever
the kernel does: after any sequence of calls, the next one throws or spins in its drain loop, and
the excess stays for the call after it. -/
theorem store_stalls_after_lost_units {blockSize : ℕ} {fd : ℤ} {h h' : SNBHandler}
    {o : Outcome SNBHandler} {membuffer : ℕ} {testFinished : Bool}
    (hB : InRange blockSize) (hr : Reachable ok blockSize fd h)
    (hl : units h.mAsyncio.ctx < h.mAsyncio.inflightOps) (hc : Calls ok h h')
    (hs : Store ok membuffer testFinished h' o) :
    (∀ h'', o ≠ .returned h'') ∧ units o.state.mAsyncio.ctx < o.state.mAsyncio.inflightOps :=
  have hh' := hc.stalled hB hr hl
  hs.stalls hB hh'.1 hh'.2

/-- A handler of page-sized blocks whose first write came back with `res = 0`, then two calls
whose writes `io_submit` refuses. -/
theorem store_stalls_after_short_first_write :
    (∀ h', Outcome.threw (.ioSubmit 0) (storeShort (init 4096 3) 0 false).storeRejected.storeRejected ≠
        .returned h') ∧
      units (storeShort (init 4096 3) 0 false).storeRejected.storeRejected.mAsyncio.ctx <
        (storeShort (init 4096 3) 0 false).storeRejected.storeRejected.mAsyncio.inflightOps :=
  store_stalls_after_lost_units (by decide)
    (.store 0 false (.init : Reachable (fun _ => True) 4096 3 (init 4096 3))
      (store_storeShort (h := init 4096 3) (show (0 : ℕ) ≠ (init 4096 3).mBlockSize by decide) rfl
        trivial))
    (by decide)
    (.store 0 false (store_storeRejected (h := storeShort (init 4096 3) 0 false)
      (show (0 : ℤ) ≠ 1 by decide) rfl) (.refl _))
    (store_storeRejected (h := (storeShort (init 4096 3) 0 false).storeRejected)
      (show (0 : ℤ) ≠ 1 by decide) rfl : Store (fun _ => True) 0 false _ _)

end Stall

end Dfmodules.SNBHandler
