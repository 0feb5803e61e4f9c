import Dfmodules.AsyncIo.Accounting

/-!
# `SNBHandler::store`: one block write, then a drain

`SNBHandler` (`SNBHandler.hpp`, the third part of `FakeFragRec.cpp`) writes one block per
`store` call. It sets `file_offset = MIN_OFFSET + (m_sent_ops * m_block_size)`, submits a `pwrite`
of `m_block_size` bytes from the caller's buffer with `AsyncIO::write`, increments `m_sent_ops`,
calls `retrieveCompletions` once, and then again while `getIncompleOps() != 0`. The callback each
call creates increments `m_completed_ops` unless the call's `test_finished` is set.

`MIN_OFFSET` is the `long long` `4096LL` and the product a `size_t`, so the sum is computed in
`unsigned long long` (`sequentialOffset`), stored in the `size_t` `file_offset`, and converted to
the `long long` parameter of `write` (`toLongLong`). A call returns or throws, keeping what it
changed either way (`Store`); `Reachable` collects the handler's states between the calls of any
sequence of `store` calls after `init`. `Store.spec` says once what one call can do, and
`Reachable.invariant` is the one induction over runs built on it.
-/

namespace Dfmodules

/-- The members of `SNBHandler` that `store` reads or writes: the `size_t` members
`m_block_size`, `m_sent_ops`, `m_completed_ops` and `file_offset`, the engine behind `m_asyncio`,
and `m_fd`. The engine's callbacks are the lambdas of `store`, each known by the `test_finished`
it captured. -/
structure SNBHandler where
  mBlockSize : ℕ
  mSentOps : ℕ
  mCompletedOps : ℕ
  fileOffset : ℕ
  mAsyncio : AsyncIo Bool
  mFd : ℤ

/-- A call's ending seen from an object whose state `f` computes from the callee's. -/
def Outcome.map {σ τ : Type} (f : σ → τ) : Outcome σ → Outcome τ
  | .returned s => .returned (f s)
  | .threw e s => .threw e (f s)

@[simp]
theorem Outcome.state_map {σ τ : Type} (f : σ → τ) (o : Outcome σ) : (o.map f).state = f o.state := by
  cases o <;> rfl

namespace SNBHandler

/-- `SNBHandler(path, block_size, isRandom)` followed by `init()`: the block size, the zero
initialisers of the other members, the descriptor `getFD()` returned, and `AsyncIO(128)`. -/
def init (blockSize : ℕ) (fd : ℤ) : SNBHandler := ⟨blockSize, 0, 0, 0, AsyncIo.init 128, fd⟩

/-- `MIN_OFFSET + (m_sent_ops * m_block_size)`: the `size_t` product, then the sum in
`unsigned long long`. -/
def sequentialOffset (sentOps blockSize : ℕ) : ℕ := (4096 + sentOps * blockSize % 2 ^ 64) % 2 ^ 64

/-- A 64-bit unsigned value converted to `long long`. -/
def toLongLong (n : ℕ) : ℤ := if n < 2 ^ 63 then n else (n : ℤ) - 2 ^ 64

/-- The callbacks among `rs` that increment `m_completed_ops`: those of calls made with
`test_finished = false`. -/
def completedBy (rs : List (Iocb Bool)) : ℕ := (rs.filter fun r => !r.req.callback).length

/-- The handler once its engine has moved on to `a`: each callback that ran meanwhile, each iocb
`a.invoked` gained, did `m_completed_ops++` unless its `test_finished` was set. -/
def withAsyncio (h : SNBHandler) (a : AsyncIo Bool) : SNBHandler :=
  { h with
    mAsyncio := a
    mCompletedOps :=
      (h.mCompletedOps + completedBy (a.invoked.drop h.mAsyncio.invoked.length)) % 2 ^ 64 }

/-- `file_offset = MIN_OFFSET + (m_sent_ops * m_block_size)`. -/
def setOffset (h : SNBHandler) : SNBHandler :=
  { h with fileOffset := sequentialOffset h.mSentOps h.mBlockSize }

/-- `m_sent_ops++`. -/
def sent (h : SNBHandler) : SNBHandler := { h with mSentOps := (h.mSentOps + 1) % 2 ^ 64 }

/-- The request of `m_asyncio->write(m_fd, file_offset, membuffer, m_block_size, callback)`. -/
def writeRequest (h : SNBHandler) (membuffer : ℕ) (testFinished : Bool) : Request Bool :=
  ⟨.pwrite, h.mFd, toLongLong h.fileOffset, membuffer, h.mBlockSize, testFinished⟩

@[simp] theorem withAsyncio_mAsyncio (h : SNBHandler) (a : AsyncIo Bool) :
    (h.withAsyncio a).mAsyncio = a := rfl
@[simp] theorem withAsyncio_mSentOps (h : SNBHandler) (a : AsyncIo Bool) :
    (h.withAsyncio a).mSentOps = h.mSentOps := rfl
@[simp] theorem withAsyncio_mBlockSize (h : SNBHandler) (a : AsyncIo Bool) :
    (h.withAsyncio a).mBlockSize = h.mBlockSize := rfl
@[simp] theorem withAsyncio_mFd (h : SNBHandler) (a : AsyncIo Bool) :
    (h.withAsyncio a).mFd = h.mFd := rfl
@[simp] theorem setOffset_mAsyncio (h : SNBHandler) : h.setOffset.mAsyncio = h.mAsyncio := rfl
@[simp] theorem setOffset_mSentOps (h : SNBHandler) : h.setOffset.mSentOps = h.mSentOps := rfl
@[simp] theorem setOffset_mCompletedOps (h : SNBHandler) :
    h.setOffset.mCompletedOps = h.mCompletedOps := rfl
@[simp] theorem setOffset_mBlockSize (h : SNBHandler) : h.setOffset.mBlockSize = h.mBlockSize := rfl
@[simp] theorem setOffset_mFd (h : SNBHandler) : h.setOffset.mFd = h.mFd := rfl
@[simp] theorem sent_mAsyncio (h : SNBHandler) : h.sent.mAsyncio = h.mAsyncio := rfl
@[simp] theorem sent_mSentOps (h : SNBHandler) : h.sent.mSentOps = (h.mSentOps + 1) % 2 ^ 64 := rfl
@[simp] theorem sent_mCompletedOps (h : SNBHandler) : h.sent.mCompletedOps = h.mCompletedOps := rfl
@[simp] theorem sent_mBlockSize (h : SNBHandler) : h.sent.mBlockSize = h.mBlockSize := rfl
@[simp] theorem sent_mFd (h : SNBHandler) : h.sent.mFd = h.mFd := rfl

/-! ## Calls over the kernel's answers -/

variable (ok : IoEvent Bool → Prop)

/-- `SNBHandler::store(membuffer, test_finished, coreID)`, the kernel returning events that
satisfy `ok`: `write` throws (in its backpressure loop or at `io_submit`); or it returns and the
first `retrieveCompletions` throws; or both return and the drain loop ends, by a false test or in
a throw. `SetAffinityThread(coreID)` changes nothing the model keeps. -/
inductive Store (membuffer : ℕ) (testFinished : Bool) (h : SNBHandler) : Outcome SNBHandler → Prop
  | writeThrew {e : AioError} {a : AsyncIo Bool} :
      AsyncIo.SubmitOperation ok (h.setOffset.writeRequest membuffer testFinished) h.mAsyncio
        (.threw e a) →
      Store membuffer testFinished h (.threw e (h.setOffset.withAsyncio a))
  | retrieveThrew {e : AioError} {a a' : AsyncIo Bool} :
      AsyncIo.SubmitOperation ok (h.setOffset.writeRequest membuffer testFinished) h.mAsyncio
        (.returned a) →
      AsyncIo.Retrieve ok a (.threw e a') →
      Store membuffer testFinished h (.threw e (h.setOffset.sent.withAsyncio a'))
  | drain {a a' : AsyncIo Bool} {o : Outcome (AsyncIo Bool)} :
      AsyncIo.SubmitOperation ok (h.setOffset.writeRequest membuffer testFinished) h.mAsyncio
        (.returned a) →
      AsyncIo.Retrieve ok a (.returned a') →
      AsyncIo.RetrieveLoop ok (fun a => a.getIncompleOps != 0) a' o →
      Store membuffer testFinished h (o.map h.setOffset.sent.withAsyncio)

/-- The states of the handler `init blockSize fd` between the calls of a sequence of `store`
calls, each returning or throwing. -/
inductive Reachable (blockSize : ℕ) (fd : ℤ) : SNBHandler → Prop
  | init : Reachable blockSize fd (init blockSize fd)
  | store {h : SNBHandler} {o : Outcome SNBHandler} (membuffer : ℕ) (testFinished : Bool) :
      Reachable blockSize fd h → Store ok membuffer testFinished h o → Reachable blockSize fd o.state

variable {ok}

/-! ## What one call does -/

/-- One `store` call: its engine moves from `h.mAsyncio` to some `a` by calls of the engine;
either `write` threw, accepting nothing, or it accepted the request `writeRequest` and
`m_sent_ops` moved on; and the call returns only from a drain loop that found no unit in
flight. -/
theorem Store.spec {membuffer : ℕ} {testFinished : Bool} {h : SNBHandler}
    {o : Outcome SNBHandler} (hs : Store ok membuffer testFinished h o) :
    ∃ a, AsyncIo.Grows h.mAsyncio a ∧
      (∀ c, AsyncIo.Reachable ok c h.mAsyncio → AsyncIo.Reachable ok c a) ∧
      ((o.state = h.setOffset.withAsyncio a ∧ a.submitted = h.mAsyncio.submitted) ∨
        (o.state = h.setOffset.sent.withAsyncio a ∧
          ∃ d, a.submitted = h.mAsyncio.submitted ++
            [⟨h.setOffset.writeRequest membuffer testFinished, d⟩])) ∧
      (∀ h', o = .returned h' → a.inflightOps = 0) := by
  cases hs with
  | writeThrew hw =>
    exact ⟨_, hw.grows, fun _ hc => hw.reachable hc, .inl ⟨rfl, hw.submitted.2 _ _ rfl⟩,
      fun _ h' => nomatch h'⟩
  | retrieveThrew hw hr =>
    obtain ⟨d, hd⟩ := hw.submitted.1 _ rfl
    exact ⟨_, hw.grows.trans hr.grows, fun _ hc => (hw.reachable hc).retrieve hr,
      .inr ⟨rfl, d, hr.submitted.trans hd⟩, fun _ h' => nomatch h'⟩
  | @drain a a' o hw hr hl =>
    obtain ⟨d, hd⟩ := hw.submitted.1 _ rfl
    refine ⟨o.state, hw.grows.trans (hr.grows.trans hl.grows),
      fun _ hc => hl.reachable ((hw.reachable hc).retrieve hr),
      .inr ⟨Outcome.state_map _ _, d, hl.submitted.trans (hr.submitted.trans hd)⟩, fun h' ho => ?_⟩
    cases o with
    | returned a'' => simpa [AsyncIo.getIncompleOps] using hl.cond_false
    | threw => cases ho

/-- A call on a handler whose engine holds nothing ends, by returning or throwing, only if the
backpressure test of its `write` is false at once. -/
theorem Store.mustWait_of_ctx_nil {membuffer : ℕ} {testFinished : Bool} {h : SNBHandler}
    {o : Outcome SNBHandler} (hs : Store ok membuffer testFinished h o) (hc : h.mAsyncio.ctx = []) :
    h.mAsyncio.mustWait h.mBlockSize = false := by
  cases hs with
  | writeThrew hw => exact hw.mustWait_of_ctx_nil hc
  | retrieveThrew hw => exact hw.mustWait_of_ctx_nil hc
  | drain hw => exact hw.mustWait_of_ctx_nil hc

/-! ## Three kernels, computed -/

/-- `store` when `io_submit` returns `ret ≠ 1`: `_io_submit_error` throws out of `write`, after
the `new callback_data` and before `_inflight_ops` changes. -/
def storeRejected (h : SNBHandler) : SNBHandler :=
  h.setOffset.withAsyncio { h.mAsyncio with nextData := h.mAsyncio.nextData + 1 }

/-- `store` when `io_submit` accepts the write and the first `io_getevents` returns its full
completion. -/
def storeImmediate (h : SNBHandler) (membuffer : ℕ) (testFinished : Bool) : SNBHandler :=
  h.setOffset.sent.withAsyncio
    ({ (h.mAsyncio.submitTail (h.setOffset.writeRequest membuffer testFinished) 1).state with
        ctx := h.mAsyncio.ctx }.complete
      ⟨h.setOffset.writeRequest membuffer testFinished, h.mAsyncio.nextData⟩)

theorem store_storeRejected {h : SNBHandler} {membuffer : ℕ} {testFinished : Bool} {ret : ℤ}
    (hret : ret ≠ 1) (hw : h.mAsyncio.mustWait h.mBlockSize = false) :
    Store ok membuffer testFinished h (.threw (.ioSubmit ret) h.storeRejected) := by
  have hs : AsyncIo.SubmitOperation ok (h.setOffset.writeRequest membuffer testFinished) h.mAsyncio
      (h.mAsyncio.submitTail (h.setOffset.writeRequest membuffer testFinished) ret) :=
    .submit ret (.exit hw)
  rw [AsyncIo.submitTail, if_neg hret] at hs
  exact .writeThrew hs

/-- `store` when `io_submit` accepts the write and the first `io_getevents` returns it with a `res`
other than `m_block_size`: `retrieveCompletions` throws with the write out of the kernel, its
callback not run and its units still in flight. -/
def storeShort (h : SNBHandler) (membuffer : ℕ) (testFinished : Bool) : SNBHandler :=
  h.setOffset.sent.withAsyncio
    { (h.mAsyncio.submitTail (h.setOffset.writeRequest membuffer testFinished) 1).state with
        ctx := h.mAsyncio.ctx }

/-- With room for the block, `write` can return with the block accepted, and the next
`io_getevents` can hand out that iocb alone, with any `res`. -/
theorem accepted_then_returned {h : SNBHandler} {membuffer : ℕ} {testFinished : Bool} (res : ℕ)
    (hw : h.mAsyncio.mustWait h.mBlockSize = false)
    (hok : ok ⟨⟨h.setOffset.writeRequest membuffer testFinished, h.mAsyncio.nextData⟩, res⟩) :
    AsyncIo.SubmitOperation ok (h.setOffset.writeRequest membuffer testFinished) h.mAsyncio
        (.returned
          (h.mAsyncio.submitTail (h.setOffset.writeRequest membuffer testFinished) 1).state) ∧
      AsyncIo.Retrieve ok
        (h.mAsyncio.submitTail (h.setOffset.writeRequest membuffer testFinished) 1).state
        (AsyncIo.processEvents
          { (h.mAsyncio.submitTail (h.setOffset.writeRequest membuffer testFinished) 1).state with
            ctx := h.mAsyncio.ctx }
          [⟨⟨h.setOffset.writeRequest membuffer testFinished, h.mAsyncio.nextData⟩, res⟩]) := by
  have hmax : 1 ≤ h.mAsyncio.maxConcurrentOps := by
    simp only [AsyncIo.mustWait, decide_eq_false_iff_not] at hw
    omega
  exact ⟨.submit 1 (.exit hw), .mk _ _ ⟨List.perm_append_comm, hmax⟩ (by simpa using hok)⟩

/-- With nothing in flight and room for the block, a kernel that accepts the write and completes
it at once makes `store` return. -/
theorem store_storeImmediate {h : SNBHandler} {membuffer : ℕ} {testFinished : Bool}
    (h0 : h.mAsyncio.inflightOps = 0) (hw : h.mAsyncio.mustWait h.mBlockSize = false) :
    Store AsyncIo.FullSize membuffer testFinished h
      (.returned (storeImmediate h membuffer testFinished)) := by
  have hfull : AsyncIo.FullSize
      (⟨⟨h.setOffset.writeRequest membuffer testFinished, h.mAsyncio.nextData⟩, h.mBlockSize⟩ :
        IoEvent Bool) := rfl
  obtain ⟨hs, hr⟩ := accepted_then_returned h.mBlockSize hw hfull
  rw [AsyncIo.processEvents_cons_of_fullSize hfull] at hr
  refine .drain hs hr (.exit ?_)
  have hg := AsyncIo.getOperations_lt h.mBlockSize
  simp only [AsyncIo.getIncompleOps, AsyncIo.complete, AsyncIo.submitTail, h0, if_pos,
    Outcome.state, writeRequest, setOffset_mBlockSize, bne_eq_false_iff_eq]
  omega

theorem store_storeShort {h : SNBHandler} {membuffer : ℕ} {testFinished : Bool} {res : ℕ}
    (hres : res ≠ h.mBlockSize) (hw : h.mAsyncio.mustWait h.mBlockSize = false)
    (hok : ok ⟨⟨h.setOffset.writeRequest membuffer testFinished, h.mAsyncio.nextData⟩, res⟩) :
    Store ok membuffer testFinished h
      (.threw (.incomplete res h.mBlockSize membuffer) (storeShort h membuffer testFinished)) := by
  have hshort : ¬ AsyncIo.FullSize
      (⟨⟨h.setOffset.writeRequest membuffer testFinished, h.mAsyncio.nextData⟩, res⟩ :
        IoEvent Bool) := hres
  obtain ⟨hs, hr⟩ := accepted_then_returned res hw hok
  rw [AsyncIo.processEvents_cons_of_not_fullSize hshort] at hr
  exact .retrieveThrew hs hr

/-! ## What every run keeps -/

@[simp]
theorem completedBy_append (l₁ l₂ : List (Iocb Bool)) :
    completedBy (l₁ ++ l₂) = completedBy l₁ + completedBy l₂ := by
  simp [completedBy]

/-- While the engine's completed iocbs only grow, `m_completed_ops` keeps counting those created
with `test_finished = false`. -/
theorem withAsyncio_mCompletedOps {h : SNBHandler} {a : AsyncIo Bool}
    (hc : h.mCompletedOps = completedBy h.mAsyncio.invoked % 2 ^ 64)
    (hp : h.mAsyncio.invoked <+: a.invoked) :
    (h.withAsyncio a).mCompletedOps = completedBy a.invoked % 2 ^ 64 := by
  obtain ⟨t, ht⟩ := hp
  simp only [withAsyncio, ← ht, List.drop_left, completedBy_append, hc]
  omega

/-- What holds between the calls of every run, whatever the kernel does: the engine is a
reachable state of `AsyncIO(128)`, block size and descriptor are those of `init`,
`m_completed_ops` counts the callbacks that ran with `test_finished = false`, and the accepted
iocbs are `m_sent_ops` writes (modulo `2^64`) of one block each, the `k`-th at the offset `store`
computes from `m_sent_ops = k`. -/
structure Invariant (ok : IoEvent Bool → Prop) (blockSize : ℕ) (fd : ℤ) (h : SNBHandler) :
    Prop where
  engine : AsyncIo.Reachable ok 128 h.mAsyncio
  block : h.mBlockSize = blockSize
  descriptor : h.mFd = fd
  completedOps : h.mCompletedOps = completedBy h.mAsyncio.invoked % 2 ^ 64
  sentOps : h.mSentOps = h.mAsyncio.submitted.length % 2 ^ 64
  writes : ∀ w ∈ h.mAsyncio.submitted,
    w.req.opcode = .pwrite ∧ w.req.fd = fd ∧ w.req.ioSize = blockSize
  offsets : h.mAsyncio.submitted.map (·.req.offset) =
    (List.range h.mAsyncio.submitted.length).map
      fun k => toLongLong (sequentialOffset (k % 2 ^ 64) blockSize)

theorem Reachable.invariant {blockSize : ℕ} {fd : ℤ} {h : SNBHandler}
    (hr : Reachable ok blockSize fd h) : Invariant ok blockSize fd h := by
  induction hr with
  | init => exact ⟨.init, rfl, rfl, rfl, rfl, fun _ hw => (by cases hw), rfl⟩
  | @store h o membuffer testFinished _ hs ih =>
    obtain ⟨a, hg, hreach, hcase, -⟩ := hs.spec
    have hc (h' : SNBHandler) (h'a : h'.mAsyncio = h.mAsyncio)
        (h'c : h'.mCompletedOps = h.mCompletedOps) :
        (h'.withAsyncio a).mCompletedOps = completedBy a.invoked % 2 ^ 64 :=
      withAsyncio_mCompletedOps (by rw [h'a, h'c, ih.completedOps]) (h'a ▸ hg.invoked)
    rcases hcase with ⟨hst, hsub⟩ | ⟨hst, d, hsub⟩
    · rw [hst]
      exact ⟨hreach _ ih.engine, by simp [ih.block], by simp [ih.descriptor], hc _ rfl rfl,
        by simp [hsub, ih.sentOps], by simpa [hsub] using ih.writes,
        by simpa [hsub] using ih.offsets⟩
    · rw [hst]
      refine ⟨hreach _ ih.engine, by simp [ih.block], by simp [ih.descriptor], hc _ rfl rfl,
        by simp [hsub, ih.sentOps], ?_, ?_⟩
      · simp only [withAsyncio_mAsyncio, hsub, List.mem_append, List.mem_singleton]
        rintro w (hw | rfl)
        · exact ih.writes w hw
        · simp [writeRequest, ih.descriptor, ih.block]
      · simp [hsub, List.range_succ, ih.offsets, writeRequest, setOffset, ih.sentOps,
          ih.block]

end SNBHandler

end Dfmodules
