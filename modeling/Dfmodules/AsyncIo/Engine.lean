import Mathlib.Algebra.Order.Ring.Nat
import Mathlib.Algebra.BigOperators.Group.List
import Mathlib.Data.List.Perm.Subperm

/-!
# `AsyncIO`: kernel asynchronous I/O with a bound on in-flight units

`AsyncIO` (`AsyncIO.hpp`, implemented in the second part of `FakeFragRec.cpp`) submits one
`iocb` per `write` or `read` with `io_submit` and reaps completions with a non-blocking
`io_getevents`, running each operation's callback. It counts in-flight work in capacity units
(`_getOperations`: one unit per `16384*5` bytes), and before a submission it calls
`retrieveCompletions` until the new operation's units fit below `_max_concurrent_ops`.

The kernel is the environment. Its context `ctx` holds the accepted iocbs it has not returned;
`io_getevents` may return any of them, at most `_max_concurrent_ops`, in any order and with any
result (`GetEvents`), and `io_submit` may accept a submission or refuse it. The `unsigned` and
`int` arithmetic of the unit count is kept modulo `2^32`.

A C++ call ends by returning or by throwing, and in both cases the members it changed stay
changed: `Outcome` keeps the state either way. The `while` loops are big-step relations over the
kernel's answers (`RetrieveLoop`), and `Reachable` collects every state a sequence of calls passes
through, `io_getevents` returning only events that satisfy a predicate `ok`.
-/

namespace Dfmodules

/-- The operation `_submit_operation` prepares: `io_prep_pwrite` or `io_prep_pread`. -/
inductive Opcode
  | pwrite
  | pread
deriving DecidableEq, Repr

/-- The arguments of `AsyncIO::write` and `AsyncIO::read` with the operation they pass on: the
descriptor, the `long long` offset, the buffer address, the `size_t` size and the completion
callback, a value of `κ`. -/
structure Request (κ : Type) where
  opcode : Opcode
  fd : ℤ
  offset : ℤ
  buffer : ℕ
  ioSize : ℕ
  callback : κ
deriving DecidableEq, Repr

/-- A submitted `iocb`: the request it was prepared from and `iocb.data`, the address of the
`callback_data {io_size, buffer, callback}` allocated for it. -/
structure Iocb (κ : Type) where
  req : Request κ
  data : ℕ
deriving DecidableEq, Repr

/-- An `io_event`: the completed iocb and `res`, its byte count or negated error, an
`unsigned long`. -/
structure IoEvent (κ : Type) where
  obj : Iocb κ
  res : ℕ
deriving DecidableEq, Repr

/-- What `AsyncIO` throws: `_io_submit_error(ret)` on a refused submission, and the
`THROW_ERROR` of `retrieveCompletions` on an event whose `res` is not its `io_size`. -/
inductive AioError
  | ioSubmit (ret : ℤ)
  | incomplete (res ioSize buffer : ℕ)
deriving DecidableEq, Repr

/-- How a call ends: it returns, or it throws; the object keeps the state it had at that point. -/
inductive Outcome (σ : Type)
  | returned (s : σ)
  | threw (e : AioError) (s : σ)

/-- The state a call leaves its object in. -/
def Outcome.state {σ : Type} : Outcome σ → σ
  | .returned s => s
  | .threw _ s => s

/-- An `AsyncIO` with its kernel context: the `unsigned` members `_max_concurrent_ops` and
`_inflight_ops`, the iocbs the kernel accepted and has not returned, the address the next
`new callback_data` returns, and the record of the run: the iocbs accepted and the iocbs whose
callback ran, in order, and the `callback_data` addresses deleted. -/
structure AsyncIo (κ : Type) where
  maxConcurrentOps : ℕ
  inflightOps : ℕ
  ctx : List (Iocb κ)
  nextData : ℕ
  submitted : List (Iocb κ)
  invoked : List (Iocb κ)
  deleted : List ℕ

namespace AsyncIo

variable {κ : Type}

/-- `AsyncIO(maxConcurrentOps)` once `io_setup` has accepted the capacity. -/
def init (maxConcurrentOps : ℕ) : AsyncIo κ := ⟨maxConcurrentOps, 0, [], 0, [], [], []⟩

/-- `AsyncIO::_getOperations`: one unit up to `preferred_block_size = 16384*5` bytes, else the
`size_t` quotient `io_size / preferred_block_size`, returned as `int`. Its callers only add it
to or subtract it from the `unsigned` `_inflight_ops`, so the model keeps the `int`'s bits: the
quotient modulo `2^32`. -/
def getOperations (ioSize : ℕ) : ℕ :=
  if ioSize ≤ 16384 * 5 then 1 else ioSize / (16384 * 5) % 2 ^ 32

/-- `AsyncIO::getIncompleOps`. -/
def getIncompleOps (a : AsyncIo κ) : ℕ := a.inflightOps

/-- The condition of the backpressure loop of `_submit_operation`,
`_inflight_ops + _getOperations(io_size) >= _max_concurrent_ops`, in `unsigned` arithmetic. -/
def mustWait (a : AsyncIo κ) (ioSize : ℕ) : Bool :=
  (a.inflightOps + getOperations ioSize) % 2 ^ 32 ≥ a.maxConcurrentOps

/-- The capacity units of a list of iocbs. -/
def units (rs : List (Iocb κ)) : ℕ := (rs.map fun r => getOperations r.req.ioSize).sum

/-- `_submit_operation` after its backpressure loop, `io_submit` returning `ret`: a fresh
`callback_data`; on `ret = 1` the iocb enters the kernel context and
`_inflight_ops += _getOperations(io_size)`, otherwise `_io_submit_error(ret)` throws before the
increment and the `callback_data` is never freed. -/
def submitTail (a : AsyncIo κ) (req : Request κ) (ret : ℤ) : Outcome (AsyncIo κ) :=
  if ret = 1 then
    .returned { a with
      inflightOps := (a.inflightOps + getOperations req.ioSize) % 2 ^ 32
      ctx := a.ctx ++ [⟨req, a.nextData⟩]
      nextData := a.nextData + 1
      submitted := a.submitted ++ [⟨req, a.nextData⟩] }
  else .threw (.ioSubmit ret) { a with nextData := a.nextData + 1 }

/-- The body of the `for` loop of `retrieveCompletions` for an event reporting its full size: the
callback runs, `_inflight_ops -= _getOperations(data->io_size)` in `unsigned` arithmetic, and the
`callback_data` is deleted. -/
def complete (a : AsyncIo κ) (r : Iocb κ) : AsyncIo κ :=
  { a with
    inflightOps := (a.inflightOps + (2 ^ 32 - getOperations r.req.ioSize)) % 2 ^ 32
    invoked := a.invoked ++ [r]
    deleted := a.deleted ++ [r.data] }

/-- The `for` loop of `retrieveCompletions` over the events `io_getevents` returned. It throws at
the first event whose `res` is not its `io_size`, which abandons that event and every later one. -/
def processEvents : AsyncIo κ → List (IoEvent κ) → Outcome (AsyncIo κ)
  | a, [] => .returned a
  | a, e :: es =>
    if e.res = e.obj.req.ioSize then processEvents (a.complete e.obj) es
    else .threw (.incomplete e.res e.obj.req.ioSize e.obj.req.buffer) a

/-- What `io_getevents(_ctx, 0, _max_concurrent_ops, _completed_events, &timeout)` may do: hand
out `events`, at most `_max_concurrent_ops` of the context's iocbs, and keep `rest`. -/
def GetEvents (a : AsyncIo κ) (events : List (IoEvent κ)) (rest : List (Iocb κ)) : Prop :=
  a.ctx.Perm (events.map (·.obj) ++ rest) ∧ events.length ≤ a.maxConcurrentOps

/-- `AsyncIO::retrieveCompletions` when `io_getevents` hands out `events` and keeps `rest`. -/
def retrieveCompletions (a : AsyncIo κ) (events : List (IoEvent κ)) (rest : List (Iocb κ)) :
    Outcome (AsyncIo κ) :=
  processEvents { a with ctx := rest } events

/-- An event reporting its requested size, `event.res == data->io_size`: the completions on which
`retrieveCompletions` does not throw. -/
def FullSize (e : IoEvent κ) : Prop := e.res = e.obj.req.ioSize

theorem processEvents_cons_of_fullSize {a : AsyncIo κ} {e : IoEvent κ} (he : FullSize e)
    (es : List (IoEvent κ)) : processEvents a (e :: es) = processEvents (a.complete e.obj) es := by
  simp [processEvents, show e.res = e.obj.req.ioSize from he]

theorem processEvents_cons_of_not_fullSize {a : AsyncIo κ} {e : IoEvent κ} (he : ¬ FullSize e)
    (es : List (IoEvent κ)) :
    processEvents a (e :: es) = .threw (.incomplete e.res e.obj.req.ioSize e.obj.req.buffer) a := by
  simp [processEvents, show ¬ e.res = e.obj.req.ioSize from he]

/-- Over events that report their size the completion loop returns, having run the callback of
every event in order and left the rest of the engine's record alone. -/
theorem processEvents_of_fullSize {a : AsyncIo κ} {es : List (IoEvent κ)}
    (h : ∀ e ∈ es, FullSize e) :
    ∃ a', processEvents a es = .returned a' ∧ a'.maxConcurrentOps = a.maxConcurrentOps ∧
      a'.ctx = a.ctx ∧ a'.submitted = a.submitted ∧ a'.invoked = a.invoked ++ es.map (·.obj) := by
  induction es generalizing a with
  | nil => exact ⟨a, rfl, rfl, rfl, rfl, by simp⟩
  | cons e es ih =>
    obtain ⟨a', he, hm, hc, hs, hi⟩ := ih (a := a.complete e.obj) fun e' h' => h e' (by simp [h'])
    exact ⟨a', by rw [processEvents_cons_of_fullSize (h e (by simp)), he], hm, hc, hs,
      by simp [hi, complete]⟩

/-! ## Calls over the kernel's answers -/

variable (ok : IoEvent κ → Prop)

/-- One call of `retrieveCompletions`, `io_getevents` returning events that satisfy `ok`. -/
inductive Retrieve (a : AsyncIo κ) : Outcome (AsyncIo κ) → Prop
  | mk (events : List (IoEvent κ)) (rest : List (Iocb κ)) :
      GetEvents a events rest → (∀ e ∈ events, ok e) →
      Retrieve a (retrieveCompletions a events rest)

/-- The loop `while (cond) retrieveCompletions();`: it ends after its first false test, or in a
throw of `retrieveCompletions`. -/
inductive RetrieveLoop (cond : AsyncIo κ → Bool) : AsyncIo κ → Outcome (AsyncIo κ) → Prop
  | exit {a : AsyncIo κ} : cond a = false → RetrieveLoop cond a (.returned a)
  | threw {a a' : AsyncIo κ} {e : AioError} :
      cond a = true → Retrieve ok a (.threw e a') → RetrieveLoop cond a (.threw e a')
  | iterate {a a' : AsyncIo κ} {o : Outcome (AsyncIo κ)} :
      cond a = true → Retrieve ok a (.returned a') → RetrieveLoop cond a' o →
      RetrieveLoop cond a o

/-- `AsyncIO::_submit_operation`, and so `write` and `read`: the backpressure loop, then the
submission, `io_submit` returning `ret`. -/
inductive SubmitOperation (req : Request κ) (a : AsyncIo κ) : Outcome (AsyncIo κ) → Prop
  | submit {a' : AsyncIo κ} (ret : ℤ) :
      RetrieveLoop ok (mustWait · req.ioSize) a (.returned a') →
      SubmitOperation req a (submitTail a' req ret)
  | threw {a' : AsyncIo κ} {e : AioError} :
      RetrieveLoop ok (mustWait · req.ioSize) a (.threw e a') →
      SubmitOperation req a (.threw e a')

/-- The states a sequence of calls on `AsyncIO(c)` passes through: after every
`retrieveCompletions`, called by the user or by a backpressure loop, and after every submission,
accepted by `io_submit` or not. -/
inductive Reachable (c : ℕ) : AsyncIo κ → Prop
  | init : Reachable c (init c)
  | retrieve {a : AsyncIo κ} {o : Outcome (AsyncIo κ)} :
      Reachable c a → Retrieve ok a o → Reachable c o.state
  | submit {a : AsyncIo κ} (req : Request κ) (ret : ℤ) :
      Reachable c a → mustWait a req.ioSize = false → Reachable c (submitTail a req ret).state

variable {ok}

/-! ## What calls keep -/

/-- `a'` is a later state of `a`: the same capacity, and the records of accepted and of
completed iocbs only grow. -/
structure Grows (a a' : AsyncIo κ) : Prop where
  max : a'.maxConcurrentOps = a.maxConcurrentOps
  submitted : a.submitted <+: a'.submitted
  invoked : a.invoked <+: a'.invoked

theorem Grows.refl (a : AsyncIo κ) : Grows a a := ⟨rfl, List.prefix_refl _, List.prefix_refl _⟩

theorem Grows.trans {a a' a'' : AsyncIo κ} (h₁ : Grows a a') (h₂ : Grows a' a'') : Grows a a'' :=
  ⟨h₂.max.trans h₁.max, h₁.submitted.trans h₂.submitted, h₁.invoked.trans h₂.invoked⟩

theorem grows_processEvents (a : AsyncIo κ) (es : List (IoEvent κ)) :
    Grows a (processEvents a es).state := by
  induction es generalizing a with
  | nil => exact .refl a
  | cons e es ih =>
    simp only [processEvents]
    split
    · exact (⟨rfl, List.prefix_refl _, List.prefix_append _ _⟩ : Grows a (a.complete e.obj)).trans
        (ih _)
    · exact .refl a

theorem Retrieve.grows {a : AsyncIo κ} {o : Outcome (AsyncIo κ)} (h : Retrieve ok a o) :
    Grows a o.state := by
  obtain ⟨events, rest, -, -⟩ := h
  exact (⟨rfl, List.prefix_refl _, List.prefix_refl _⟩ : Grows a { a with ctx := rest }).trans
    (grows_processEvents _ events)

theorem grows_submitTail (a : AsyncIo κ) (req : Request κ) (ret : ℤ) :
    Grows a (submitTail a req ret).state := by
  unfold submitTail
  split
  · exact ⟨rfl, List.prefix_append _ _, List.prefix_refl _⟩
  · exact ⟨rfl, List.prefix_refl _, List.prefix_refl _⟩

theorem RetrieveLoop.grows {cond : AsyncIo κ → Bool} {a : AsyncIo κ} {o : Outcome (AsyncIo κ)}
    (h : RetrieveLoop ok cond a o) : Grows a o.state := by
  induction h with
  | exit => exact .refl _
  | threw _ hr => exact hr.grows
  | iterate _ hr _ ih => exact hr.grows.trans ih

theorem SubmitOperation.grows {req : Request κ} {a : AsyncIo κ} {o : Outcome (AsyncIo κ)}
    (h : SubmitOperation ok req a o) : Grows a o.state := by
  cases h with
  | submit ret hl => exact hl.grows.trans (grows_submitTail _ req ret)
  | threw hl => exact hl.grows

theorem Reachable.maxConcurrentOps {c : ℕ} {a : AsyncIo κ} (h : Reachable ok c a) :
    a.maxConcurrentOps = c := by
  induction h with
  | init => rfl
  | retrieve _ hr ih => exact hr.grows.max.trans ih
  | submit req ret _ _ ih => exact (grows_submitTail _ req ret).max.trans ih

/-! ## What calls leave alone -/

theorem processEvents_submitted (a : AsyncIo κ) (es : List (IoEvent κ)) :
    (processEvents a es).state.submitted = a.submitted := by
  induction es generalizing a with
  | nil => rfl
  | cons e es ih =>
    simp only [processEvents]
    split
    · exact ih _
    · rfl

theorem Retrieve.submitted {a : AsyncIo κ} {o : Outcome (AsyncIo κ)} (h : Retrieve ok a o) :
    o.state.submitted = a.submitted := by
  obtain ⟨events, rest, -, -⟩ := h
  exact processEvents_submitted _ events

theorem RetrieveLoop.submitted {cond : AsyncIo κ → Bool} {a : AsyncIo κ}
    {o : Outcome (AsyncIo κ)} (h : RetrieveLoop ok cond a o) : o.state.submitted = a.submitted := by
  induction h with
  | exit => rfl
  | threw _ hr => exact hr.submitted
  | iterate _ hr _ ih => exact ih.trans hr.submitted

/-- With the kernel holding nothing, `io_getevents` returns no event and `retrieveCompletions`
changes nothing. -/
theorem Retrieve.eq_of_ctx_nil {a : AsyncIo κ} {o : Outcome (AsyncIo κ)} (h : Retrieve ok a o)
    (hc : a.ctx = []) : o = .returned a := by
  obtain ⟨events, rest, ⟨hp, -⟩, -⟩ := h
  rw [hc] at hp
  obtain ⟨he, rfl⟩ := List.append_eq_nil.mp hp.symm.eq_nil
  rw [List.map_eq_nil_iff.mp he, ← hc]
  rfl

/-- A `retrieveCompletions` loop entered with the kernel holding nothing ends at once, and only if
its condition is already false: otherwise it spins forever. -/
theorem RetrieveLoop.eq_of_ctx_nil {cond : AsyncIo κ → Bool} {a : AsyncIo κ}
    {o : Outcome (AsyncIo κ)} (h : RetrieveLoop ok cond a o) (hc : a.ctx = []) :
    o = .returned a ∧ cond a = false := by
  induction h with
  | exit hf => exact ⟨rfl, hf⟩
  | threw _ hr => cases hr.eq_of_ctx_nil hc
  | iterate _ hr _ ih =>
    cases hr.eq_of_ctx_nil hc
    exact ih hc

/-- `_submit_operation` appends its iocb to the accepted ones when `io_submit` accepts it, and
accepts nothing when it throws. -/
theorem SubmitOperation.submitted {req : Request κ} {a : AsyncIo κ} {o : Outcome (AsyncIo κ)}
    (h : SubmitOperation ok req a o) :
    (∀ a', o = .returned a' → ∃ d, a'.submitted = a.submitted ++ [⟨req, d⟩]) ∧
      (∀ e a', o = .threw e a' → a'.submitted = a.submitted) := by
  cases h with
  | @submit a₁ ret hl =>
    have hs : a₁.submitted = a.submitted := hl.submitted
    unfold submitTail
    split
    · exact ⟨fun a' h' => ⟨a₁.nextData, by cases h'; simp [hs]⟩, fun _ _ h' => nomatch h'⟩
    · exact ⟨fun _ h' => (nomatch h'), fun _ _ h' => by cases h'; exact hs⟩
  | threw hl => exact ⟨fun _ h' => (nomatch h'), fun _ _ h' => by cases h'; exact hl.submitted⟩

/-- A submission made with the kernel holding nothing ends, by returning or throwing, only if its
backpressure test is false at once. -/
theorem SubmitOperation.mustWait_of_ctx_nil {req : Request κ} {a : AsyncIo κ}
    {o : Outcome (AsyncIo κ)} (h : SubmitOperation ok req a o) (hc : a.ctx = []) :
    a.mustWait req.ioSize = false := by
  cases h with
  | submit _ hl => exact (hl.eq_of_ctx_nil hc).2
  | threw hl => cases (hl.eq_of_ctx_nil hc).1

/-- Over events that report their size, `retrieveCompletions` returns. -/
theorem Retrieve.returned_of_fullSize {a : AsyncIo κ} {o : Outcome (AsyncIo κ)}
    (h : Retrieve FullSize a o) : ∃ a', o = .returned a' := by
  obtain ⟨events, rest, -, hf⟩ := h
  obtain ⟨a', he, -⟩ := processEvents_of_fullSize (a := { a with ctx := rest }) hf
  exact ⟨a', he⟩

/-- Over events that report their size, a `retrieveCompletions` loop that ends returns. -/
theorem RetrieveLoop.returned_of_fullSize {cond : AsyncIo κ → Bool} {a : AsyncIo κ}
    {o : Outcome (AsyncIo κ)} (h : RetrieveLoop FullSize cond a o) : ∃ a', o = .returned a' := by
  induction h with
  | exit => exact ⟨_, rfl⟩
  | threw _ hr => obtain ⟨_, h'⟩ := hr.returned_of_fullSize; cases h'
  | iterate _ _ _ ih => exact ih

theorem RetrieveLoop.cond_false {cond : AsyncIo κ → Bool} {a a' : AsyncIo κ}
    (h : RetrieveLoop ok cond a (.returned a')) : cond a' = false := by
  generalize ho : Outcome.returned a' = o at h
  induction h with
  | exit hc => cases ho; exact hc
  | threw => cases ho
  | iterate _ _ _ ih => exact ih ho

theorem RetrieveLoop.reachable {c : ℕ} {cond : AsyncIo κ → Bool} {a : AsyncIo κ}
    {o : Outcome (AsyncIo κ)} (h : RetrieveLoop ok cond a o) (ha : Reachable ok c a) :
    Reachable ok c o.state := by
  induction h with
  | exit => exact ha
  | threw _ hr => exact ha.retrieve hr
  | iterate _ hr _ ih => exact ih (ha.retrieve hr)

/-- Every state a call of `_submit_operation` ends in is reachable. -/
theorem SubmitOperation.reachable {c : ℕ} {req : Request κ} {a : AsyncIo κ}
    {o : Outcome (AsyncIo κ)} (h : SubmitOperation ok req a o) (ha : Reachable ok c a) :
    Reachable ok c o.state := by
  cases h with
  | submit ret hl => exact (hl.reachable ha).submit req ret hl.cond_false
  | threw hl => exact hl.reachable ha

end AsyncIo

end Dfmodules
