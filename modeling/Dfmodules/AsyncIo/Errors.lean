import Dfmodules.AsyncIo.Accounting

/-!
# The two error paths of `AsyncIO`

`AsyncIO` throws in two places, and in both the engine keeps what it had done up to the throw.

* `_submit_operation` calls `_io_submit_error` when `io_submit` refuses the iocb. That is after
  the backpressure loop and before `_inflight_ops +=`, so the units in flight and the iocbs in the
  kernel are those the loop left, and the refused iocb never reaches the kernel: no later
  `retrieveCompletions` runs its callback (`refused_submission_keeps_engine`). Its
  `callback_data` is never deleted.
* `retrieveCompletions` throws at the first event whose `res` is not its `io_size`, in the middle
  of its loop over the batch `io_getevents` handed out. The events before it are processed; that
  event and every later one of the batch have left the kernel, but their callbacks have not run,
  their `callback_data` is not deleted and their units stay in `_inflight_ops`
  (`retrieve_throw_strands_batch`). From then on more units are in flight than the kernel holds,
  and no later call closes the gap (`Steps.gap_le`).

A throw of `retrieveCompletions` is also the only way out of a backpressure loop whose operation
alone needs the whole capacity: such a call never reaches `io_submit`
(`submitOperation_ends_iff`).

## Skeleton

* `processEvents_eq` — the completion loop processes the longest prefix of full-size events,
  then returns or throws at the next event; `Retrieve.eq_completeAll` is its form for one call.
* `Steps` — the runs of the engine from a given state, any later sequence of calls.
* `Steps.origin` — an iocb completed or held later was there already or was created later.
* `Steps.gap_le` — the units in flight beyond those the kernel holds never decrease.
* `RetrieveLoop.room`, `RetrieveLoop.threw_short` — a backpressure loop stops only with room for
  the operation, and throws only at a short completion.
-/

namespace Dfmodules.AsyncIo

variable {κ : Type}

/-! ## The completion loop, said once -/

/-- The engine after the body of the loop of `retrieveCompletions` ran for each of `rs` in turn. -/
def completeAll : AsyncIo κ → List (Iocb κ) → AsyncIo κ
  | a, [] => a
  | a, r :: rs => completeAll (a.complete r) rs

@[simp] theorem completeAll_nil (a : AsyncIo κ) : a.completeAll [] = a := rfl

@[simp] theorem completeAll_cons (a : AsyncIo κ) (r : Iocb κ) (rs : List (Iocb κ)) :
    a.completeAll (r :: rs) = (a.complete r).completeAll rs := rfl

@[simp] theorem completeAll_ctx (a : AsyncIo κ) (rs : List (Iocb κ)) :
    (a.completeAll rs).ctx = a.ctx := by
  induction rs generalizing a <;> simp [complete, *]

@[simp] theorem completeAll_nextData (a : AsyncIo κ) (rs : List (Iocb κ)) :
    (a.completeAll rs).nextData = a.nextData := by
  induction rs generalizing a <;> simp [complete, *]

@[simp] theorem completeAll_submitted (a : AsyncIo κ) (rs : List (Iocb κ)) :
    (a.completeAll rs).submitted = a.submitted := by
  induction rs generalizing a <;> simp [complete, *]

@[simp] theorem completeAll_invoked (a : AsyncIo κ) (rs : List (Iocb κ)) :
    (a.completeAll rs).invoked = a.invoked ++ rs := by
  induction rs generalizing a <;> simp [complete, *]

@[simp] theorem completeAll_deleted (a : AsyncIo κ) (rs : List (Iocb κ)) :
    (a.completeAll rs).deleted = a.deleted ++ rs.map (·.data) := by
  induction rs generalizing a <;> simp [complete, *]

/-- Without wrap-around, the loop takes the units of the iocbs it completes out of flight. -/
theorem completeAll_inflightOps {a : AsyncIo κ} {rs : List (Iocb κ)}
    (h : units rs ≤ a.inflightOps) (h' : a.inflightOps < 2 ^ 32) :
    (a.completeAll rs).inflightOps = a.inflightOps - units rs := by
  induction rs generalizing a with
  | nil => simp
  | cons r rs ih =>
    simp only [units_cons] at h ⊢
    have hstep : (a.complete r).inflightOps = a.inflightOps - getOperations r.req.ioSize := by
      simp only [complete]; omega
    rw [completeAll_cons, ih (by omega) (by omega), hstep]
    omega

/-- The loop of `retrieveCompletions` over a batch processes the longest prefix `p` of events that
report their size; it returns if that is the whole batch, and otherwise throws at the next event,
which does not, leaving the state `p` made. -/
theorem processEvents_eq (a : AsyncIo κ) (es : List (IoEvent κ)) :
    ∃ p q, es = p ++ q ∧ (∀ e ∈ p, FullSize e) ∧
      ((q = [] ∧ processEvents a es = .returned (a.completeAll (p.map (·.obj)))) ∨
        ∃ e q', q = e :: q' ∧ ¬ FullSize e ∧
          processEvents a es = .threw (.incomplete e.res e.obj.req.ioSize e.obj.req.buffer)
            (a.completeAll (p.map (·.obj)))) := by
  induction es generalizing a with
  | nil => exact ⟨[], [], rfl, by simp, .inl ⟨rfl, rfl⟩⟩
  | cons e es ih =>
    by_cases he : FullSize e
    · obtain ⟨p, q, rfl, hp, hq⟩ := ih (a.complete e.obj)
      refine ⟨e :: p, q, rfl, by simpa [he] using hp, ?_⟩
      rw [processEvents_cons_of_fullSize he]
      simpa using hq
    · exact ⟨[], e :: es, rfl, by simp,
        .inr ⟨e, es, rfl, he, processEvents_cons_of_not_fullSize he es⟩⟩

variable {ok : IoEvent κ → Prop}

/-- One call of `retrieveCompletions`: `io_getevents` splits the kernel's iocbs into a batch and
the rest, and the call ends in the state made by completing a prefix of the batch. -/
theorem Retrieve.eq_completeAll {a : AsyncIo κ} {o : Outcome (AsyncIo κ)} (h : Retrieve ok a o) :
    ∃ (events : List (IoEvent κ)) (rest : List (Iocb κ)) (p q : List (IoEvent κ)),
      GetEvents a events rest ∧ events = p ++ q ∧
      o.state = completeAll { a with ctx := rest } (p.map (·.obj)) := by
  obtain ⟨events, rest, hg, -⟩ := h
  obtain ⟨p, q, hpq, -, hcase⟩ := processEvents_eq { a with ctx := rest } events
  refine ⟨events, rest, p, q, hg, hpq, ?_⟩
  rcases hcase with ⟨-, he⟩ | ⟨_, _, -, -, he⟩ <;> rw [retrieveCompletions, he] <;> rfl

/-- After one call, the iocbs completed or in the kernel are among those completed or in the kernel
before, and no `callback_data` was allocated. -/
theorem Retrieve.origin {a : AsyncIo κ} {o : Outcome (AsyncIo κ)} (h : Retrieve ok a o) :
    o.state.nextData = a.nextData ∧
      ∀ r ∈ o.state.invoked ++ o.state.ctx, r ∈ a.invoked ++ a.ctx := by
  obtain ⟨events, rest, p, q, ⟨hp, -⟩, rfl, hst⟩ := h.eq_completeAll
  have hsub : (p.map (·.obj) ++ rest).Subperm a.ctx :=
    (((List.sublist_append_left _ _).append (List.Sublist.refl rest)).subperm.trans
      (by rw [List.map_append] at hp; exact hp.symm.subperm))
  refine ⟨by simp [hst], fun r hr => ?_⟩
  rw [hst, completeAll_invoked, completeAll_ctx, List.append_assoc] at hr
  exact ((List.subperm_append_left _).mpr hsub).subset hr

/-- A submission allocates one `callback_data`; if `io_submit` accepts, its iocb is the only one
that joins the kernel. -/
theorem submitTail_origin (a : AsyncIo κ) (req : Request κ) (ret : ℤ) :
    (submitTail a req ret).state.nextData = a.nextData + 1 ∧
      ∀ r ∈ (submitTail a req ret).state.invoked ++ (submitTail a req ret).state.ctx,
        r ∈ a.invoked ++ a.ctx ∨ r = ⟨req, a.nextData⟩ := by
  unfold submitTail
  split
  · refine ⟨rfl, fun r hr => ?_⟩
    simpa only [Outcome.state, ← List.append_assoc, List.mem_append, List.mem_singleton] using hr
  · exact ⟨rfl, fun r hr => .inl hr⟩

/-- Every iocb a reachable engine has completed or holds has a `callback_data` allocated before
`nextData`. -/
theorem Reachable.data_lt {c : ℕ} {a : AsyncIo κ} (h : Reachable ok c a) :
    ∀ r ∈ a.invoked ++ a.ctx, r.data < a.nextData := by
  induction h with
  | init => simp [AsyncIo.init]
  | retrieve _ hr ih =>
    obtain ⟨hn, hsub⟩ := hr.origin
    exact fun r h' => hn ▸ ih r (hsub r h')
  | submit req ret _ _ ih =>
    obtain ⟨hn, hsub⟩ := submitTail_origin _ req ret
    intro r h'
    rw [hn]
    exact (hsub r h').elim (fun h'' => Nat.lt_succ_of_lt (ih r h''))
      (by rintro rfl; exact Nat.lt_succ_self _)

/-! ## Runs from a state -/

variable (ok) in
/-- The states later calls lead the engine to from `a`: `retrieveCompletions`, called by the user
or by a backpressure loop, and submissions, accepted by `io_submit` or not. -/
inductive Steps : AsyncIo κ → AsyncIo κ → Prop
  | refl (a : AsyncIo κ) : Steps a a
  | retrieve {a a' : AsyncIo κ} {o : Outcome (AsyncIo κ)} :
      Retrieve ok a o → Steps o.state a' → Steps a a'
  | submit {a a' : AsyncIo κ} (req : Request κ) (ret : ℤ) :
      mustWait a req.ioSize = false → Steps (submitTail a req ret).state a' → Steps a a'

theorem Steps.trans {a b c : AsyncIo κ} (h₁ : Steps ok a b) (h₂ : Steps ok b c) : Steps ok a c := by
  induction h₁ with
  | refl => exact h₂
  | retrieve hr _ ih => exact .retrieve hr (ih h₂)
  | submit req ret hw _ ih => exact .submit req ret hw (ih h₂)

theorem RetrieveLoop.steps {cond : AsyncIo κ → Bool} {a : AsyncIo κ} {o : Outcome (AsyncIo κ)}
    (h : RetrieveLoop ok cond a o) : Steps ok a o.state := by
  induction h with
  | exit => exact .refl _
  | threw _ hr => exact .retrieve hr (.refl _)
  | iterate _ hr _ ih => exact .retrieve hr ih

theorem SubmitOperation.steps {req : Request κ} {a : AsyncIo κ} {o : Outcome (AsyncIo κ)}
    (h : SubmitOperation ok req a o) : Steps ok a o.state := by
  cases h with
  | submit ret hl => exact hl.steps.trans (.submit req ret hl.cond_false (.refl _))
  | threw hl => exact hl.steps

theorem Reachable.steps {c : ℕ} {a a' : AsyncIo κ} (h : Reachable ok c a) (hs : Steps ok a a') :
    Reachable ok c a' := by
  induction hs with
  | refl => exact h
  | retrieve hr _ ih => exact ih (h.retrieve hr)
  | submit req ret hw _ ih => exact ih (h.submit req ret hw)

theorem Steps.grows {a a' : AsyncIo κ} (h : Steps ok a a') : Grows a a' := by
  induction h with
  | refl => exact .refl _
  | retrieve hr _ ih => exact hr.grows.trans ih
  | submit req ret _ _ ih => exact (grows_submitTail _ req ret).trans ih

/-- An iocb completed or held at the end of a run was completed or held at its start, or its
`callback_data` was allocated during the run. -/
theorem Steps.origin {a a' : AsyncIo κ} (h : Steps ok a a') :
    a.nextData ≤ a'.nextData ∧
      ∀ r ∈ a'.invoked ++ a'.ctx, r ∈ a.invoked ++ a.ctx ∨ a.nextData ≤ r.data := by
  induction h with
  | refl => exact ⟨le_rfl, fun r hr => .inl hr⟩
  | retrieve hr _ ih =>
    obtain ⟨hn, hsub⟩ := hr.origin
    exact ⟨hn ▸ ih.1, fun r h' => (ih.2 r h').imp (hsub r) (hn ▸ ·)⟩
  | @submit a _ req ret _ _ ih =>
    obtain ⟨hn, hsub⟩ := submitTail_origin a req ret
    refine ⟨by have := ih.1; omega,
      fun r h' => (ih.2 r h').elim (fun h'' => ?_) fun _ => .inr (by omega)⟩
    -- an iocb of the kernel before the submission, or the submitted one
    exact (hsub r h'').imp_right (by rintro rfl; exact le_rfl)

/-! ## A short completion -/

/-- The kernel holds no more units than are in flight. -/
theorem Accounting.units_ctx_le {a : AsyncIo κ} (h : Accounting a) : units a.ctx ≤ a.inflightOps := by
  have hu := units_le_of_subperm h.subperm
  have hi := h.inflight
  simp only [units_append] at hu
  omega

/-- One `retrieveCompletions` never lowers the units in flight beyond those the kernel holds: the
events it processes take their units with them, and those it abandons keep theirs. -/
theorem Accounting.gap_retrieve {a : AsyncIo κ} {o : Outcome (AsyncIo κ)} (h : Accounting a)
    (hmax : a.maxConcurrentOps ≤ 2 ^ 32) (hr : Retrieve ok a o) :
    a.inflightOps - units a.ctx ≤ o.state.inflightOps - units o.state.ctx := by
  obtain ⟨events, rest, p, q, ⟨hp, -⟩, rfl, hst⟩ := hr.eq_completeAll
  have hu : units a.ctx = units (p.map (·.obj)) + units (q.map (·.obj)) + units rest := by
    rw [units_perm hp, List.map_append, units_append, units_append]
  have hle := h.units_ctx_le
  have hb := h.below
  rw [hst, completeAll_inflightOps (by show _ ≤ a.inflightOps; omega)
    (by show a.inflightOps < _; omega), completeAll_ctx]
  show a.inflightOps - units a.ctx ≤ a.inflightOps - units (p.map (·.obj)) - units rest
  omega

/-- An accepted submission adds the same units to those in flight and to the kernel's. -/
theorem Accounting.gap_submitTail {a : AsyncIo κ} {req : Request κ} {ret : ℤ} (h : Accounting a)
    (hmax : a.maxConcurrentOps ≤ 2 ^ 31) (hr : ret = 1 → InRange req.ioSize) :
    (AsyncIo.submitTail a req ret).state.inflightOps -
        units (AsyncIo.submitTail a req ret).state.ctx = a.inflightOps - units a.ctx := by
  unfold AsyncIo.submitTail
  split
  · rename_i h1
    have hg := getOperations_lt_of_inRange (hr h1)
    have hb := h.below
    simp only [Outcome.state, units_append, units_cons, units_nil]
    rw [Nat.mod_eq_of_lt (by omega)]
    omega
  · rfl

/-- Over every run from a reachable state of an engine of capacity at most `2^31` whose accepted
operations are `InRange`, the units in flight beyond those the kernel holds never decrease. -/
theorem Steps.gap_le {c : ℕ} {a a' : AsyncIo κ} (hc : 0 < c) (hc' : c ≤ 2 ^ 31)
    (h : Reachable ok c a) (hs : Steps ok a a') (hin : ∀ r ∈ a'.submitted, InRange r.req.ioSize) :
    a.inflightOps - units a.ctx ≤ a'.inflightOps - units a'.ctx := by
  induction hs with
  | refl => exact le_rfl
  | retrieve hr hs ih =>
    have hA := accounting_of_reachable hc hc' h fun r h' =>
      hin r ((hr.grows.trans hs.grows).submitted.subset h')
    exact (hA.gap_retrieve (by rw [h.maxConcurrentOps]; omega) hr).trans (ih (h.retrieve hr) hin)
  | @submit a _ req ret hw hs ih =>
    have hA := accounting_of_reachable hc hc' h fun r h' =>
      hin r (((grows_submitTail _ req ret).trans hs.grows).submitted.subset h')
    have hreq : ret = 1 → InRange req.ioSize := fun h1 =>
      hin ⟨req, a.nextData⟩ (hs.grows.submitted.subset (by simp [submitTail, h1, Outcome.state]))
    rw [← hA.gap_submitTail (h.maxConcurrentOps ▸ hc') hreq]
    exact ih (h.submit req ret hw) hin

/-- Over every batch `io_getevents` hands out on a reachable engine of capacity at most `2^31`
whose accepted operations are `InRange`: a `retrieveCompletions` that throws has run the
callbacks of, deleted the `callback_data` of, and taken the units of exactly the events `p` before
the first short one `e`. The whole batch has left the kernel, yet `e` and every later event `q`
keep their units in `_inflight_ops`, so more units are in flight than the kernel holds. -/
theorem retrieve_throw_strands_batch {c : ℕ} {a a' : AsyncIo κ} {events : List (IoEvent κ)}
    {rest : List (Iocb κ)} {err : AioError} (hc : 0 < c) (hc' : c ≤ 2 ^ 31)
    (h : Reachable ok c a) (hs : ∀ r ∈ a.submitted, InRange r.req.ioSize)
    (hg : GetEvents a events rest) (ht : retrieveCompletions a events rest = .threw err a') :
    ∃ p e q, events = p ++ e :: q ∧ (∀ x ∈ p, FullSize x) ∧ ¬ FullSize e ∧
      a'.ctx = rest ∧ a'.invoked = a.invoked ++ p.map (·.obj) ∧
      a'.deleted = a.deleted ++ p.map (·.obj.data) ∧
      a'.inflightOps = units rest + units ((e :: q).map (·.obj)) + (a.inflightOps - units a.ctx) ∧
      units a'.ctx < a'.inflightOps := by
  have hA := accounting_of_reachable hc hc' h hs
  obtain ⟨p, q, rfl, hp, ⟨-, hr⟩ | ⟨e, q', rfl, he, hr⟩⟩ :=
    processEvents_eq { a with ctx := rest } events <;> rw [retrieveCompletions, hr] at ht <;>
    cases ht
  · -- the call threw at `e`, in the state the events before it made
    have hu : units a.ctx = units (p.map (·.obj)) + units ((e :: q').map (·.obj)) + units rest := by
      rw [units_perm hg.1, List.map_append, units_append, units_append]
    have hpos : 0 < getOperations e.obj.req.ioSize := getOperations_pos
      (hs _ (hA.subperm.subset (List.mem_append_right _ (hg.1.symm.subset (by simp)))))
    have hle := hA.units_ctx_le
    have hb := hA.below
    have hm := h.maxConcurrentOps
    have hin : (completeAll { a with ctx := rest } (p.map (·.obj))).inflightOps =
        a.inflightOps - units (p.map (·.obj)) :=
      completeAll_inflightOps (by show _ ≤ a.inflightOps; omega) (by show a.inflightOps < _; omega)
    simp only [List.map_cons, units_cons] at hu
    refine ⟨p, e, q', rfl, hp, he, by simp, by simp, by simp, ?_, ?_⟩ <;>
      simp only [hin, completeAll_ctx, List.map_cons, units_cons] <;> omega

/-- Two page writes accepted by `AsyncIO(128)`, then one `io_getevents` batch returning both, the
first with `res = 0`: the call throws at once, and the second write, complete, is dropped with
it. -/
theorem retrieve_throw_strands_two_writes :
    let a : AsyncIo Unit :=
      ((submitTail (init 128) ⟨.pwrite, 3, 4096, 0, 4096, ()⟩ 1).state.submitTail
        ⟨.pwrite, 3, 8192, 0, 4096, ()⟩ 1).state
    let events : List (IoEvent Unit) :=
      [⟨⟨⟨.pwrite, 3, 4096, 0, 4096, ()⟩, 0⟩, 0⟩,
        ⟨⟨⟨.pwrite, 3, 8192, 0, 4096, ()⟩, 1⟩, 4096⟩]
    ∃ p e q, events = p ++ e :: q ∧ (∀ x ∈ p, FullSize x) ∧ ¬ FullSize e ∧
      ({ a with ctx := [] } : AsyncIo Unit).ctx = [] ∧
      ({ a with ctx := [] } : AsyncIo Unit).invoked = a.invoked ++ p.map (·.obj) ∧
      ({ a with ctx := [] } : AsyncIo Unit).deleted = a.deleted ++ p.map (·.obj.data) ∧
      ({ a with ctx := [] } : AsyncIo Unit).inflightOps =
        units ([] : List (Iocb Unit)) + units ((e :: q).map (·.obj)) + (a.inflightOps - units a.ctx) ∧
      units ({ a with ctx := [] } : AsyncIo Unit).ctx <
        ({ a with ctx := [] } : AsyncIo Unit).inflightOps :=
  retrieve_throw_strands_batch (by decide)
    (by decide) (((Reachable.init : Reachable (fun _ => True) 128 (init 128 : AsyncIo Unit)).submit
      ⟨.pwrite, 3, 4096, 0, 4096, ()⟩ 1 rfl).submit ⟨.pwrite, 3, 8192, 0, 4096, ()⟩ 1 rfl)
    (by decide)
    ⟨.refl _, by decide⟩ rfl

/-! ## When the backpressure loop ends

`_submit_operation` calls `retrieveCompletions` while
`_inflight_ops + _getOperations(io_size) >= _max_concurrent_ops`. Within the accounting's bounds
the sum never wraps, so the test is true whenever the operation alone needs the whole capacity,
however much the kernel completes: the loop never lets such an operation reach `io_submit`, and
the call ends only if a `retrieveCompletions` throws at a short completion of an operation already
in flight.
-/

/-- `retrieveCompletions` throws only at an event whose `res` is not its `io_size`. -/
theorem Retrieve.threw_short {a a' : AsyncIo κ} {e : AioError} (h : Retrieve ok a (.threw e a')) :
    ∃ res ioSize buffer, res ≠ ioSize ∧ e = .incomplete res ioSize buffer := by
  generalize ho : Outcome.threw e a' = o at h
  obtain ⟨events, rest, -, -⟩ := h
  obtain ⟨p, q, -, -, ⟨-, hr⟩ | ⟨x, q', -, hx, hr⟩⟩ :=
      processEvents_eq { a with ctx := rest } events <;>
    rw [retrieveCompletions, hr] at ho <;> cases ho
  exact ⟨_, _, _, hx, rfl⟩

theorem RetrieveLoop.threw_short {cond : AsyncIo κ → Bool} {a a' : AsyncIo κ} {e : AioError}
    (h : RetrieveLoop ok cond a (.threw e a')) :
    ∃ res ioSize buffer, res ≠ ioSize ∧ e = .incomplete res ioSize buffer := by
  generalize ho : Outcome.threw e a' = o at h
  induction h with
  | exit => cases ho
  | threw _ hr => cases ho; exact hr.threw_short
  | iterate _ _ _ ih => exact ih ho

/-- One `retrieveCompletions` can return every iocb the kernel holds, each with its full size;
then nothing is in the kernel and no unit is in flight. -/
theorem exists_retrieve_all {c : ℕ} {a : AsyncIo κ} (hc : 0 < c) (hc' : c ≤ 2 ^ 31)
    (h : Reachable FullSize c a) (hs : ∀ r ∈ a.submitted, InRange r.req.ioSize) :
    ∃ a', Retrieve FullSize a (.returned a') ∧ a'.inflightOps = 0 := by
  have hlen := (accounting_of_reachable hc hc' h hs).ctx_length_lt hs
  have hf : ∀ e ∈ a.ctx.map (fun r => (⟨r, r.req.ioSize⟩ : IoEvent κ)), FullSize e := by
    simp [FullSize]
  obtain ⟨a', he, -, hctx, hsub, -⟩ := processEvents_of_fullSize (a := { a with ctx := [] }) hf
  have hr : Retrieve FullSize a (retrieveCompletions a (a.ctx.map fun r => ⟨r, r.req.ioSize⟩) []) :=
    .mk _ _ ⟨by simp [Function.comp_def], by simpa using hlen.le⟩ hf
  rw [retrieveCompletions, he] at hr
  have ha' : Reachable FullSize c a' := h.retrieve hr
  have hA := accounting_of_reachable hc hc' ha' (hsub ▸ hs)
  exact ⟨a', hr, by rw [inflightOps_eq_units_ctx hA ha', hctx, units_nil]⟩

/-- Within the accounting's bounds, a backpressure loop that stops leaves room for the operation. -/
theorem RetrieveLoop.room {c : ℕ} {a a' : AsyncIo κ} {req : Request κ} (hc : 0 < c)
    (hc' : c ≤ 2 ^ 31) (h : Reachable ok c a) (hs : ∀ r ∈ a.submitted, InRange r.req.ioSize)
    (hreq : InRange req.ioSize) (hl : RetrieveLoop ok (mustWait · req.ioSize) a (.returned a')) :
    getOperations req.ioSize < c := by
  have hg := getOperations_lt_of_inRange hreq
  have ha' : Reachable ok c a' := hl.reachable h
  have hb := (accounting_of_reachable hc hc' ha' (hl.submitted ▸ hs)).below
  have hw := hl.cond_false
  simp only [mustWait, decide_eq_false_iff_not, ge_iff_le, not_le, ha'.maxConcurrentOps] at hw hb
  rw [Nat.mod_eq_of_lt (by omega)] at hw
  omega

/-- On a reachable engine of capacity at most `2^31` whose accepted operations are `InRange`,
whatever the kernel returns, a submission of an `InRange` operation reaches `io_submit` only if its
unit count is below the capacity. When it is not, the call can end only by a throw of
`retrieveCompletions` at a short completion, of an operation already in flight: with nothing in
flight it spins forever. On an engine whose completions all reported their size, a call over such
completions can end, the kernel completing what is in flight, exactly when the unit count is below
the capacity. -/
theorem submitOperation_ends_iff {c : ℕ} {a : AsyncIo κ} {req : Request κ} (hc : 0 < c)
    (hc' : c ≤ 2 ^ 31) (h : Reachable ok c a) (hs : ∀ r ∈ a.submitted, InRange r.req.ioSize)
    (hreq : InRange req.ioSize) :
    ((∃ a', RetrieveLoop ok (mustWait · req.ioSize) a (.returned a')) →
        getOperations req.ioSize < c) ∧
      (c ≤ getOperations req.ioSize → ∀ o, SubmitOperation ok req a o →
        a.ctx ≠ [] ∧ ∃ res ioSize buffer a', res ≠ ioSize ∧
          o = .threw (.incomplete res ioSize buffer) a') ∧
      (Reachable FullSize c a →
        ((∃ o, SubmitOperation FullSize req a o) ↔ getOperations req.ioSize < c)) := by
  have hg := getOperations_lt_of_inRange hreq
  refine ⟨fun ⟨_, hl⟩ => hl.room hc hc' h hs hreq, fun hge o hso => ?_, fun hfull => ⟨?_, ?_⟩⟩
  · cases hso with
    | submit _ hl => exact absurd (hl.room hc hc' h hs hreq) (by omega)
    | threw hl =>
      obtain ⟨res, ioSize, buffer, hne, rfl⟩ := hl.threw_short
      refine ⟨fun hnil => ?_, res, ioSize, buffer, _, hne, rfl⟩
      cases (hl.eq_of_ctx_nil hnil).1
  · rintro ⟨o, hso⟩
    cases hso with
    | submit _ hl => exact hl.room hc hc' hfull hs hreq
    | threw hl => obtain ⟨_, h'⟩ := hl.returned_of_fullSize; cases h'
  · intro hlt
    cases hw : a.mustWait req.ioSize
    · exact ⟨_, .submit 1 (.exit hw)⟩
    · -- the kernel returns everything in flight; then the operation fits
      obtain ⟨a', hr, h0⟩ := exists_retrieve_all hc hc' hfull hs
      have hm : a'.maxConcurrentOps = c :=
        (hfull.retrieve hr : Reachable FullSize c a').maxConcurrentOps
      have hw' : a'.mustWait req.ioSize = false := by
        simp only [mustWait, h0, hm, zero_add, decide_eq_false_iff_not, ge_iff_le, not_le]
        rw [Nat.mod_eq_of_lt (by omega)]
        exact hlt
      exact ⟨_, .submit 1 (.iterate hw hr (.exit hw'))⟩

/-- A second page-sized write on `AsyncIO(128)` while the first is in flight. -/
theorem submitOperation_ends_iff_page :
    let a : AsyncIo Unit := (submitTail (init 128) ⟨.pwrite, 3, 4096, 0, 4096, ()⟩ 1).state
    ((∃ a', RetrieveLoop FullSize (mustWait · 4096) a (.returned a')) →
        getOperations 4096 < 128) ∧
      (128 ≤ getOperations 4096 →
        ∀ o, SubmitOperation FullSize ⟨.pwrite, 3, 8192, 0, 4096, ()⟩ a o →
          a.ctx ≠ [] ∧ ∃ res ioSize buffer a', res ≠ ioSize ∧
            o = .threw (.incomplete res ioSize buffer) a') ∧
      (Reachable FullSize 128 a →
        ((∃ o, SubmitOperation FullSize ⟨.pwrite, 3, 8192, 0, 4096, ()⟩ a o) ↔
          getOperations 4096 < 128)) :=
  @submitOperation_ends_iff _ _ _ _ ⟨.pwrite, 3, 8192, 0, 4096, ()⟩ (by decide) (by decide)
    (.submit _ 1 .init rfl) (by decide) (by decide)

/-! ## A refused submission -/

/-- When `io_submit` refuses the operation after the backpressure loop ended in `a₁`,
`_submit_operation` throws with the units in flight, the kernel's iocbs and the accepted iocbs
of `a₁`, and over every later run of the engine the refused iocb's callback never runs. -/
theorem refused_submission_keeps_engine {c : ℕ} {req : Request κ} {a a₁ : AsyncIo κ} {ret : ℤ}
    (h : Reachable ok c a) (hl : RetrieveLoop ok (mustWait · req.ioSize) a (.returned a₁))
    (hret : ret ≠ 1) :
    ∃ a', submitTail a₁ req ret = .threw (.ioSubmit ret) a' ∧
      SubmitOperation ok req a (.threw (.ioSubmit ret) a') ∧
      a'.inflightOps = a₁.inflightOps ∧ a'.ctx = a₁.ctx ∧ a'.submitted = a₁.submitted ∧
      ∀ a'', Steps ok a' a'' → (⟨req, a₁.nextData⟩ : Iocb κ) ∉ a''.invoked := by
  have ht : submitTail a₁ req ret =
      .threw (.ioSubmit ret) { a₁ with nextData := a₁.nextData + 1 } := by
    rw [submitTail, if_neg hret]
  refine ⟨_, ht, ht ▸ .submit ret hl, rfl, rfl, rfl, fun a'' hs hmem => ?_⟩
  rcases hs.origin.2 _ (List.mem_append_left _ hmem) with h' | h'
  · exact Nat.lt_irrefl _ ((hl.reachable h).data_lt _ h')
  · exact Nat.not_succ_le_self _ h'

/-- `io_submit` refusing a second page-sized write on `AsyncIO(128)` while the first is in flight:
the first stays in the kernel with its unit, and the second is never completed. -/
theorem refused_submission_keeps_engine_in_flight :
    let a : AsyncIo Unit := (submitTail (init 128) ⟨.pwrite, 3, 4096, 0, 4096, ()⟩ 1).state
    ∃ a', submitTail a ⟨.pwrite, 3, 8192, 0, 4096, ()⟩ (-11) = .threw (.ioSubmit (-11)) a' ∧
      SubmitOperation FullSize ⟨.pwrite, 3, 8192, 0, 4096, ()⟩ a (.threw (.ioSubmit (-11)) a') ∧
      a'.inflightOps = a.inflightOps ∧ a'.ctx = a.ctx ∧ a'.submitted = a.submitted ∧
      ∀ a'', Steps FullSize a' a'' →
        (⟨⟨.pwrite, 3, 8192, 0, 4096, ()⟩, a.nextData⟩ : Iocb Unit) ∉ a''.invoked :=
  refused_submission_keeps_engine (.submit _ 1 .init rfl) (.exit rfl) (by decide)

end Dfmodules.AsyncIo
