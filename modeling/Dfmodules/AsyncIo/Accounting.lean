import Dfmodules.AsyncIo.Engine

/-!
# The unit accounting of `AsyncIO`

`Accounting` is the invariant of the engine over every run: the iocbs whose callback ran and the
iocbs still in the kernel are distinct accepted iocbs, `_inflight_ops` is the units accepted less
the units completed, and it stays below `_max_concurrent_ops`. It holds whatever the kernel does,
short completions included (`accounting_of_reachable`), provided the capacity is at most `2^31`
and every accepted operation is below `16384*5*2^31` bytes (`InRange`): there the `int` returned
by `_getOperations` is its true, positive unit count, and the `unsigned` sum in the backpressure
test cannot wrap.

When every completion reports its requested size, nothing is lost (`Conserved`): the accepted
iocbs are exactly those completed and those in flight. Together the two give the backpressure law
`accounting_of_full_run`. Beyond `InRange` the law fails: an operation of `16384*5*2^32` bytes
counts zero units (`zero_units_in_flight`).
-/

namespace Dfmodules.AsyncIo

variable {κ : Type} {ok : IoEvent κ → Prop}

/-! ## Units -/

/-- The sizes whose unit count `_getOperations` returns exactly, as a positive `int`. -/
def InRange (ioSize : ℕ) : Prop := ioSize < 16384 * 5 * 2 ^ 31

instance (ioSize : ℕ) : Decidable (InRange ioSize) := inferInstanceAs (Decidable (_ < _))

theorem getOperations_lt (ioSize : ℕ) : getOperations ioSize < 2 ^ 32 := by
  unfold getOperations; split <;> omega

theorem getOperations_pos {ioSize : ℕ} (h : InRange ioSize) : 0 < getOperations ioSize := by
  unfold getOperations InRange at *; split <;> omega

theorem getOperations_lt_of_inRange {ioSize : ℕ} (h : InRange ioSize) :
    getOperations ioSize < 2 ^ 31 := by
  unfold getOperations InRange at *; split <;> omega

@[simp]
theorem units_nil : units ([] : List (Iocb κ)) = 0 := rfl

@[simp]
theorem units_append (l₁ l₂ : List (Iocb κ)) : units (l₁ ++ l₂) = units l₁ + units l₂ := by
  simp [units]

@[simp]
theorem units_cons (r : Iocb κ) (l : List (Iocb κ)) :
    units (r :: l) = getOperations r.req.ioSize + units l := by
  simp [units]

theorem units_perm {l₁ l₂ : List (Iocb κ)} (h : l₁.Perm l₂) : units l₁ = units l₂ :=
  (h.map _).sum_eq

theorem units_le_of_subperm {l₁ l₂ : List (Iocb κ)} (h : l₁.Subperm l₂) : units l₁ ≤ units l₂ := by
  obtain ⟨l, hp, hs⟩ := h
  obtain ⟨d, hd⟩ := hs.exists_perm_append
  rw [← units_perm hp, units_perm hd, units_append]
  omega

theorem length_le_units {l : List (Iocb κ)} (h : ∀ r ∈ l, 0 < getOperations r.req.ioSize) :
    l.length ≤ units l := by
  induction l with
  | nil => simp
  | cons r l ih =>
    have := h r (List.mem_cons_self _ _)
    have := ih fun x hx => h x (List.mem_cons_of_mem _ hx)
    simp only [units_cons, List.length_cons]
    omega

/-- A sub-multiset carrying all the units of a list of positive-unit iocbs is the whole list. -/
theorem perm_of_subperm_of_units {l₁ l₂ : List (Iocb κ)} (h : l₁.Subperm l₂)
    (hpos : ∀ r ∈ l₂, 0 < getOperations r.req.ioSize) (hu : units l₂ ≤ units l₁) :
    l₁.Perm l₂ := by
  obtain ⟨l, hp, hs⟩ := h
  obtain ⟨d, hd⟩ := hs.exists_perm_append
  have hsum : units l₂ = units l₁ + units d := by rw [units_perm hd, units_append, units_perm hp]
  cases d with
  | nil => exact hp.symm.trans (by simpa using hd.symm)
  | cons x d =>
    have hx : 0 < getOperations x.req.ioSize := hpos x (hd.symm.subset (by simp))
    simp only [units_cons] at hsum
    omega

/-! ## The invariant -/

/-- The unit accounting of an `AsyncIO`. -/
structure Accounting (a : AsyncIo κ) : Prop where
  nodup : a.submitted.Nodup
  fresh : ∀ r ∈ a.submitted, r.data < a.nextData
  subperm : (a.invoked ++ a.ctx).Subperm a.submitted
  inflight : a.inflightOps + units a.invoked = units a.submitted
  below : a.inflightOps < a.maxConcurrentOps

theorem accounting_init {c : ℕ} (hc : 0 < c) : Accounting (init c : AsyncIo κ) :=
  ⟨List.nodup_nil, by simp [init], by simp [init], by simp [init], hc⟩

/-- The completion loop keeps the accounting while the events it has still to process are
accepted iocbs that are neither completed nor in the kernel. -/
theorem processEvents_accounting {es : List (IoEvent κ)} {a : AsyncIo κ}
    (hmax : a.maxConcurrentOps ≤ 2 ^ 32) (hn : a.submitted.Nodup) (hf : ∀ r ∈ a.submitted, r.data < a.nextData)
    (hs : (a.invoked ++ es.map (·.obj) ++ a.ctx).Subperm a.submitted)
    (hi : a.inflightOps + units a.invoked = units a.submitted)
    (hb : a.inflightOps < a.maxConcurrentOps) : Accounting (processEvents a es).state := by
  induction es generalizing a with
  | nil => exact ⟨hn, hf, by simpa using hs, hi, hb⟩
  | cons e es ih =>
    simp only [processEvents]
    split
    · have hle := units_le_of_subperm hs
      simp only [List.map_cons, List.append_assoc, List.cons_append, units_append,
        units_cons] at hle
      have hlt := getOperations_lt e.obj.req.ioSize
      have hsub : (a.inflightOps + (2 ^ 32 - getOperations e.obj.req.ioSize)) % 2 ^ 32 =
          a.inflightOps - getOperations e.obj.req.ioSize := by omega
      refine ih hmax hn hf (by simpa [complete] using hs) ?_ ?_ <;>
        simp only [complete, hsub, units_append, units_cons, units_nil] <;> omega
    · have hsl : (a.invoked ++ a.ctx).Sublist (a.invoked ++ (e :: es).map (·.obj) ++ a.ctx) := by
        rw [List.append_assoc]
        exact (List.Sublist.refl _).append (List.sublist_append_right _ _)
      exact ⟨hn, hf, hsl.subperm.trans hs, hi, hb⟩

theorem Accounting.retrieve {a : AsyncIo κ} {o : Outcome (AsyncIo κ)} (h : Accounting a)
    (hmax : a.maxConcurrentOps ≤ 2 ^ 32) (hr : Retrieve ok a o) : Accounting o.state := by
  obtain ⟨events, rest, ⟨hp, -⟩, -⟩ := hr
  refine processEvents_accounting hmax h.nodup h.fresh ?_ h.inflight h.below
  rw [List.append_assoc]
  exact ((hp.append_left a.invoked).symm.subperm).trans h.subperm

theorem Accounting.submitTail {a : AsyncIo κ} {req : Request κ} {ret : ℤ} (h : Accounting a)
    (hmax : a.maxConcurrentOps ≤ 2 ^ 31) (hw : mustWait a req.ioSize = false)
    (hr : ret = 1 → InRange req.ioSize) : Accounting (submitTail a req ret).state := by
  have hfresh (r) (hr : r ∈ a.submitted) : r.data < a.nextData + 1 := Nat.lt_succ_of_lt (h.fresh r hr)
  unfold AsyncIo.submitTail
  split
  · rename_i h1
    have hg := getOperations_lt_of_inRange (hr h1)
    have hb := h.below
    have hi := h.inflight
    simp only [mustWait, decide_eq_false_iff_not, ge_iff_le, not_le] at hw
    simp only [Outcome.state]
    refine ⟨List.nodup_append.mpr ⟨h.nodup, List.nodup_singleton _,
      List.disjoint_singleton.mpr fun hm => Nat.lt_irrefl _ (h.fresh _ hm)⟩,
      List.forall_mem_append.mpr ⟨hfresh, by simp⟩, ?_, ?_, hw⟩
    · rw [← List.append_assoc]
      exact (List.subperm_append_right _).mpr h.subperm
    · simp only [units_append, units_cons, units_nil]
      omega
  · exact ⟨h.nodup, hfresh, h.subperm, h.inflight, h.below⟩

/-- With no unit in flight and every accepted operation `InRange`, the kernel holds nothing and
the callbacks that ran are those of the accepted iocbs, each once. -/
theorem Accounting.settled {a : AsyncIo κ} (h : Accounting a)
    (hs : ∀ r ∈ a.submitted, InRange r.req.ioSize) (h0 : a.inflightOps = 0) :
    a.ctx = [] ∧ a.invoked.Perm a.submitted := by
  have hpos (r) (hr : r ∈ a.submitted) := getOperations_pos (hs r hr)
  have hi := h.inflight
  have hp := perm_of_subperm_of_units h.subperm hpos (by simp only [units_append]; omega)
  have hlen : a.ctx.length ≤ units a.ctx :=
    length_le_units fun r hr => hpos r (hp.subset (List.mem_append_right _ hr))
  have hu := units_perm hp
  simp only [units_append] at hu
  have hnil : a.ctx = [] := List.eq_nil_of_length_eq_zero (by omega)
  exact ⟨hnil, by simpa [hnil] using hp⟩

/-- Fewer iocbs than the capacity are in the kernel: each carries at least one unit, and the
kernel's units are at most those in flight. -/
theorem Accounting.ctx_length_lt {a : AsyncIo κ} (h : Accounting a)
    (hs : ∀ r ∈ a.submitted, InRange r.req.ioSize) : a.ctx.length < a.maxConcurrentOps := by
  have hu := units_le_of_subperm h.subperm
  have hi := h.inflight
  have hb := h.below
  have hlen : a.ctx.length ≤ units a.ctx := length_le_units fun r hr =>
    getOperations_pos (hs r (h.subperm.subset (List.mem_append_right _ hr)))
  simp only [units_append] at hu
  omega

/-- Whatever the kernel returns, short completions included, the accounting holds at every
reachable state of an engine of capacity at most `2^31` whose accepted operations are `InRange`. -/
theorem accounting_of_reachable {c : ℕ} {a : AsyncIo κ} (hc : 0 < c) (hc' : c ≤ 2 ^ 31)
    (h : Reachable ok c a) (hs : ∀ r ∈ a.submitted, InRange r.req.ioSize) : Accounting a := by
  induction h with
  | init => exact accounting_init hc
  | retrieve ha hr ih =>
    refine (ih fun r h' => hs r (hr.grows.submitted.subset h')).retrieve ?_ hr
    rw [ha.maxConcurrentOps]
    omega
  | @submit a req ret ha hw ih =>
    refine (ih fun r h' => hs r ((grows_submitTail _ req ret).submitted.subset h')).submitTail
      (ha.maxConcurrentOps ▸ hc') hw fun h1 => hs ⟨req, a.nextData⟩ ?_
    simp [AsyncIo.submitTail, h1, Outcome.state]

/-- Whatever the kernel returns, short completions included, on an engine of capacity at most
`2^31` whose accepted operations are `InRange`: no callback runs twice, none runs for an iocb that
was not accepted or is still in the kernel, and fewer than `_max_concurrent_ops` iocbs are ever in
the kernel, so `io_getevents` never has more to return than `_completed_events` holds. -/
theorem callbacks_at_most_once [DecidableEq κ] {c : ℕ} {a : AsyncIo κ} (hc : 0 < c)
    (hc' : c ≤ 2 ^ 31) (h : Reachable ok c a) (hs : ∀ r ∈ a.submitted, InRange r.req.ioSize) :
    (∀ r, a.invoked.count r + a.ctx.count r ≤ a.submitted.count r ∧ a.submitted.count r ≤ 1) ∧
      a.ctx.length < a.maxConcurrentOps := by
  have hA := accounting_of_reachable hc hc' h hs
  refine ⟨fun r => ⟨?_, List.nodup_iff_count_le_one.mp hA.nodup r⟩, hA.ctx_length_lt hs⟩
  rw [← List.count_append]
  exact hA.subperm.count_le r

/-- One accepted write of a page on `AsyncIO(128)`, not yet completed. -/
theorem callbacks_at_most_once_one_write :
    (∀ r, (submitTail (init 128) ⟨.pwrite, 3, 4096, 0, 4096, ()⟩ 1).state.invoked.count r +
          (submitTail (init 128) ⟨.pwrite, 3, 4096, 0, 4096, ()⟩ 1).state.ctx.count r ≤
        (submitTail (init 128) ⟨.pwrite, 3, 4096, 0, 4096, ()⟩ 1).state.submitted.count r ∧
      (submitTail (init 128) ⟨.pwrite, 3, 4096, 0, 4096, ()⟩ 1).state.submitted.count r ≤ 1) ∧
      (submitTail (init 128) ⟨.pwrite, 3, 4096, 0, 4096, ()⟩ 1).state.ctx.length <
        (submitTail (init 128) ⟨.pwrite, 3, 4096, 0, 4096, ()⟩ 1).state.maxConcurrentOps :=
  callbacks_at_most_once (by decide) (by decide)
    ((Reachable.init : Reachable FullSize 128 (init 128)).submit _ 1 rfl) (by decide)

/-! ## Runs in which every completion reports its size -/

/-- No accepted iocb is lost: as a multiset, the accepted iocbs are those whose callback ran and
those still in the kernel. -/
def Conserved (a : AsyncIo κ) : Prop := a.submitted.Perm (a.invoked ++ a.ctx)

theorem conserved_of_reachable {c : ℕ} {a : AsyncIo κ} (h : Reachable FullSize c a) :
    Conserved a := by
  induction h with
  | init => exact List.Perm.refl _
  | @retrieve a _ _ hr ih =>
    obtain ⟨events, rest, ⟨hp, -⟩, hf⟩ := hr
    obtain ⟨a', he, -, hc, hs, hi⟩ := processEvents_of_fullSize (a := { a with ctx := rest }) hf
    rw [retrieveCompletions, he]
    show a'.submitted.Perm (a'.invoked ++ a'.ctx)
    rw [hc, hs, hi, List.append_assoc]
    exact ih.trans (hp.append_left _)
  | submit req ret _ _ ih =>
    unfold AsyncIo.submitTail
    split
    · show (_ ++ [_]).Perm (_ ++ (_ ++ [_]))
      rw [← List.append_assoc]
      exact ih.append_right _
    · exact ih

/-- Over runs whose completions all report their size, the units in flight are those of the
iocbs in the kernel. -/
theorem inflightOps_eq_units_ctx {c : ℕ} {a : AsyncIo κ} (hA : Accounting a)
    (h : Reachable FullSize c a) : a.inflightOps = units a.ctx := by
  have := hA.inflight
  rw [units_perm (conserved_of_reachable h), units_append] at this
  omega

/-- The backpressure law of `AsyncIO` over runs whose completions all report their size: the
in-flight units are those of the iocbs the kernel holds and stay below the capacity, so fewer
than `_max_concurrent_ops` requests are in flight; a callback runs at most once and only for an
accepted iocb; and with no unit in flight every accepted iocb's callback has run exactly once. -/
theorem accounting_of_full_run [DecidableEq κ] {c : ℕ} {a : AsyncIo κ} (hc : 0 < c)
    (hc' : c ≤ 2 ^ 31) (h : Reachable FullSize c a)
    (hs : ∀ r ∈ a.submitted, InRange r.req.ioSize) :
    a.inflightOps = units a.ctx ∧ a.inflightOps < a.maxConcurrentOps ∧
      a.ctx.length < a.maxConcurrentOps ∧
      (∀ r, a.invoked.count r ≤ a.submitted.count r ∧ a.submitted.count r ≤ 1) ∧
      (a.inflightOps = 0 → ∀ r ∈ a.submitted, a.invoked.count r = 1) := by
  have hA := accounting_of_reachable hc hc' h hs
  have hC : Conserved a := conserved_of_reachable h
  have hcount (r : Iocb κ) : a.submitted.count r = a.invoked.count r + a.ctx.count r := by
    rw [hC.count_eq, List.count_append]
  refine ⟨inflightOps_eq_units_ctx hA h, hA.below, hA.ctx_length_lt hs,
    fun r => ⟨by have := hcount r; omega, List.nodup_iff_count_le_one.mp hA.nodup r⟩,
    fun h0 r hr => ?_⟩
  rw [(hA.settled hs h0).2.count_eq, List.count_eq_one_of_mem hA.nodup hr]

/-- One accepted write of a page at offset `4096` on `AsyncIO(128)`: the law holds with one unit
in flight. -/
theorem accounting_of_full_run_one_write :
    (submitTail (init 128) ⟨.pwrite, 3, 4096, 0, 4096, ()⟩ 1).state.inflightOps =
        units (submitTail (init 128) ⟨.pwrite, 3, 4096, 0, 4096, ()⟩ 1).state.ctx ∧
      (submitTail (init 128) ⟨.pwrite, 3, 4096, 0, 4096, ()⟩ 1).state.inflightOps <
        (submitTail (init 128) ⟨.pwrite, 3, 4096, 0, 4096, ()⟩ 1).state.maxConcurrentOps ∧
      (submitTail (init 128) ⟨.pwrite, 3, 4096, 0, 4096, ()⟩ 1).state.ctx.length <
        (submitTail (init 128) ⟨.pwrite, 3, 4096, 0, 4096, ()⟩ 1).state.maxConcurrentOps ∧
      (∀ r, (submitTail (init 128) ⟨.pwrite, 3, 4096, 0, 4096, ()⟩ 1).state.invoked.count r ≤
          (submitTail (init 128) ⟨.pwrite, 3, 4096, 0, 4096, ()⟩ 1).state.submitted.count r ∧
        (submitTail (init 128) ⟨.pwrite, 3, 4096, 0, 4096, ()⟩ 1).state.submitted.count r ≤ 1) ∧
      ((submitTail (init 128) ⟨.pwrite, 3, 4096, 0, 4096, ()⟩ 1).state.inflightOps = 0 →
        ∀ r ∈ (submitTail (init 128) ⟨.pwrite, 3, 4096, 0, 4096, ()⟩ 1).state.submitted,
          (submitTail (init 128) ⟨.pwrite, 3, 4096, 0, 4096, ()⟩ 1).state.invoked.count r = 1) :=
  accounting_of_full_run (by decide) (by decide) (.submit _ _ .init rfl) (by decide)

/-- Beyond `InRange` the law fails: `_getOperations` of `16384*5*2^32` bytes is `2^32`, zero as
an `int`, so after `AsyncIO(128)` accepts one such write `_inflight_ops` is `0` while the write is
in the kernel and its callback has not run. -/
theorem zero_units_in_flight :
    Reachable FullSize 128 (submitTail (init 128) ⟨.pwrite, 3, 4096, 0, 16384 * 5 * 2 ^ 32, ()⟩ 1).state ∧
      (submitTail (init 128) ⟨.pwrite, 3, 4096, 0, 16384 * 5 * 2 ^ 32, ()⟩ 1).state.inflightOps = 0 ∧
      (submitTail (init 128) ⟨.pwrite, 3, 4096, 0, 16384 * 5 * 2 ^ 32, ()⟩ 1).state.submitted.length = 1 ∧
      (submitTail (init 128) ⟨.pwrite, 3, 4096, 0, 16384 * 5 * 2 ^ 32, ()⟩ 1).state.invoked = [] :=
  ⟨.submit _ _ .init rfl, rfl, rfl, rfl⟩

end Dfmodules.AsyncIo
