import Dfmodules.AsyncIo.Errors

/-!
# Who deletes a `callback_data`

`_submit_operation` allocates a `callback_data` with `new` for every submission, before
`io_submit`, and stores its address in the iocb's `data`. Only the completion loop of
`retrieveCompletions` deletes one, right after running the callback of the event that carries
it. The ownership invariant `Owned` holds at every reachable state, whatever the kernel returns and
whatever the capacity. From it:

* `callback_data_deleted_once`: a `callback_data` is deleted only after its iocb's callback ran,
  in the order the callbacks ran, at most once, and never for a submission `io_submit` refused;
* `callback_data_leaks_of_full_run`: when every completion reports its size, the deleted ones and
  the ones the kernel holds are exactly those of the accepted submissions. Of the addresses
  below `nextData`, one per submission, those `leaked` are the refused submissions': a refused
  submission leaks its own `callback_data` (`leaked_submitTail`), and a `retrieveCompletions` over
  full-size events leaks none (`leaked_retrieve`).
-/

namespace Dfmodules.AsyncIo

variable {κ : Type} {ok : IoEvent κ → Prop} {a : AsyncIo κ}

/-- The ownership of `callback_data`: the accepted iocbs have distinct addresses below
`nextData`, the iocbs completed or in the kernel are accepted ones (each at most once), and the
deletions are those of the completed iocbs, in order. -/
structure Owned (a : AsyncIo κ) : Prop where
  distinct : (a.submitted.map (·.data)).Nodup
  fresh : ∀ r ∈ a.submitted, r.data < a.nextData
  subperm : (a.invoked ++ a.ctx).Subperm a.submitted
  deleted : a.deleted = a.invoked.map (·.data)

theorem owned_init (c : ℕ) : Owned (init c : AsyncIo κ) := ⟨List.nodup_nil, by simp [init],
  by simp [init], rfl⟩

theorem subperm_map {α β : Type} (f : α → β) {l₁ l₂ : List α} (h : l₁.Subperm l₂) :
    (l₁.map f).Subperm (l₂.map f) := by
  obtain ⟨l, hp, hs⟩ := h
  exact ⟨l.map f, hp.map f, hs.map f⟩

theorem nodup_of_subperm {α : Type} {l₁ l₂ : List α} (h : l₁.Subperm l₂) (hn : l₂.Nodup) :
    l₁.Nodup := by
  obtain ⟨l, hp, hs⟩ := h
  exact hp.nodup_iff.1 (hn.sublist hs)

theorem Owned.retrieve {o : Outcome (AsyncIo κ)} (h : Owned a) (hr : Retrieve ok a o) :
    Owned o.state := by
  obtain ⟨events, rest, p, q, ⟨hp, -⟩, rfl, hst⟩ := hr.eq_completeAll
  -- the batch's completed prefix and the iocbs kept are among the kernel's
  have hsub : (p.map (·.obj) ++ rest).Subperm a.ctx :=
    ((List.sublist_append_left _ _).append (List.Sublist.refl rest)).subperm.trans
      (by rw [List.map_append] at hp; exact hp.symm.subperm)
  rw [hst]
  refine ⟨by simpa using h.distinct, by simpa using h.fresh, ?_, by simp [h.deleted]⟩
  rw [completeAll_invoked, completeAll_ctx, completeAll_submitted, List.append_assoc]
  exact ((List.subperm_append_left _).mpr hsub).trans h.subperm

theorem Owned.submitTail (h : Owned a) (req : Request κ) (ret : ℤ) :
    Owned (submitTail a req ret).state := by
  have hfresh (r) (hr : r ∈ a.submitted) : r.data < a.nextData + 1 :=
    Nat.lt_succ_of_lt (h.fresh r hr)
  unfold AsyncIo.submitTail
  split
  · simp only [Outcome.state]
    refine ⟨?_, List.forall_mem_append.mpr ⟨hfresh, by simp⟩, ?_, h.deleted⟩
    · -- the new address is above every accepted one
      simpa [List.nodup_append, h.distinct] using fun r hr hd => (h.fresh r hr).ne hd
    · show (a.invoked ++ (a.ctx ++ [_])).Subperm (a.submitted ++ [_])
      rw [← List.append_assoc]
      exact (List.subperm_append_right _).mpr h.subperm
  · exact ⟨h.distinct, hfresh, h.subperm, h.deleted⟩

theorem owned_of_reachable {c : ℕ} (h : Reachable ok c a) : Owned a := by
  induction h with
  | init => exact owned_init c
  | retrieve _ hr ih => exact ih.retrieve hr
  | submit req ret _ _ ih => exact ih.submitTail req ret

/-- Whatever the kernel returns, short completions included, and whatever the capacity: the
`callback_data` deleted are those of the iocbs whose callback ran, in that order; none is deleted
twice; and every one deleted or held by the kernel belongs to an accepted submission, so the
`callback_data` of a submission `io_submit` refused is never deleted. -/
theorem callback_data_deleted_once {c : ℕ} (h : Reachable ok c a) :
    a.deleted = a.invoked.map (·.data) ∧ a.deleted.Nodup ∧
      ∀ d ∈ a.deleted ++ a.ctx.map (·.data), d ∈ a.submitted.map (·.data) := by
  have hO := owned_of_reachable h
  have hsub := subperm_map (·.data) hO.subperm
  rw [List.map_append] at hsub
  refine ⟨hO.deleted, ?_, fun d hd => hsub.subset (hO.deleted ▸ hd)⟩
  rw [hO.deleted]
  exact nodup_of_subperm ((List.sublist_append_left _ _).subperm.trans hsub) hO.distinct

/-- One accepted write of a page on `AsyncIO(128)`, one refused, then a `retrieveCompletions` that
returns the first write complete: its `callback_data` is deleted, the refused one's is not. -/
theorem callback_data_deleted_once_retrieved :
    let a : AsyncIo Unit := (retrieveCompletions
      (submitTail (submitTail (init 128) ⟨.pwrite, 3, 0, 0, 4096, ()⟩ 1).state
        ⟨.pwrite, 3, 4096, 0, 4096, ()⟩ (-11)).state
      [⟨⟨⟨.pwrite, 3, 0, 0, 4096, ()⟩, 0⟩, 4096⟩] []).state
    a.deleted = a.invoked.map (·.data) ∧ a.deleted.Nodup ∧
      ∀ d ∈ a.deleted ++ a.ctx.map (·.data), d ∈ a.submitted.map (·.data) :=
  callback_data_deleted_once
    ((((Reachable.init : Reachable FullSize 128 (init 128)).submit ⟨.pwrite, 3, 0, 0, 4096, ()⟩ 1
      rfl).submit ⟨.pwrite, 3, 4096, 0, 4096, ()⟩ (-11) rfl).retrieve
      (.mk _ _ ⟨.refl _, by decide⟩ (by simp [FullSize])))

/-! ## Leaks -/

/-- The `callback_data` allocated so far, the addresses below `nextData`, that are neither deleted
nor held by the kernel: those leaked. -/
def leaked (a : AsyncIo κ) : List ℕ :=
  (List.range a.nextData).filter fun d => d ∉ a.deleted ∧ d ∉ a.ctx.map (·.data)

/-- Over events that all report their size, the completion loop completes every one. -/
theorem processEvents_eq_completeAll {a : AsyncIo κ} {es : List (IoEvent κ)}
    (h : ∀ e ∈ es, FullSize e) : processEvents a es = .returned (a.completeAll (es.map (·.obj))) := by
  induction es generalizing a with
  | nil => rfl
  | cons e es ih =>
    rw [processEvents_cons_of_fullSize (h e (List.mem_cons_self _ _)),
      ih fun e' h' => h e' (List.mem_cons_of_mem _ h')]
    rfl

/-- A submission leaks its own `callback_data` when `io_submit` refuses it, and nothing else. -/
theorem leaked_submitTail
    (hlt : ∀ d, d ∈ a.deleted ∨ d ∈ a.ctx.map (·.data) → d < a.nextData) (req : Request κ)
    (ret : ℤ) :
    leaked (submitTail a req ret).state = leaked a ++ if ret = 1 then [] else [a.nextData] := by
  unfold AsyncIo.submitTail leaked
  split
  · -- the new `callback_data` is in the kernel; the old addresses are as they were
    simp only [Outcome.state, List.range_succ, List.filter_append, List.map_append, List.mem_append,
      List.map_cons, List.map_nil, List.mem_singleton, not_or, List.append_nil,
      List.filter_singleton, not_true_eq_false, and_false, decide_False, cond_false]
    refine List.filter_congr fun d hd => ?_
    rw [List.mem_range] at hd
    simp [Nat.ne_of_lt hd]
  · -- the refused one's is neither deleted nor in the kernel
    have h1 := mt (hlt a.nextData) (Nat.lt_irrefl _)
    rw [not_or] at h1
    simp only [Outcome.state, List.range_succ, List.filter_append, List.filter_singleton,
      decide_eq_true h1, cond_true]

/-- A `retrieveCompletions` over events that all report their size deletes the `callback_data` of
every iocb it takes out of the kernel, and so leaks none. -/
theorem leaked_retrieve {o : Outcome (AsyncIo κ)} (hr : Retrieve FullSize a o) :
    leaked o.state = leaked a := by
  obtain ⟨events, rest, ⟨hp, -⟩, hf⟩ := hr
  rw [retrieveCompletions, processEvents_eq_completeAll hf]
  simp only [Outcome.state, leaked, completeAll_nextData, completeAll_deleted, completeAll_ctx]
  refine List.filter_congr fun d _ => ?_
  have hmem := (hp.map (·.data)).mem_iff (a := d)
  simp only [List.map_append, List.map_map, List.mem_append, Function.comp_def] at hmem
  simp only [List.mem_append, hmem, not_or, and_assoc, List.map_map, Function.comp_def]

/-- At every reachable state of an engine whose completions all report their size, the
`callback_data` deleted and those the kernel holds are, as a multiset, those of the accepted
submissions, so the leaked ones are exactly the allocations of refused submissions. The next
submission leaks its own `callback_data`, one, exactly when `io_submit` refuses it, and a
`retrieveCompletions` leaks none. -/
theorem callback_data_leaks_of_full_run {c : ℕ} (h : Reachable FullSize c a) :
    (a.deleted ++ a.ctx.map (·.data)).Perm (a.submitted.map (·.data)) ∧
      leaked a = (List.range a.nextData).filter (· ∉ a.submitted.map (·.data)) ∧
      (∀ (req : Request κ) (ret : ℤ),
        leaked (submitTail a req ret).state = leaked a ++ if ret = 1 then [] else [a.nextData]) ∧
      ∀ o, Retrieve FullSize a o → leaked o.state = leaked a := by
  have hperm : (a.deleted ++ a.ctx.map (·.data)).Perm (a.submitted.map (·.data)) := by
    rw [(owned_of_reachable h).deleted, ← List.map_append]
    exact ((conserved_of_reachable h).map _).symm
  -- every address deleted or held by the kernel was allocated
  have hlt (d) (hd : d ∈ a.deleted ∨ d ∈ a.ctx.map (·.data)) : d < a.nextData := by
    rw [(owned_of_reachable h).deleted, ← List.mem_append, ← List.map_append] at hd
    obtain ⟨r, hr, rfl⟩ := List.mem_map.1 hd
    exact h.data_lt r hr
  refine ⟨hperm, List.filter_congr fun d _ => decide_eq_decide.2 ?_, leaked_submitTail hlt,
    fun o => leaked_retrieve⟩
  simpa only [List.mem_append, not_or] using (hperm.mem_iff (a := d)).not

/-- One accepted write of a page on `AsyncIO(128)`, one refused, then a `retrieveCompletions` that
returns the first write complete: the refused one's `callback_data`, at address `1`, is the leak. -/
theorem callback_data_leaks_of_full_run_retrieved :
    let a : AsyncIo Unit := (retrieveCompletions
      (submitTail (submitTail (init 128) ⟨.pwrite, 3, 0, 0, 4096, ()⟩ 1).state
        ⟨.pwrite, 3, 4096, 0, 4096, ()⟩ (-11)).state
      [⟨⟨⟨.pwrite, 3, 0, 0, 4096, ()⟩, 0⟩, 4096⟩] []).state
    (a.deleted ++ a.ctx.map (·.data)).Perm (a.submitted.map (·.data)) ∧
      leaked a = (List.range a.nextData).filter (· ∉ a.submitted.map (·.data)) ∧
      (∀ (req : Request Unit) (ret : ℤ),
        leaked (submitTail a req ret).state = leaked a ++ if ret = 1 then [] else [a.nextData]) ∧
      ∀ o, Retrieve FullSize a o → leaked o.state = leaked a :=
  callback_data_leaks_of_full_run
    ((((Reachable.init : Reachable FullSize 128 (init 128)).submit ⟨.pwrite, 3, 0, 0, 4096, ()⟩ 1
      rfl).submit ⟨.pwrite, 3, 4096, 0, 4096, ()⟩ (-11) rfl).retrieve
      (.mk _ _ ⟨.refl _, by decide⟩ (by simp [FullSize])))

example :
    leaked (retrieveCompletions
      (submitTail (submitTail (init 128) ⟨.pwrite, 3, 0, 0, 4096, ()⟩ 1).state
        ⟨.pwrite, 3, 4096, 0, 4096, ()⟩ (-11)).state
      [⟨⟨⟨.pwrite, 3, 0, 0, 4096, ()⟩, 0⟩, 4096⟩] []).state = [1] := by
  decide

end Dfmodules.AsyncIo
