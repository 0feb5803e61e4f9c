import Dfmodules.Correlator.DoWork

/-!
# The eviction loop

Two facts decide what one eviction pass of `FragmentReceiver::do_work` does.

* The iterator. After `it = trigger_decisions_.erase(it)` the loop header runs `++it` again, so
  the successor of every erased entry is stepped over untested, and erasing the last entry
  increments `end()`. `evictLoop_eq_filter_iff` shows that the pass erases exactly the stale
  entries, within the map, if and only if no stale entry directly follows an erased one and the
  last entry is fresh (`StaleRunFree`).
* The test. `current_time - trigger_timestamp` is a `uint64_t` difference. For a decision at or
  before `current_time` it is the true age (`isStale_iff_of_le`); for a decision after
  `current_time`, which `do_work` reaches whenever decisions arrive out of timestamp order, it
  wraps to at least `2^63`, above every non-negative threshold (`isStale_of_lt`).
-/

namespace Dfmodules.FragmentReceiver

variable {stale : TriggerDecision → Bool}

/-! ## What the loop erases -/

/-- The loop erases entries of the map, in map order. -/
theorem evictLoop_sublist {es er : List (TriggerId × TriggerDecision)}
    (h : evictLoop stale es = some er) : er.Sublist es := by
  induction es using evictLoop.induct stale generalizing er with
  | case1 => cases h; exact .slnil
  | case2 e hs => simp [evictLoop, hs] at h
  | case3 e hs => simp only [evictLoop, hs] at h; cases h; exact List.nil_sublist _
  | case4 e e' es hs ih =>
    simp only [evictLoop, hs, if_true, Option.map_eq_some'] at h
    obtain ⟨er', h', rfl⟩ := h
    exact ((ih h').cons e').cons₂ e
  | case5 e e' es hs ih =>
    simp only [evictLoop, hs, if_false] at h
    exact (ih h).cons e

/-- The loop erases only stale entries. -/
theorem stale_of_mem_evictLoop {es er : List (TriggerId × TriggerDecision)}
    (h : evictLoop stale es = some er) {e : TriggerId × TriggerDecision} (he : e ∈ er) :
    stale e.2 = true := by
  induction es using evictLoop.induct stale generalizing er with
  | case1 => cases h; simp at he
  | case2 e hs => simp [evictLoop, hs] at h
  | case3 e hs => simp only [evictLoop, hs] at h; cases h; simp at he
  | case4 e₀ e' es hs ih =>
    simp only [evictLoop, hs, if_true, Option.map_eq_some'] at h
    obtain ⟨er', h', rfl⟩ := h
    rcases List.mem_cons.mp he with rfl | he
    · exact hs
    · exact ih h' he
  | case5 e₀ e' es hs ih =>
    simp only [evictLoop, hs, if_false] at h
    exact ih h he

theorem evictLoop_sublist_filter {es er : List (TriggerId × TriggerDecision)}
    (h : evictLoop stale es = some er) : er.Sublist (es.filter (stale ·.2)) := by
  have hall : er.filter (stale ·.2) = er :=
    List.filter_eq_self.mpr fun e he => stale_of_mem_evictLoop h he
  exact hall ▸ (evictLoop_sublist h).filter _

/-- No stale entry directly after a stale entry, and a fresh last entry: the maps on which the
loop's skip and its increment of `end()` never happen. -/
def StaleRunFree (stale : TriggerDecision → Bool) : List (TriggerId × TriggerDecision) → Prop
  | [] => True
  | [e] => stale e.2 = false
  | e :: e' :: es => (stale e.2 = false ∨ stale e'.2 = false) ∧ StaleRunFree stale (e' :: es)

theorem staleRunFree_cons_of_fresh {e : TriggerId × TriggerDecision}
    {es : List (TriggerId × TriggerDecision)} (he : stale e.2 = false) :
    StaleRunFree stale (e :: es) ↔ StaleRunFree stale es := by
  cases es with
  | nil => simp [StaleRunFree, he]
  | cons e' es => simp [StaleRunFree, he]

/-- One eviction pass erases exactly the stale decisions, and never increments `end()`, if and
only if no stale entry follows a stale entry and the last entry is fresh. -/
theorem evictLoop_eq_filter_iff (es : List (TriggerId × TriggerDecision)) :
    evictLoop stale es = some (es.filter (stale ·.2)) ↔ StaleRunFree stale es := by
  induction es using evictLoop.induct stale with
  | case1 => simp [evictLoop, StaleRunFree]
  | case2 e hs => simp [evictLoop, StaleRunFree, hs]
  | case3 e hs => simp [evictLoop, StaleRunFree, Bool.not_eq_true _ ▸ hs]
  | case4 e e' es hs ih =>
    by_cases hs' : stale e'.2 = true
    · -- the erased successor `e'` is stale but skipped: the loop cannot reach the filter
      refine iff_of_false (fun h => ?_) (by simp [StaleRunFree, hs, hs'])
      simp only [evictLoop, hs, if_true, Option.map_eq_some', List.filter_cons, hs',
        if_true, List.cons.injEq] at h
      obtain ⟨er, h', -, rfl⟩ := h
      have := (evictLoop_sublist_filter h').length_le
      simp only [List.length_cons] at this
      omega
    · have hf : stale e'.2 = false := by simpa using hs'
      simp only [evictLoop, hs, if_true, List.filter_cons, hf, StaleRunFree,
        staleRunFree_cons_of_fresh hf, ← ih]
      simp
  | case5 e e' es hs ih =>
    have hf : stale e.2 = false := by simpa using hs
    simp [evictLoop, hs, StaleRunFree, hf, ih]

/-- With `max_time_difference_ = 10`, `do_work` pops the decision (run 1, trigger 2, timestamp 0)
and, one pass later, (run 1, trigger 1, timestamp 11): that pass erases the last entry and
increments `end()`. Among three entries at `current_time = 100` of which the first two are stale,
the loop erases the first and steps over the second. -/
theorem evictLoop_overruns_and_skips :
    (doWork ⟨1, 1, 1, 10⟩ init [⟨[⟨2, 1, 0, [0]⟩], [], fun _ => true⟩]).isSome ∧
    doWork ⟨1, 1, 1, 10⟩ init
      [⟨[⟨2, 1, 0, [0]⟩], [], fun _ => true⟩, ⟨[⟨1, 1, 11, [0]⟩], [], fun _ => true⟩] = none ∧
    evictLoop (isStale 10 100)
      [(⟨1, 1⟩, ⟨1, 1, 0, [0]⟩), (⟨2, 1⟩, ⟨2, 1, 0, [0]⟩), (⟨3, 1⟩, ⟨3, 1, 100, [0]⟩)] =
      some [(⟨1, 1⟩, ⟨1, 1, 0, [0]⟩)] :=
  ⟨rfl, rfl, rfl⟩

/-! ## The staleness test -/

/-- For a decision at or before `current_time` the test compares the true age. -/
theorem isStale_iff_of_le {m : ℤ} {now : ℕ} {td : TriggerDecision}
    (hle : td.triggerTimestamp ≤ now) (hnow : now < 2 ^ 64) (hm : 0 ≤ m) (hm' : m < 2 ^ 63) :
    isStale m now td = true ↔ m < ((now - td.triggerTimestamp : ℕ) : ℤ) := by
  simp only [isStale, decide_eq_true_eq, gt_iff_lt]
  omega

/-- A decision fifty ticks old against the threshold `10`. -/
theorem isStale_iff_of_le_fifty :
    isStale 10 100 ⟨1, 1, 50, []⟩ = true ↔ (10 : ℤ) < ((100 - 50 : ℕ) : ℤ) :=
  isStale_iff_of_le (by decide) (by decide) (by decide) (by decide)

/-- A decision up to `2^63` after `current_time` has a wrapped age of at least `2^63`, and is
stale for every non-negative threshold. -/
theorem isStale_of_lt {m : ℤ} {now : ℕ} {td : TriggerDecision}
    (hlt : now < td.triggerTimestamp) (hgap : td.triggerTimestamp ≤ now + 2 ^ 63)
    (hm : 0 ≤ m) (hm' : m < 2 ^ 63) : isStale m now td = true := by
  simp only [isStale, decide_eq_true_eq, gt_iff_lt]
  omega

/-- A decision fifty ticks after `current_time` against the threshold `10`. -/
theorem isStale_of_lt_fifty_ahead : isStale 10 50 ⟨1, 1, 100, []⟩ = true :=
  isStale_of_lt (by decide) (by decide) (by decide) (by decide)

/-- With `max_time_difference_ = 10`, `do_work` pops the decision (run 1, trigger 1, timestamp
100) and, one pass later, (run 1, trigger 2, timestamp 50): `current_time` drops to 50, and the
eviction loop erases the first decision, fifty ticks in the future, as timed out. -/
theorem eviction_of_newer_decision :
    (doWork ⟨1, 1, 1, 10⟩ init
      [⟨[⟨1, 1, 100, [0]⟩], [], fun _ => true⟩, ⟨[⟨2, 1, 50, [0]⟩], [], fun _ => true⟩]).map
      (fun s => (s.currentTime, s.triggerDecisions.find ⟨1, 1⟩, s.issues)) =
      some (50, none, [.timedOutTriggerDecision 1 1 100 50]) := by
  decide

end Dfmodules.FragmentReceiver
