import Dfmodules.FakeFragRec.Basic

/-!
# `FakeFragRec` pairs decisions and fragments by position

A run of `do_work` starts from the queues as they are, and other threads push decisions and
fragments, pop records and clear the flag in any interleaving. Nothing in `do_work` reads a
fragment's trigger number: the `k`-th record it pushes is `cycles`' `k`-th, the `k`-th decision
popped during the run with the `k`-th fragment popped from each queue. Every record pushed has one
fragment from every queue, and at most the last decision popped has no record pushed.

At every point of a run its counters are its pops, as long as they stay below `2^31`. The worker
is between two cycles, or it is in one, or a stop made it abandon one; in the last two cases the
last decision popped has no record, and the queues it had not reached yet each gave one fragment
fewer. When the producers push in step and a run starts with the queues in step, every record is
consistent.

The queues are not drained when the thread stops. How far each fragment queue lags the decision
queue never decreases over any number of runs (`lag_mono`), and each later run pairs from where
the queues stand, so the shift a stop in the middle of a collection makes stays in every later
run (`queues_never_back_in_step`).

Skeleton:

* `cycles_snoc`, `getElem?_cycles`: a new column of `cycles`, and its `k`-th record;
* `Progress`, `RunInv`: the worker's position against its completed cycles, and the run
  invariant;
* `RunInv.move`, `RunInv.step`, `RunInv.steps`: one worker move, one move of any thread, a whole
  run;
* `records_pair_by_position`, `received_counts`, `records_consistent_of_aligned`;
* `lag_move`, `lag_session`, `lag_mono`, `queues_never_back_in_step`: across restarts.
-/

namespace Dfmodules.FakeFragRec

variable {n : ℕ} {ds : List TriggerDecision} {fs gs : ℕ → List Fragment}

/-! ## The cycles of the work loop -/

/-- The records of successive cycles over popped sequences: the `k`-th pairs the `k`-th decision
with the `k`-th fragment of each of the queues `0, …, n - 1`, in queue order (a queue with no
`k`-th fragment contributes none). -/
def cycles (n : ℕ) : List TriggerDecision → (ℕ → List Fragment) → List Record
  | [], _ => []
  | td :: ds, fs =>
    makeRecord td ((List.range n).filterMap fun i => (fs i).head?) :: cycles n ds fun i => (fs i).tail

@[simp] theorem cycles_nil (n : ℕ) (fs : ℕ → List Fragment) : cycles n [] fs = [] := rfl

theorem cycles_cons (n : ℕ) (td : TriggerDecision) (ds : List TriggerDecision)
    (fs : ℕ → List Fragment) :
    cycles n (td :: ds) fs =
      makeRecord td ((List.range n).filterMap fun i => (fs i).head?) ::
        cycles n ds fun i => (fs i).tail := rfl

@[simp] theorem length_cycles (n : ℕ) (ds : List TriggerDecision) (fs : ℕ → List Fragment) :
    (cycles n ds fs).length = ds.length := by
  induction ds generalizing fs <;> simp [cycles_cons, *]

/-- `cycles` reads only the queues below `n`. -/
theorem cycles_congr (h : ∀ i < n, fs i = gs i) : cycles n ds fs = cycles n ds gs := by
  induction ds generalizing fs gs with
  | nil => rfl
  | cons td ds ih =>
    rw [cycles_cons, cycles_cons, List.filterMap_congr fun i hi => by rw [h i (List.mem_range.1 hi)],
      ih fun i hi => by rw [h i hi]]

/-- Appending a column: after the complete columns `fs` of `ds`, the decision `td` with the heads
of `gs`. -/
theorem cycles_snoc (td : TriggerDecision) (hfs : ∀ i < n, (fs i).length = ds.length) :
    cycles n (ds ++ [td]) (fun i => fs i ++ gs i) =
      cycles n ds fs ++ [makeRecord td ((List.range n).filterMap fun i => (gs i).head?)] := by
  induction ds generalizing fs with
  | nil =>
    have hnil (i) (hi : i ∈ List.range n) : (fs i ++ gs i).head? = (gs i).head? := by
      rw [List.eq_nil_of_length_eq_zero (hfs i (List.mem_range.1 hi)), List.nil_append]
    rw [List.nil_append, cycles_cons, List.filterMap_congr hnil]
    rfl
  | cons d ds ih =>
    have hne (i) (hi : i < n) : fs i ≠ [] := List.ne_nil_of_length_pos (by simp [hfs i hi])
    have hhead (i) (hi : i ∈ List.range n) : (fs i ++ gs i).head? = (fs i).head? := by
      cases h : fs i with
      | nil => exact absurd h (hne i (List.mem_range.1 hi))
      | cons => rfl
    rw [List.cons_append, cycles_cons, cycles_cons, List.filterMap_congr hhead,
      cycles_congr fun i hi => List.tail_append_of_ne_nil (hne i hi),
      ih fun i hi => by simp [hfs i hi], List.cons_append]

/-- The records of complete columns carry one fragment from each queue. -/
theorem length_fragments_of_mem_cycles (hfs : ∀ i < n, (fs i).length = ds.length) {r : Record}
    (hr : r ∈ cycles n ds fs) : r.fragments.length = n := by
  induction ds generalizing fs with
  | nil => simp at hr
  | cons td ds ih =>
    rw [cycles_cons, List.mem_cons] at hr
    rcases hr with rfl | hr
    · have hsome (i) (hi : i ∈ List.range n) : (fs i).head?.isSome := by
        cases h : fs i with
        | nil => simpa [h] using hfs i (List.mem_range.1 hi)
        | cons => rfl
      simpa [makeRecord] using List.filterMap_length_eq_length.2 hsome
    · exact ih (fun i hi => by simp [hfs i hi]) hr

/-- A record of `cycles` has the header of the decision at some position `k`, and its fragments
are the `k`-th entries of the queues. -/
theorem exists_of_mem_cycles {r : Record} (hr : r ∈ cycles n ds fs) :
    ∃ (k : ℕ) (td : TriggerDecision), ds[k]? = some td ∧ r.triggerNumber = td.triggerNumber ∧
      r.runNumber = td.runNumber ∧ ∀ f ∈ r.fragments, ∃ i < n, (fs i)[k]? = some f := by
  induction ds generalizing fs with
  | nil => simp at hr
  | cons td ds ih =>
    rw [cycles_cons, List.mem_cons] at hr
    rcases hr with rfl | hr
    · refine ⟨0, td, by simp, rfl, rfl, fun f hf => ?_⟩
      obtain ⟨i, hi, hf⟩ := List.mem_filterMap.1 hf
      exact ⟨i, List.mem_range.1 hi, by rwa [← List.head?_eq_getElem?]⟩
    · obtain ⟨k, td', hk, h1, h2, hf⟩ := ih hr
      exact ⟨k + 1, td', by simpa using hk, h1, h2, fun f hf' => by simpa using hf f hf'⟩

/-- The `i`-th entry of a `filterMap` over `range n` that drops nothing. -/
theorem getElem?_filterMap_range {α : Type} {g : ℕ → Option α} {n i : ℕ}
    (hg : ∀ j < n, (g j).isSome) (hi : i < n) : ((List.range n).filterMap g)[i]? = g i := by
  induction n with
  | zero => omega
  | succ n ih =>
    have hlen : ((List.range n).filterMap g).length = n := by
      simpa using (List.filterMap_length_eq_length (f := g) (l := List.range n)).2
        fun j hj => hg j (by rw [List.mem_range] at hj; omega)
    obtain ⟨x, hx⟩ := Option.isSome_iff_exists.1 (hg n (by omega))
    rw [List.range_succ, List.filterMap_append]
    simp only [List.filterMap_cons, List.filterMap_nil, hx]
    rcases Nat.lt_or_ge i n with h | h
    · rw [List.getElem?_append_left (by omega), ih (fun j hj => hg j (by omega)) h]
    · obtain rfl : i = n := by omega
      simp [hlen, hx]

/-- The `k`-th record of complete columns carries the `k`-th decision's header and, in queue
order, the `k`-th fragment of each queue. -/
theorem getElem?_cycles (hfs : ∀ i < n, (fs i).length = ds.length) {k : ℕ} {r : Record}
    (hr : (cycles n ds fs)[k]? = some r) :
    ∃ td, ds[k]? = some td ∧ r = makeRecord td r.fragments ∧
      ∀ i < n, r.fragments[i]? = (fs i)[k]? := by
  induction ds generalizing fs k with
  | nil => simp at hr
  | cons td ds ih =>
    rw [cycles_cons] at hr
    cases k with
    | zero =>
      obtain rfl := Option.some.inj ((List.getElem?_cons_zero).symm.trans hr)
      refine ⟨td, List.getElem?_cons_zero, rfl, fun i hi => ?_⟩
      have hne (j) (hj : j < n) : ((fs j).head?).isSome := by
        cases h : fs j with
        | nil => simpa [h] using hfs j hj
        | cons => rfl
      rw [makeRecord, getElem?_filterMap_range hne hi, List.head?_eq_getElem?]
    | succ k =>
      rw [List.getElem?_cons_succ] at hr
      obtain ⟨td', h1, h2, h3⟩ := ih (fun i hi => by simp [hfs i hi]) hr
      exact ⟨td', by rwa [List.getElem?_cons_succ], h2, fun i hi => by rw [h3 i hi, List.getElem?_tail]⟩

/-- The first `n` entries of `l`, read by index. -/
theorem filterMap_range_getElem? (l : List Fragment) (n : ℕ) :
    (List.range n).filterMap (fun i => (l[i]?).toList.head?) = l.take n := by
  induction n with
  | zero => simp
  | succ n ih =>
    rw [List.range_succ, List.filterMap_append, ih, List.take_succ]
    rcases h : l[n]? with _ | x <;> simp [h]

theorem getElem?_concat_of_ne {l : List Fragment} {f : Fragment} {i : ℕ} (h : i ≠ l.length) :
    (l ++ [f])[i]? = l[i]? := by
  rcases Nat.lt_or_gt_of_ne h with h | h
  · exact List.getElem?_append_left h
  · rw [List.getElem?_eq_none (by simp; omega), List.getElem?_eq_none (by omega)]

/-! ## The run invariant -/

/-- The worker holds a cycle for `td` with `frags` collected: it is in the fragment loop, or in
the push loop (with a fragment from every queue unless the flag is clear), or the flag is clear and
it has abandoned the record. -/
def Holds (n : ℕ) (phase : Phase) (running : Bool) (td : TriggerDecision)
    (frags : List Fragment) : Prop :=
  phase = .collect td frags ∨ (phase = .push (makeRecord td frags) ∧ (running → frags.length = n)) ∨
    (running = false ∧ (phase = .loop ∨ phase = .exited))

/-- The worker's phase, flag, counters, and the decisions `D` and fragments `F` it popped, against
its completed cycles `ds`, `fs`: between two cycles, or within the cycle of `td` with `frags`. -/
inductive Progress (n : ℕ) (ds : List TriggerDecision) (fs : ℕ → List Fragment) (phase : Phase)
    (running : Bool) (triggers fragments : ℕ) (D : List TriggerDecision)
    (F : ℕ → List Fragment) : Prop
  | between : phase = .loop ∨ phase = .exited → triggers = ds.length →
      fragments = n * ds.length → D = ds → (∀ i < n, F i = fs i) →
      Progress n ds fs phase running triggers fragments D F
  | within (td : TriggerDecision) (frags : List Fragment) : Holds n phase running td frags →
      frags.length ≤ n → triggers = ds.length + 1 → fragments = n * ds.length + frags.length →
      D = ds ++ [td] → (∀ i < n, F i = fs i ++ (frags[i]?).toList) →
      Progress n ds fs phase running triggers fragments D F

/-- The decisions the worker popped since `s₀`. -/
def decisionsSince (s₀ s : FakeFragRec) : List TriggerDecision :=
  s₀.triggerDecisionInputQueue.since s.triggerDecisionInputQueue

/-- The fragments the worker popped from queue `i` since `s₀`. -/
def fragmentsSince (s₀ s : FakeFragRec) (i : ℕ) : List Fragment :=
  (s₀.dataFragmentInputQueues i).since (s.dataFragmentInputQueues i)

/-- The records the worker pushed since `s₀`. -/
def recordsSince (s₀ s : FakeFragRec) : List Record :=
  s.triggerRecordOutputQueue.pushed.drop s₀.triggerRecordOutputQueue.pushed.length

/-- The run invariant from `s₀`: the queues only grew and advanced, the records pushed are the
completed cycles, the counters hold the counts `t` and `u` modulo `2^32`, and the worker is at
`Progress` against the cycles. -/
structure RunInv (cfg : Setup) (s₀ s : FakeFragRec) : Prop where
  decisions : s₀.triggerDecisionInputQueue.Extends s.triggerDecisionInputQueue
  fragments : ∀ i, (s₀.dataFragmentInputQueues i).Extends (s.dataFragmentInputQueues i)
  records : s₀.triggerRecordOutputQueue.pushed <+: s.triggerRecordOutputQueue.pushed
  progress : ∃ ds fs t u, (∀ i < cfg.fragmentQueueCount, (fs i).length = ds.length) ∧
    recordsSince s₀ s = cycles cfg.fragmentQueueCount ds fs ∧
    s.receivedTriggerCount = BitVec.ofNat 32 t ∧ s.receivedFragmentCount = BitVec.ofNat 32 u ∧
    Progress cfg.fragmentQueueCount ds fs s.phase s.runningFlag t u (decisionsSince s₀ s)
      (fragmentsSince s₀ s)

variable {cfg : Setup} {s₀ s : FakeFragRec}

/-- A thread between cycles with its counters at zero starts a run. -/
theorem RunInv.refl (hp : s₀.phase = .loop ∨ s₀.phase = .exited)
    (ht : s₀.receivedTriggerCount = 0) (hf : s₀.receivedFragmentCount = 0) : RunInv cfg s₀ s₀ :=
  ⟨.refl _, fun _ => .refl _, List.prefix_refl _,
    ⟨[], fun _ => [], 0, 0, fun _ _ => rfl, by simp [recordsSince, cycles], ht, hf,
      .between hp rfl (by simp) (Queue.since_self _) fun _ _ => Queue.since_self _⟩⟩

/-- An `int32_t` counter's `++`, on the bits of a count. -/
theorem ofNat_add_one (t : ℕ) : BitVec.ofNat 32 t + 1 = BitVec.ofNat 32 (t + 1) :=
  BitVec.ofNat_add_ofNat t 1

/-- Below `2^31` the bits of a count read as that count. -/
theorem toInt_ofNat_of_lt {t : ℕ} (h : t < 2 ^ 31) : (BitVec.ofNat 32 t).toInt = t := by
  rw [BitVec.toInt_eq_toNat_cond, BitVec.toNat_ofNat, Nat.mod_eq_of_lt (by omega),
    if_pos (by omega)]

/-! ## The worker's progress, move by move -/

section Progress

variable {phase : Phase} {running : Bool} {t u : ℕ} {D : List TriggerDecision}
  {F : ℕ → List Fragment} {td : TriggerDecision} {frags : List Fragment}

/-- The only cycle the worker holds in the fragment loop is the one its phase names. -/
theorem Holds.collect {td' : TriggerDecision} {frags' : List Fragment}
    (h : Holds n (.collect td frags) running td' frags') : td = td' ∧ frags = frags' := by
  rcases h with h | ⟨h, -⟩ | ⟨-, h | h⟩ <;> cases h
  exact ⟨rfl, rfl⟩

/-- A clear flag keeps the worker's progress. -/
theorem Progress.stop (h : Progress n ds fs phase running t u D F) :
    Progress n ds fs phase false t u D F := by
  cases h with
  | between hp ht hf hD hF => exact .between hp ht hf hD hF
  | within td frags hh hl ht hf hD hF =>
    refine .within td frags ?_ hl ht hf hD hF
    rcases hh with hh | ⟨hh, -⟩ | ⟨-, hh⟩
    · exact .inl hh
    · exact .inr (.inl ⟨hh, nofun⟩)
    · exact .inr (.inr ⟨rfl, hh⟩)

/-- Popping a decision opens its cycle. -/
theorem Progress.popDecision (h : Progress n ds fs .loop true t u D F) (td : TriggerDecision) :
    Progress n ds fs (.collect td []) true (t + 1) u (D ++ [td]) F := by
  cases h with
  | between _ ht hf hD hF =>
    exact .within td [] (.inl rfl) (Nat.zero_le _) (by rw [ht]) (by simpa using hf) (by rw [hD])
      fun i hi => by simpa using hF i hi
  | within _ _ hh => rcases hh with hh | ⟨hh, -⟩ | ⟨hh, -⟩ <;> cases hh

/-- Leaving the work loop keeps the progress. -/
theorem Progress.exit (h : Progress n ds fs .loop running t u D F) (hr : running = false) :
    Progress n ds fs .exited running t u D F := by
  cases h with
  | between _ ht hf hD hF => exact .between (.inr rfl) ht hf hD hF
  | within td frags _ hl ht hf hD hF =>
    exact .within td frags (.inr (.inr ⟨hr, .inr rfl⟩)) hl ht hf hD hF

/-- Popping a fragment from the queue the worker waits on adds it to the cycle's column. -/
theorem Progress.popFragment {f : Fragment} (h : Progress n ds fs (.collect td frags) running t u D F)
    (hlt : frags.length < n) :
    Progress n ds fs (.collect td (frags ++ [f])) running t (u + 1) D
      (Function.update F frags.length (F frags.length ++ [f])) := by
  cases h with
  | between hp => rcases hp with hp | hp <;> cases hp
  | within td' frags' hh hl ht hf hD hF =>
    obtain ⟨rfl, rfl⟩ := Holds.collect hh
    refine .within td (frags ++ [f]) (.inl rfl) (by simpa using hlt) ht (by simp [hf]; omega) hD
      fun i hi => ?_
    by_cases hij : i = frags.length
    · subst hij; simp [hF _ hi, List.getElem?_eq_none]
    · rw [Function.update_noteq hij, hF i hi, getElem?_concat_of_ne hij]

/-- Building the record keeps the cycle; with the flag set, every queue has given its fragment. -/
theorem Progress.build (h : Progress n ds fs (.collect td frags) running t u D F)
    (hc : ¬ (frags.length < n ∧ running)) :
    Progress n ds fs (.push (makeRecord td frags)) running t u D F := by
  cases h with
  | between hp => rcases hp with hp | hp <;> cases hp
  | within td' frags' hh hl ht hf hD hF =>
    obtain ⟨rfl, rfl⟩ := Holds.collect hh
    exact .within td frags (.inr (.inl ⟨rfl, fun hrun => by
      have := not_and.1 hc; simp_all; omega⟩)) hl ht hf hD hF

/-- Leaving the push loop on a clear flag abandons the cycle. -/
theorem Progress.drop {tr : Record} (h : Progress n ds fs (.push tr) running t u D F)
    (hr : running = false) : Progress n ds fs .loop running t u D F := by
  cases h with
  | between hp => rcases hp with hp | hp <;> cases hp
  | within td frags _ hl ht hf hD hF =>
    exact .within td frags (.inr (.inr ⟨hr, .inl rfl⟩)) hl ht hf hD hF

/-- A record pushed with the flag set closes a cycle with a fragment from every queue. -/
theorem Progress.pushRecord {tr : Record} (h : Progress n ds fs (.push tr) true t u D F) :
    ∃ td frags, tr = makeRecord td frags ∧ frags.length = n ∧
      Progress n (ds ++ [td]) (fun i => fs i ++ (frags[i]?).toList) .loop true t u D F := by
  cases h with
  | between hp => rcases hp with hp | hp <;> cases hp
  | within td frags hh _ ht hf hD hF =>
    obtain ⟨rfl, hn⟩ : tr = makeRecord td frags ∧ frags.length = n := by
      rcases hh with hh | ⟨hh, hn⟩ | ⟨hh, -⟩ <;> cases hh
      exact ⟨rfl, hn rfl⟩
    exact ⟨td, frags, rfl, hn, .between (.inl rfl) (by simpa using ht)
      (by simp [hf, hn, Nat.mul_succ]) hD hF⟩

end Progress

/-! ## One move at a time -/

/-- Every move of the worker keeps the run invariant. -/
theorem RunInv.move {s' : FakeFragRec} (h : RunInv cfg s₀ s) (hm : Move cfg s s') :
    RunInv cfg s₀ s' := by
  obtain ⟨hd, hfr, hr, ds, fs, t, u, hfs, hrec, hT, hU, hprog⟩ := h
  cases hm with
  | idle | warn => exact ⟨hd, hfr, hr, ds, fs, t, u, hfs, hrec, hT, hU, hprog⟩
  | popDecision td q hp hrun hq =>
    rw [hp, hrun] at hprog
    refine ⟨hd.pop hq, hfr, hr, ds, fs, t + 1, u, hfs, hrec, by rw [hT, ofNat_add_one], hU, ?_⟩
    simpa only [hrun, decisionsSince, Queue.since_of_pop hq hd.popped] using hprog.popDecision td
  | exit hp hrun =>
    rw [hp] at hprog
    exact ⟨hd, hfr, hr, ds, fs, t, u, hfs, hrec, hT, hU, hprog.exit hrun⟩
  | popFragment td frags f q hp hlt hrun hq =>
    refine ⟨hd, fun i => ?_, hr, ds, fs, t, u + 1, hfs, hrec, hT, by rw [hU, ofNat_add_one], ?_⟩
    · by_cases hi : i = frags.length
      · subst hi; simpa using (hfr _).pop hq
      · simpa [Function.update_noteq hi] using hfr i
    rw [hp] at hprog
    convert hprog.popFragment hlt using 1
    funext i
    by_cases hi : i = frags.length
    · subst hi; simp [fragmentsSince, Queue.since_of_pop hq (hfr _).popped]
    · simp [fragmentsSince, Function.update_noteq hi]
  | build td frags hp hc =>
    rw [hp] at hprog
    exact ⟨hd, hfr, hr, ds, fs, t, u, hfs, hrec, hT, hU, hprog.build hc⟩
  | pushRecord tr hp hrun hroom =>
    rw [hp, hrun] at hprog
    obtain ⟨td, frags, rfl, hn, hprog'⟩ := hprog.pushRecord
    have hsome (i) (hi : i < cfg.fragmentQueueCount) : (frags[i]?).toList.length = 1 := by
      simp [List.getElem?_eq_getElem (hn ▸ hi : i < frags.length)]
    refine ⟨hd, hfr, hr.trans (List.prefix_append _ _), ds ++ [td],
      fun i => fs i ++ (frags[i]?).toList, t, u, fun i hi => by simp [hfs i hi, hsome i hi], ?_,
      hT, hU, by simpa only [hrun] using hprog'⟩
    rw [cycles_snoc td hfs, ← hrec, filterMap_range_getElem?, List.take_of_length_le hn.le]
    simp [recordsSince, List.drop_append_of_le_length hr.length_le]
  | drop tr hp hrun =>
    rw [hp] at hprog
    exact ⟨hd, hfr, hr, ds, fs, t, u, hfs, hrec, hT, hU, hprog.drop hrun⟩

/-- Every move of every thread keeps the run invariant. -/
theorem RunInv.step {s' : FakeFragRec} (h : RunInv cfg s₀ s) (hs : Step cfg s s') :
    RunInv cfg s₀ s' := by
  cases hs with
  | worker => exact h.move (move_workerStep cfg s)
  | produceDecision td =>
    obtain ⟨hd, hfr, hr, hp⟩ := h
    exact ⟨hd.push td, hfr, hr, by simpa [decisionsSince] using hp⟩
  | produceFragment i f =>
    obtain ⟨hd, hfr, hr, hp⟩ := h
    have hF : fragmentsSince s₀
        { s with dataFragmentInputQueues := Function.update s.dataFragmentInputQueues i
                                              ((s.dataFragmentInputQueues i).push f) } =
        fragmentsSince s₀ s := by
      funext j
      by_cases hj : j = i
      · subst hj; simp [fragmentsSince]
      · simp [fragmentsSince, Function.update_noteq hj]
    refine ⟨hd, fun j => ?_, hr, by rw [hF]; exact hp⟩
    by_cases hj : j = i
    · subst hj; simpa using (hfr j).push f
    · simpa [Function.update_noteq hj] using hfr j
  | consumeRecord r q hq =>
    obtain ⟨hd, hfr, hr, hp⟩ := h
    have hq' := (Queue.pop_eq_some hq).1
    exact ⟨hd, hfr, hq' ▸ hr, by simpa [recordsSince, hq'] using hp⟩
  | stop =>
    obtain ⟨hd, hfr, hr, ds, fs, t, u, hfs, hrec, hT, hU, hp⟩ := h
    exact ⟨hd, hfr, hr, ds, fs, t, u, hfs, hrec, hT, hU, hp.stop⟩

/-- A whole run keeps the run invariant. -/
theorem RunInv.steps {s' : FakeFragRec} (h : RunInv cfg s₀ s)
    (hs : Relation.ReflTransGen (Step cfg) s s') : RunInv cfg s₀ s' := by
  induction hs with
  | refl => exact h
  | tail _ hst ih => exact ih.step hst

theorem runInv_start (cfg : Setup) (s : FakeFragRec) : RunInv cfg (start s) (start s) :=
  RunInv.refl (.inl rfl) rfl rfl

/-! ## What a run pushes -/

/-- Over every run of `do_work`, from any state of the queues and whatever the other threads do,
the records pushed are the first cycles of what was popped: the `k`-th pairs the `k`-th decision
with the `k`-th fragment of each queue, by position and not by trigger number. Each has a fragment
from every queue, and at most the last decision popped has no record pushed. -/
theorem records_pair_by_position {cfg : Setup} {s s' : FakeFragRec}
    (h : Relation.ReflTransGen (Step cfg) (start s) s') :
    recordsSince (start s) s' <+:
        cycles cfg.fragmentQueueCount (decisionsSince (start s) s') (fragmentsSince (start s) s') ∧
      (decisionsSince (start s) s').length ≤ (recordsSince (start s) s').length + 1 ∧
      ∀ r ∈ recordsSince (start s) s', r.fragments.length = cfg.fragmentQueueCount := by
  obtain ⟨-, -, -, ds, fs, _, _, hfs, hrec, -, -, hprog⟩ := (runInv_start cfg s).steps h
  refine ⟨?_, ?_, fun r hr => length_fragments_of_mem_cycles hfs (hrec ▸ hr)⟩
  all_goals cases hprog with
  | between _ _ _ hD hF => simp [hrec, hD, cycles_congr hF]
  | within td frags _ _ _ _ hD hF =>
    simp [hrec, hD, cycles_congr hF, cycles_snoc td hfs]

/-- Two decisions on two queues whose fragments arrive in another order on the second queue: the
run of ten worker steps pushes two records, each pairing its decision with whatever came next on
each queue. -/
theorem records_pair_by_position_two_cycles :
    let s : FakeFragRec :=
      { init with
        triggerDecisionInputQueue := (Queue.empty.push ⟨1, 1, 10, [0, 1]⟩).push ⟨2, 1, 20, [0, 1]⟩
        dataFragmentInputQueues := fun i =>
          if i = 0 then (Queue.empty.push ⟨1, 1, 100⟩).push ⟨2, 1, 100⟩
          else (Queue.empty.push ⟨2, 1, 200⟩).push ⟨1, 1, 200⟩ }
    let s' := (workerStep ⟨2, 2⟩)^[10] (start s)
    recordsSince (start s) s' =
        [⟨1, 1, 10, [⟨1, 1, 100⟩, ⟨2, 1, 200⟩]⟩, ⟨2, 1, 20, [⟨2, 1, 100⟩, ⟨1, 1, 200⟩]⟩] ∧
      (recordsSince (start s) s' <+:
          cycles 2 (decisionsSince (start s) s') (fragmentsSince (start s) s') ∧
        (decisionsSince (start s) s').length ≤ (recordsSince (start s) s').length + 1 ∧
        ∀ r ∈ recordsSince (start s) s', r.fragments.length = 2) :=
  ⟨by decide, records_pair_by_position (worker_iterate _ _ 10)⟩

/-- The popped sequences extend the completed cycles. -/
theorem Progress.exists_append {phase : Phase} {running : Bool} {t f : ℕ}
    {D : List TriggerDecision} {F : ℕ → List Fragment}
    (h : Progress n ds fs phase running t f D F) {i : ℕ} (hi : i < n) :
    ∃ D' F', D = ds ++ D' ∧ F i = fs i ++ F' := by
  cases h with
  | between _ _ _ hD hF => exact ⟨[], [], by simp [hD], by simp [hF i hi]⟩
  | within td _ _ _ _ _ hD hF => exact ⟨[td], _, hD, hF i hi⟩

/-- When the producers push in step (wherever both histories reach, the `k`-th fragment pushed
onto each queue belongs to the `k`-th decision pushed) and a run starts with every fragment queue
popped as often as the decision queue, every record the run pushes is consistent: each of its
fragments carries its trigger and run numbers. -/
theorem records_consistent_of_aligned {cfg : Setup} {s s' : FakeFragRec}
    (h : Relation.ReflTransGen (Step cfg) (start s) s')
    (hstart : ∀ i < cfg.fragmentQueueCount,
      (s.dataFragmentInputQueues i).popped = s.triggerDecisionInputQueue.popped)
    (hstep : ∀ i < cfg.fragmentQueueCount,
      ∀ p ∈ (s'.dataFragmentInputQueues i).pushed.zip s'.triggerDecisionInputQueue.pushed,
        p.1.triggerNumber = p.2.triggerNumber ∧ p.1.runNumber = p.2.runNumber)
    {r : Record} (hr : r ∈ recordsSince (start s) s') {f : Fragment} (hf : f ∈ r.fragments) :
    f.triggerNumber = r.triggerNumber ∧ f.runNumber = r.runNumber := by
  obtain ⟨-, -, -, ds, fs, _, _, -, hrec, -, -, hprog⟩ := (runInv_start cfg s).steps h
  obtain ⟨k, td, hk, h1, h2, hfr⟩ := exists_of_mem_cycles (hrec ▸ hr)
  obtain ⟨i, hi, hfk⟩ := hfr f hf
  obtain ⟨D', F', hD, hF⟩ := hprog.exists_append hi
  -- both were popped at the same position of their queues
  have hd : s'.triggerDecisionInputQueue.pushed[s.triggerDecisionInputQueue.popped + k]? =
      some td := Queue.getElem?_since (show (decisionsSince (start s) s')[k]? = some td by
        rw [hD, List.getElem?_append_left (List.getElem?_eq_some_iff.1 hk).1, hk])
  have hfi : (s'.dataFragmentInputQueues i).pushed[s.triggerDecisionInputQueue.popped + k]? =
      some f := hstart i hi ▸ Queue.getElem?_since (show (fragmentsSince (start s) s' i)[k]? =
        some f by rw [hF, List.getElem?_append_left (List.getElem?_eq_some_iff.1 hfk).1, hfk])
  obtain ⟨hf1, hf2⟩ := hstep i hi (f, td)
    (List.getElem?_mem (List.getElem?_zip_eq_some.2 ⟨hfi, hd⟩))
  exact ⟨hf1.trans h1.symm, hf2.trans h2.symm⟩

/-- One decision and its fragment on a single queue: the run pops both and pushes the record. -/
theorem records_consistent_of_aligned_one_queue :
    (⟨7, 1, 100⟩ : Fragment).triggerNumber =
        (makeRecord ⟨7, 1, 5, [0]⟩ [⟨7, 1, 100⟩]).triggerNumber ∧
      (⟨7, 1, 100⟩ : Fragment).runNumber = (makeRecord ⟨7, 1, 5, [0]⟩ [⟨7, 1, 100⟩]).runNumber :=
  @records_consistent_of_aligned ⟨1, 1⟩
    { init with triggerDecisionInputQueue := Queue.empty.push ⟨7, 1, 5, [0]⟩,
                dataFragmentInputQueues := fun _ => Queue.empty.push ⟨7, 1, 100⟩ } _
    ((((Relation.ReflTransGen.single (.worker _)).tail (.worker _)).tail (.worker _)).tail
      (.worker _))
    (by decide) (by decide) _ (by decide) _ (by decide)

/-- At every point of a run, and so in the summary `do_work` logs when it returns, the counters are
the run's pops, as long as neither has reached `2^31`, where `++` would overflow. Either the
worker is between two cycles: every decision popped has its record, and every queue gave one
fragment per decision. Or it is in a cycle, or has abandoned one on a stop, after the first `m`
queues: that decision has no record yet, and the queues from `m` on gave one fragment fewer. -/
theorem received_counts {cfg : Setup} {s s' : FakeFragRec}
    (h : Relation.ReflTransGen (Step cfg) (start s) s')
    (hD : (decisionsSince (start s) s').length < 2 ^ 31)
    (hF : cfg.fragmentQueueCount * (decisionsSince (start s) s').length < 2 ^ 31) :
    s'.receivedTriggerCount.toInt = (decisionsSince (start s) s').length ∧
      (((recordsSince (start s) s').length = (decisionsSince (start s) s').length ∧
          s'.receivedFragmentCount.toInt =
            (cfg.fragmentQueueCount * (decisionsSince (start s) s').length : ℕ) ∧
          ∀ i < cfg.fragmentQueueCount,
            (fragmentsSince (start s) s' i).length = (decisionsSince (start s) s').length) ∨
        ((recordsSince (start s) s').length + 1 = (decisionsSince (start s) s').length ∧
          ∃ m ≤ cfg.fragmentQueueCount, s'.receivedFragmentCount.toInt =
              (cfg.fragmentQueueCount * (recordsSince (start s) s').length + m : ℕ) ∧
            ∀ i < cfg.fragmentQueueCount, (fragmentsSince (start s) s' i).length =
              if i < m then (decisionsSince (start s) s').length
              else (recordsSince (start s) s').length)) := by
  obtain ⟨-, -, -, ds, fs, t, u, hfs, hrec, hT, hU, hprog⟩ := (runInv_start cfg s).steps h
  rw [hT, hU]
  cases hprog with
  | between _ ht hf hD' hF' =>
    rw [hD'] at hD hF ⊢
    subst ht hf
    exact ⟨toInt_ofNat_of_lt hD, .inl ⟨by simp [hrec], toInt_ofNat_of_lt hF, fun i hi => by
      rw [hF' i hi, hfs i hi]⟩⟩
  | within td frags _ hl ht hf hD' hF' =>
    rw [hD'] at hD hF ⊢
    subst ht hf
    have hlen : (ds ++ [td]).length = ds.length + 1 := by simp
    rw [hlen] at hD hF ⊢
    have hu : cfg.fragmentQueueCount * ds.length + frags.length < 2 ^ 31 := by
      rw [Nat.mul_succ] at hF; omega
    refine ⟨toInt_ofNat_of_lt hD, .inr ⟨by simp [hrec], frags.length, hl,
      by rw [toInt_ofNat_of_lt hu, hrec, length_cycles], fun i hi => ?_⟩⟩
    rw [hF' i hi, List.length_append, hfs i hi, hrec, length_cycles]
    by_cases him : i < frags.length
    · simp [him, List.getElem?_eq_getElem him]
    · simp [him, List.getElem?_eq_none (Nat.le_of_not_lt him)]

/-- Two decisions on two queues, the second queue holding one fragment: after seven worker steps
the first cycle is pushed and the second waits on the second queue, with two decisions and three
fragments counted. -/
theorem received_counts_second_cycle :
    let s : FakeFragRec :=
      { init with
        triggerDecisionInputQueue := (Queue.empty.push ⟨1, 1, 10, [0, 1]⟩).push ⟨2, 1, 20, [0, 1]⟩
        dataFragmentInputQueues := fun i =>
          if i = 0 then (Queue.empty.push ⟨1, 1, 100⟩).push ⟨2, 1, 100⟩
          else Queue.empty.push ⟨1, 1, 200⟩ }
    let s' := (workerStep ⟨2, 1⟩)^[7] (start s)
    s'.receivedTriggerCount.toInt = (decisionsSince (start s) s').length ∧
      (((recordsSince (start s) s').length = (decisionsSince (start s) s').length ∧
          s'.receivedFragmentCount.toInt = (2 * (decisionsSince (start s) s').length : ℕ) ∧
          ∀ i < 2, (fragmentsSince (start s) s' i).length = (decisionsSince (start s) s').length) ∨
        ((recordsSince (start s) s').length + 1 = (decisionsSince (start s) s').length ∧
          ∃ m ≤ 2, s'.receivedFragmentCount.toInt =
              (2 * (recordsSince (start s) s').length + m : ℕ) ∧
            ∀ i < 2, (fragmentsSince (start s) s' i).length =
              if i < m then (decisionsSince (start s) s').length
              else (recordsSince (start s) s').length)) :=
  received_counts (worker_iterate _ _ 7) (by decide) (by decide)

example :
    let s : FakeFragRec :=
      { init with
        triggerDecisionInputQueue := (Queue.empty.push ⟨1, 1, 10, [0, 1]⟩).push ⟨2, 1, 20, [0, 1]⟩
        dataFragmentInputQueues := fun i =>
          if i = 0 then (Queue.empty.push ⟨1, 1, 100⟩).push ⟨2, 1, 100⟩
          else Queue.empty.push ⟨1, 1, 200⟩ }
    let s' := (workerStep ⟨2, 1⟩)^[7] (start s)
    s'.receivedTriggerCount.toInt = 2 ∧ s'.receivedFragmentCount.toInt = 3 ∧
      (recordsSince (start s) s').length = 1 := by
  decide

/-! ## Across restarts

`do_work` pops at most one fragment from each queue per decision, and `do_stop` does not drain the
queues. Count, for a fragment queue, how many more decisions than fragments of that queue have been
popped, leaving out the decision the worker is collecting for if it has not reached the queue yet
(`lag`). No move of any thread lowers that count, across any number of `do_stop`/`do_start`
cycles (`lag_mono`): it stays the same through complete cycles, and it grows by one for every
queue a stop leaves unserved. A later run pairs its decisions and fragments from the positions the
queues are at when it starts, so the shift a stop made stays in every later run.
-/

section Restarts

variable {s' : FakeFragRec}

/-- Whether the worker, at `phase`, holds a decision whose fragment from queue `i` it has not
popped yet. -/
def pending : Phase → ℕ → ℕ
  | .collect _ frags, i => if frags.length ≤ i then 1 else 0
  | .push tr, i => if tr.fragments.length ≤ i then 1 else 0
  | _, _ => 0

/-- Decisions popped minus fragments popped from queue `i`, the decision in hand left out if the
worker has not reached the queue yet. -/
def lag (s : FakeFragRec) (i : ℕ) : ℤ :=
  s.triggerDecisionInputQueue.popped - (s.dataFragmentInputQueues i).popped - pending s.phase i

theorem lag_of_phase {s : FakeFragRec} (h : s.phase = .loop ∨ s.phase = .exited) (i : ℕ) :
    lag s i = s.triggerDecisionInputQueue.popped - (s.dataFragmentInputQueues i).popped := by
  rcases h with h | h <;> simp [lag, pending, h]

/-- No move of the worker lowers the lag: a cycle keeps it, an abandoned one raises it. -/
theorem lag_move (hm : Move cfg s s') (i : ℕ) : lag s i ≤ lag s' i := by
  cases hm with
  | idle => exact le_rfl
  | warn => exact le_rfl
  | popDecision td q hp _ hq =>
    simp [lag, pending, hp, (Queue.pop_eq_some hq).2.1]
    omega
  | exit hp => simp [lag, pending, hp]
  | popFragment td frags f q hp _ _ hq =>
    have := (Queue.pop_eq_some hq).2.1
    simp only [lag, pending, hp, List.length_append, List.length_singleton]
    by_cases hi : i = frags.length
    · subst hi
      simp [this]
      omega
    · rw [Function.update_noteq hi]
      split_ifs <;> omega
  | build td frags hp => simp [lag, pending, hp, makeRecord]
  | pushRecord tr hp => simp only [lag, pending, hp]; split_ifs <;> simp
  | drop tr hp => simp only [lag, pending, hp]; split_ifs <;> simp

/-- No move of any thread, `do_start` included, lowers the lag. -/
theorem lag_session (hs : Session cfg s s') (i : ℕ) : lag s i ≤ lag s' i := by
  cases hs with
  | step hs =>
    cases hs with
    | worker => exact lag_move (move_workerStep cfg s) i
    | produceDecision => exact le_rfl
    | produceFragment j f =>
      by_cases hi : i = j
      · subst hi; simp [lag]
      · simp [lag, Function.update_noteq hi]
    | consumeRecord => exact le_rfl
    | stop => exact le_rfl
  | start hx => simp [lag, pending, hx, start]

theorem lag_mono (hs : Relation.ReflTransGen (Session cfg) s s') (i : ℕ) : lag s i ≤ lag s' i := by
  induction hs with
  | refl => exact le_rfl
  | tail _ hst ih => exact ih.trans (lag_session hst i)

/-- From any point where the worker holds no decision, over any later moves of the threads and
any number of `do_stop`/`do_start` cycles up to a `do_start` at `s₁`: no fragment queue has come
closer to the decision queue, and the run started at `s₁` pairs from where the queues stand. Its
`k`-th record has the header of the decision pushed at position `p + k` of the decision queue and,
from queue `i`, the fragment pushed at position `pᵢ + k`, where `p` and `pᵢ` are the pops made
before `s₁`: a shift `p - pᵢ` at least the one at the start. -/
theorem queues_never_back_in_step {cfg : Setup} {s s₁ s₂ : FakeFragRec}
    (h : Relation.ReflTransGen (Session cfg) s s₁) (hp : s.phase = .loop ∨ s.phase = .exited)
    (hx : s₁.phase = .exited) (hrun : Relation.ReflTransGen (Step cfg) (start s₁) s₂) {k : ℕ}
    {r : Record} (hr : (recordsSince (start s₁) s₂)[k]? = some r) {i : ℕ}
    (hi : i < cfg.fragmentQueueCount) :
    (s.triggerDecisionInputQueue.popped : ℤ) - (s.dataFragmentInputQueues i).popped ≤
        s₁.triggerDecisionInputQueue.popped - (s₁.dataFragmentInputQueues i).popped ∧
      (∃ td, s₂.triggerDecisionInputQueue.pushed[s₁.triggerDecisionInputQueue.popped + k]? =
          some td ∧ r = makeRecord td r.fragments) ∧
      r.fragments[i]? =
        (s₂.dataFragmentInputQueues i).pushed[(s₁.dataFragmentInputQueues i).popped + k]? := by
  have hgap := lag_mono h i
  rw [lag_of_phase hp, lag_of_phase (.inr hx)] at hgap
  obtain ⟨-, -, -, ds, fs, _, _, hfs, hrec, -, -, hprog⟩ := (runInv_start cfg s₁).steps hrun
  obtain ⟨td, hk, hrt, hfr⟩ := getElem?_cycles hfs (hrec ▸ hr)
  obtain ⟨D', F', hD, hF⟩ := hprog.exists_append hi
  have hkd : k < ds.length := (List.getElem?_eq_some_iff.1 hk).1
  have hkf : k < (fs i).length := hfs i hi ▸ hkd
  refine ⟨hgap, ⟨td, Queue.getElem?_since (show (decisionsSince (start s₁) s₂)[k]? = some td by
    rw [hD, List.getElem?_append_left hkd, hk]), hrt⟩, ?_⟩
  rw [hfr i hi, List.getElem?_eq_getElem hkf]
  exact (Queue.getElem?_since (show (fragmentsSince (start s₁) s₂ i)[k]? = some (fs i)[k] by
    rw [hF, List.getElem?_append_left hkf, List.getElem?_eq_getElem hkf])).symm

/-- Two decisions on two queues with two fragments each. A stop in the first run after the first
queue's fragment leaves the second queue one behind; the second run pairs the second decision with
the second queue's first fragment. -/
theorem queues_never_back_in_step_shifted :
    let s : FakeFragRec :=
      { init with
        triggerDecisionInputQueue := (Queue.empty.push ⟨1, 1, 10, [0, 1]⟩).push ⟨2, 1, 20, [0, 1]⟩
        dataFragmentInputQueues := fun i =>
          if i = 0 then (Queue.empty.push ⟨1, 1, 100⟩).push ⟨2, 1, 100⟩
          else (Queue.empty.push ⟨1, 1, 200⟩).push ⟨2, 1, 200⟩ }
    let s₁ := (workerStep ⟨2, 1⟩)^[3]
      { (workerStep ⟨2, 1⟩)^[2] (start s) with runningFlag := false }
    let s₂ := (workerStep ⟨2, 1⟩)^[5] (start s₁)
    ((s.triggerDecisionInputQueue.popped : ℤ) - (s.dataFragmentInputQueues 1).popped ≤
        s₁.triggerDecisionInputQueue.popped - (s₁.dataFragmentInputQueues 1).popped ∧
      (∃ td, s₂.triggerDecisionInputQueue.pushed[s₁.triggerDecisionInputQueue.popped + 0]? =
          some td ∧
        (⟨2, 1, 20, [⟨2, 1, 100⟩, ⟨1, 1, 200⟩]⟩ : Record) =
          makeRecord td (⟨2, 1, 20, [⟨2, 1, 100⟩, ⟨1, 1, 200⟩]⟩ : Record).fragments) ∧
      (⟨2, 1, 20, [⟨2, 1, 100⟩, ⟨1, 1, 200⟩]⟩ : Record).fragments[1]? =
        (s₂.dataFragmentInputQueues 1).pushed[(s₁.dataFragmentInputQueues 1).popped + 0]?) :=
  queues_never_back_in_step
    ((Relation.ReflTransGen.single (Session.start rfl)).trans
      (Relation.ReflTransGen.mono (fun _ _ => Session.step)
        (((worker_iterate _ _ 2).tail (.stop _)).trans (worker_iterate _ _ 3))))
    (.inr rfl) (by decide) (worker_iterate _ _ 5) (by decide) (by decide)

end Restarts

end Dfmodules.FakeFragRec
