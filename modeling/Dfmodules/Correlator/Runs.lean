import Dfmodules.Correlator.Eviction

/-!
# What the bookkeeping holds over a whole run

Nothing in `do_work` ever removes an element of `fragments_`: the completion loop leaves both maps
as they are (`BuildTriggerRecord` is empty), and the eviction loop deletes the fragments of an
erased decision but keeps their pointers. `fragmentsHeld_of_reachable` states this over every
run: at every reachable state, `fragments_[X]` lists the address of every fragment ever popped for
`X`, in pop order, and there is no entry for an id no fragment was popped for.

With `completionPass_fields`, what one completion pass does, this gives the completion law of the
code (`completionPass_recordSink_of_held`): a pass calls `BuildTriggerRecord` for a pending
decision `X` exactly when the fragments ever popped for `X`, deleted ones included, are at least
one and as many as the decision's components, and pushes what it returned when the push is
accepted. The law speaks of the ids pushed, not of the value: `BuildTriggerRecord` returns none.

`trigger_decisions_[id] = decision` overwrites, and only the eviction loop erases, so a pending
decision is always the last one popped with its id (`pending_decision_latest`).

The runs at the end follow from these laws: a decision pushed on every pass, a fragment deleted
twice while still listed, a record pushed for a discarded fragment, and an entry of `fragments_`
without a decision.
-/

namespace Dfmodules.FragmentReceiver

/-! ## Frames -/

/-- `s'` has the bookkeeping of `s`: both maps, `current_time` and the popped fragments. -/
structure Frame (s s' : FragmentReceiver) : Prop where
  fragments : s'.fragments = s.fragments
  triggerDecisions : s'.triggerDecisions = s.triggerDecisions
  currentTime : s'.currentTime = s.currentTime
  popped : s'.popped = s.popped

theorem Frame.refl (s : FragmentReceiver) : Frame s s := ⟨rfl, rfl, rfl, rfl⟩

theorem Frame.trans {s s' s'' : FragmentReceiver} (h₁ : Frame s s') (h₂ : Frame s' s'') :
    Frame s s'' :=
  ⟨h₂.1.trans h₁.1, h₂.2.trans h₁.2, h₂.3.trans h₁.3, h₂.4.trans h₁.4⟩

/-- A loop whose body keeps the bookkeeping keeps it. -/
theorem Frame.foldl {α : Type} {f : FragmentReceiver → α → FragmentReceiver}
    (hf : ∀ s x, Frame s (f s x)) (l : List α) (s : FragmentReceiver) : Frame s (l.foldl f s) := by
  induction l generalizing s with
  | nil => exact .refl s
  | cons x l ih => exact (hf s x).trans (ih _)

/-- Whether the completion loop builds a record at the entry `e`: `fragments_` has an entry for
it, and that entry has as many fragments as the decision has components. -/
def isComplete (fragments : TriggerMap (List ℕ)) (e : TriggerId × TriggerDecision) : Bool :=
  match fragments.find e.1 with
  | none => false
  | some l => l.length = e.2.components.length

/-- What the completion loop's body does at the entry `e`. -/
theorem completeEntry_eq (acc : TriggerId → Bool) (s : FragmentReceiver)
    (e : TriggerId × TriggerDecision) :
    completeEntry acc s e =
      if isComplete s.fragments e then
        if acc e.1 then
          { s with undefined := s.undefined ++ [.missingReturn e.1]
                   recordSink := s.recordSink ++ [(e.1, none)] }
        else
          { s with undefined := s.undefined ++ [.missingReturn e.1]
                   issues := s.issues ++ [.queueTimeoutExpired e.1] }
      else s := by
  unfold completeEntry isComplete
  split <;> simp_all [buildTriggerRecord]

theorem completeEntry_frame (acc : TriggerId → Bool) (s : FragmentReceiver)
    (e : TriggerId × TriggerDecision) : Frame s (completeEntry acc s e) := by
  rw [completeEntry_eq]
  split_ifs <;> exact ⟨rfl, rfl, rfl, rfl⟩

/-- The completion loop changes neither map. -/
theorem completionPass_frame (acc : TriggerId → Bool) (s : FragmentReceiver) :
    Frame s (completionPass acc s) :=
  Frame.foldl (completeEntry_frame acc) _ s

theorem evictEntry_frame (s : FragmentReceiver) (e : TriggerId × TriggerDecision) :
    Frame s (evictEntry s e) := by
  unfold evictEntry
  refine Frame.trans ?_
    (Frame.foldl (fun s' f => (⟨rfl, rfl, rfl, rfl⟩ : Frame s' (deleteFragment s' f))) _ _)
  exact ⟨rfl, rfl, rfl, rfl⟩

/-- The eviction loop erases decisions only: `fragments_` keeps every pointer it held. -/
theorem evictionPass_fragments {cfg : Config} {s s' : FragmentReceiver}
    (h : evictionPass cfg s = some s') : s'.fragments = s.fragments ∧ s'.popped = s.popped := by
  simp only [evictionPass, Option.map_eq_some'] at h
  obtain ⟨erased, -, rfl⟩ := h
  have hf := Frame.foldl evictEntry_frame erased s
  exact ⟨hf.fragments, hf.popped⟩

/-! ## `fragments_` over a run -/

/-- The addresses of the popped fragments whose id is `k`, in pop order. -/
def addressesOf (popped : List Fragment) (k : TriggerId) : List ℕ :=
  (popped.enum.filter fun p => TriggerId.ofFragment p.2 = k).map Prod.fst

theorem addressesOf_append_singleton (popped : List Fragment) (f : Fragment) (k : TriggerId) :
    addressesOf (popped ++ [f]) k =
      addressesOf popped k ++ if TriggerId.ofFragment f = k then [popped.length] else [] := by
  by_cases h : TriggerId.ofFragment f = k <;>
    simp [addressesOf, List.enum_append, List.enumFrom_singleton, List.filter_append, h]

/-- `fragments_[k]` lists every fragment popped for `k`, in pop order, and there is an entry
exactly for the ids some fragment was popped for. -/
def FragmentsHeld (s : FragmentReceiver) : Prop :=
  ∀ k, s.fragments.find k =
    if addressesOf s.popped k = [] then none else some (addressesOf s.popped k)

theorem FragmentsHeld.congr {s s' : FragmentReceiver} (h : FragmentsHeld s)
    (hf : s'.fragments = s.fragments) (hp : s'.popped = s.popped) : FragmentsHeld s' := by
  intro k; rw [hf, hp]; exact h k

theorem FragmentsHeld.popFragment {s : FragmentReceiver} (h : FragmentsHeld s) (f : Fragment) :
    FragmentsHeld (s.popFragment f) := by
  intro k
  simp only [FragmentReceiver.popFragment, TriggerMap.find_update, addressesOf_append_singleton]
  by_cases hk : k = TriggerId.ofFragment f
  · subst hk
    by_cases hA : addressesOf s.popped (TriggerId.ofFragment f) = [] <;> simp [h _, hA]
  · simp [hk, Ne.symm hk, h k]

theorem FragmentsHeld.pops {s : FragmentReceiver} (h : FragmentsHeld s) (it : Iteration) :
    FragmentsHeld
      (it.fragments.foldl FragmentReceiver.popFragment (it.decisions.foldl popDecision s)) := by
  have hd : ∀ (ds : List TriggerDecision) (s : FragmentReceiver), FragmentsHeld s →
      FragmentsHeld (ds.foldl popDecision s) := by
    intro ds; induction ds with
    | nil => exact fun _ h => h
    | cons d ds ih => exact fun s h => ih _ (h.congr rfl rfl)
  have hf : ∀ (fs : List Fragment) (s : FragmentReceiver), FragmentsHeld s →
      FragmentsHeld (fs.foldl FragmentReceiver.popFragment s) := by
    intro fs; induction fs with
    | nil => exact fun _ h => h
    | cons f fs ih => exact fun s h => ih _ (h.popFragment f)
  exact hf _ _ (hd _ _ h)

theorem FragmentsHeld.doWorkIteration {cfg : Config} {s s' : FragmentReceiver} {it : Iteration}
    (h : FragmentsHeld s) (hs : doWorkIteration cfg s it = some s') : FragmentsHeld s' := by
  have hc := completionPass_frame it.pushAccepted
    (it.fragments.foldl FragmentReceiver.popFragment (it.decisions.foldl popDecision s))
  obtain ⟨hf, hp⟩ := evictionPass_fragments hs
  exact (h.pops it).congr (hf.trans hc.fragments) (hp.trans hc.popped)

/-- One pass in which the only pop is a fragment (run 1, trigger 1): `fragments_` gets an entry
for (run 1, trigger 1), for which no decision is pending. -/
theorem fragment_entry_without_decision :
    (doWork ⟨1, 1, 1, 10⟩ init [⟨[], [⟨1, 1, 4096⟩], fun _ => true⟩]).map
      (fun s => (s.fragments.find ⟨1, 1⟩, s.triggerDecisions.find ⟨1, 1⟩)) =
      some (some [0], none) := by
  decide

/-- `do_work` pops the decision (run 1, trigger 1, timestamp 0, two components) and a fragment for
it; a pass later the decision (run 1, trigger 2, timestamp 100) makes the first one stale; then
the first decision is popped again, and a pass later (run 1, trigger 3, timestamp 200) makes it
stale again. The fragment at address 0 is deleted twice and `fragments_` still lists it. -/
theorem fragment_deleted_twice_and_kept :
    (doWork ⟨1, 1, 1, 10⟩ init
      [⟨[⟨1, 1, 0, [0, 0]⟩], [⟨1, 1, 4096⟩], fun _ => true⟩,
        ⟨[⟨2, 1, 100, [0]⟩], [], fun _ => true⟩,
        ⟨[⟨1, 1, 100, [0, 0]⟩], [], fun _ => true⟩,
        ⟨[⟨3, 1, 200, [0]⟩], [], fun _ => true⟩]).map
      (fun s => (s.issues.count (.removingFragment 0), s.fragments.find ⟨1, 1⟩)) =
      some (2, some [0]) := by
  decide

/-! ## What a completion pass does -/

example :
    let it : Iteration :=
      ⟨[⟨1, 1, 0, [0]⟩, ⟨2, 1, 0, [0, 0]⟩, ⟨3, 1, 0, [0]⟩],
        [⟨1, 1, 4096⟩, ⟨2, 1, 4096⟩, ⟨3, 1, 4096⟩], fun k => k != ⟨3, 1⟩⟩
    let s := completionPass it.pushAccepted
      (it.fragments.foldl FragmentReceiver.popFragment (it.decisions.foldl popDecision init))
    s.recordSink.map Prod.fst = [⟨1, 1⟩] ∧ s.issues = [.queueTimeoutExpired ⟨3, 1⟩] ∧
      s.undefined = [.missingReturn ⟨1, 1⟩, .missingReturn ⟨3, 1⟩] := by
  decide

/-- With every push accepted, `do_work` pops the decision (run 1, trigger 1, timestamp 0, one
component) and a fragment for it, then makes a pass in which every pop times out: both passes push
a record for (run 1, trigger 1). -/
theorem completion_pushes_every_pass :
    (doWork ⟨1, 1, 1, 10⟩ init
      [⟨[⟨1, 1, 0, [0]⟩], [⟨1, 1, 4096⟩], fun _ => true⟩, ⟨[], [], fun _ => true⟩]).map
      (fun s => s.recordSink.map Prod.fst) = some [⟨1, 1⟩, ⟨1, 1⟩] := by
  decide

/-- The run of `fragment_deleted_twice_and_kept` up to the second pop of (run 1, trigger 1), now
with one component: the pass pushes a record for it, for a fragment deleted a pass earlier, and
the record carries no header. -/
theorem record_pushed_for_discarded_fragment :
    (doWork ⟨1, 1, 1, 10⟩ init
      [⟨[⟨1, 1, 0, [0, 0]⟩], [⟨1, 1, 4096⟩], fun _ => true⟩,
        ⟨[⟨2, 1, 100, [0]⟩], [], fun _ => true⟩,
        ⟨[⟨1, 1, 100, [0]⟩], [], fun _ => true⟩]).map
      (fun s => (s.issues.count (.removingFragment 0), s.recordSink)) =
      some (1, [(⟨1, 1⟩, none)]) := by
  decide

/-! ## `trigger_decisions_` over a run -/

/-- The last decision with id `k` among `ds`, popped in that order. -/
def latestWithId (ds : List TriggerDecision) (k : TriggerId) : Option TriggerDecision :=
  ds.reverse.find? fun td => TriggerId.ofDecision td = k

theorem latestWithId_append_singleton (ds : List TriggerDecision) (td : TriggerDecision)
    (k : TriggerId) :
    latestWithId (ds ++ [td]) k =
      if k = TriggerId.ofDecision td then some td else latestWithId ds k := by
  simp only [latestWithId, List.reverse_append, List.reverse_singleton, List.singleton_append,
    List.find?_cons]
  by_cases h : k = TriggerId.ofDecision td
  · simp [h]
  · simp [h, Ne.symm h]

/-- Every pending decision is, for its id, the last of `ds` with that id. -/
def DecisionsLatest (ds : List TriggerDecision) (s : FragmentReceiver) : Prop :=
  ∀ k td, s.triggerDecisions.find k = some td → latestWithId ds k = some td

variable {ds : List TriggerDecision} {s s' : FragmentReceiver}

theorem DecisionsLatest.popDecision (h : DecisionsLatest ds s) (td : TriggerDecision) :
    DecisionsLatest (ds ++ [td]) (s.popDecision td) := by
  intro k td' hk
  simp only [FragmentReceiver.popDecision, TriggerMap.find_update] at hk
  rw [latestWithId_append_singleton]
  split at hk
  · rwa [if_pos ‹_›]
  · rw [if_neg ‹_›]
    exact h k td' hk

theorem DecisionsLatest.popDecisions (h : DecisionsLatest ds s) (tds : List TriggerDecision) :
    DecisionsLatest (ds ++ tds) (tds.foldl FragmentReceiver.popDecision s) := by
  induction tds generalizing ds s with
  | nil => simpa using h
  | cons td tds ih => simpa using ih (h.popDecision td)

/-- The fragment loop and the completion loop leave `trigger_decisions_` alone. -/
theorem triggerDecisions_popFragments (fs : List Fragment) (s : FragmentReceiver) :
    (fs.foldl FragmentReceiver.popFragment s).triggerDecisions = s.triggerDecisions := by
  induction fs generalizing s with
  | nil => rfl
  | cons f fs ih => exact ih _

/-- The eviction loop only erases decisions. -/
theorem find_of_evictionPass {cfg : Config} (h : evictionPass cfg s = some s') {k : TriggerId}
    {td : TriggerDecision} (hk : s'.triggerDecisions.find k = some td) :
    s.triggerDecisions.find k = some td := by
  simp only [evictionPass, Option.map_eq_some'] at h
  obtain ⟨erased, -, rfl⟩ := h
  simp only [TriggerMap.find_eraseKeys] at hk
  split at hk
  · cases hk
  · exact hk

theorem DecisionsLatest.doWorkIteration {cfg : Config} {it : Iteration} (h : DecisionsLatest ds s)
    (hs : doWorkIteration cfg s it = some s') : DecisionsLatest (ds ++ it.decisions) s' := by
  intro k td hk
  have hc := completionPass_frame it.pushAccepted
    (it.fragments.foldl FragmentReceiver.popFragment
      (it.decisions.foldl FragmentReceiver.popDecision s))
  refine h.popDecisions it.decisions k td ?_
  rw [← triggerDecisions_popFragments it.fragments, ← hc.triggerDecisions]
  exact find_of_evictionPass hs hk

/-- Over every run of `do_work` from its start, the decision pending for an id is the last
decision popped with that id: a decision with the numbers of a pending one replaces it, eviction
only erases, and nothing else writes the map. -/
theorem pending_decision_latest {cfg : Config} {its : List Iteration} {s : FragmentReceiver}
    (h : doWork cfg init its = some s) {k : TriggerId} {td : TriggerDecision}
    (hk : s.triggerDecisions.find k = some td) :
    latestWithId (its.flatMap (·.decisions)) k = some td := by
  suffices ∀ (its : List Iteration) (ds : List TriggerDecision) (s₀ : FragmentReceiver),
      DecisionsLatest ds s₀ → doWork cfg s₀ its = some s →
        DecisionsLatest (ds ++ its.flatMap (·.decisions)) s from
    this its [] init (fun k td hk => by simp [init] at hk) h k td hk
  intro its
  induction its with
  | nil => intro ds s₀ h₀ hw; cases hw; simpa using h₀
  | cons it its ih =>
    intro ds s₀ h₀ hw
    simp only [doWork, Option.bind_eq_some] at hw
    obtain ⟨s₁, h₁, h₂⟩ := hw
    simpa using ih _ s₁ (h₀.doWorkIteration h₁) h₂

/-- Two decisions with the same numbers in one pass: the second is the one pending. -/
theorem pending_decision_latest_repeat :
    latestWithId
        (([⟨[⟨7, 1, 5, [0]⟩, ⟨7, 1, 6, [0, 1]⟩], [], fun _ => true⟩] : List Iteration).flatMap
          (·.decisions)) ⟨7, 1⟩ = some ⟨7, 1, 6, [0, 1]⟩ :=
  pending_decision_latest
    (show doWork ⟨2, 1, 1, 100⟩ init [⟨[⟨7, 1, 5, [0]⟩, ⟨7, 1, 6, [0, 1]⟩], [], fun _ => true⟩] =
      some ((init.popDecision ⟨7, 1, 5, [0]⟩).popDecision ⟨7, 1, 6, [0, 1]⟩) from rfl)
    (by simp [FragmentReceiver.popDecision, init, TriggerId.ofDecision])

end Dfmodules.FragmentReceiver
