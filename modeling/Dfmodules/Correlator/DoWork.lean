import Dfmodules.Correlator.Basic

/-!
# The correlation loop of `FragmentReceiver::do_work`

One pass of the `while (running_flag)` loop of `FragmentReceiver.cpp` has four phases:

1. pop up to `decision_loop_cnt_` trigger decisions; each sets `current_time` to its timestamp and
   is stored in `trigger_decisions_` under its `TriggerId` (`popDecision`);
2. pop up to `fragment_loop_cnt_` fragments from every fragment source; each is appended to
   `fragments_[TriggerId(fragment)]` (`popFragment`);
3. the completion loop: for every pending decision whose `fragments_` list has as many fragments
   as the decision has components, build a record and push it (`completionPass`);
4. the eviction loop: erase every stale decision, reporting and deleting its fragments
   (`evictionPass`).

The queues are the environment: an `Iteration` says what they delivered during one pass and which
pushes timed out. Fragments are heap objects handed over by pointer; the model gives the `i`-th
popped fragment the address `i` and keeps the popped objects in `popped`, so that `fragments_`
holds addresses and a `delete` is visible as the `RemovingFragment` issue reported just before it.

Three statements of `do_work` have undefined behaviour, and the model treats them one way: it
logs the point as an `Undefined` event and follows the code as written for as long as the next
statement does not read what the undefined operation produced.

* `BuildTriggerRecord` has no `return`: the pointer it leaves has no value. `do_work` pushes it
  without reading it, so the run goes on, the record pushed having no value (`none`).
* The eviction loop deletes the fragments of an erased decision but keeps their pointers, so a
  decision popped again with the same numbers has them deleted a second time. Nothing in
  `do_work` reads a freed fragment, so the run goes on.
* The eviction loop erases with `it = trigger_decisions_.erase(it)` and then runs the loop's own
  `++it`. `evictLoop` follows the iterator: it steps over the successor of every erased entry
  without testing it, and when the last entry is erased it increments `end()`. The loop's next
  statement tests that iterator, so the run stops there: `evictionPass` is `none`, and so is the
  whole run.
-/

namespace Dfmodules

/-- The `TriggerRecord` output shape: the decision's header fields and the fragment addresses. -/
structure TriggerRecord where
  triggerNumber : ℕ
  runNumber : ℕ
  triggerTimestamp : ℕ
  fragments : List ℕ
deriving DecidableEq, Repr

/-- The issues `do_work` reports, with the parameters it passes. `queueTimeoutExpired` is annotated
with the id of the record whose push timed out. -/
inductive Issue
  | timedOutTriggerDecision (triggerNumber runNumber triggerTimestamp presentTime : ℕ)
  | removingFragment (fragment : ℕ)
  | queueTimeoutExpired (id : TriggerId)
deriving DecidableEq, Repr

/-- A point of `do_work` with undefined behaviour after which the run goes on: `BuildTriggerRecord`
flowing off its end for the id `id`, or a second `delete` of the fragment at address `fragment`. -/
inductive Undefined
  | missingReturn (id : TriggerId)
  | doubleDelete (fragment : ℕ)
deriving DecidableEq, Repr

/-- What `FragmentReceiver::do_work` works on: the two bookkeeping maps, its local
`current_time`, the fragment objects popped so far (the `i`-th at address `i`), the records pushed
to `record_sink` (each annotated with the id the completion loop was at), the issues reported, and
the points of undefined behaviour passed. -/
structure FragmentReceiver where
  fragments : TriggerMap (List ℕ)
  triggerDecisions : TriggerMap TriggerDecision
  currentTime : ℕ
  popped : List Fragment
  recordSink : List (TriggerId × Option TriggerRecord)
  issues : List Issue
  undefined : List Undefined

/-- The parameters `do_work` reads that nothing in the repository sets: the loop counts, the
number of fragment sources and the `int64_t` threshold `max_time_difference_`. -/
structure Config where
  decisionLoopCnt : ℕ
  fragmentLoopCnt : ℕ
  fragmentSources : ℕ
  maxTimeDifference : ℤ

/-- What the queues deliver during one pass of the work loop: the decisions and the fragments
popped, in order (pops that time out change nothing and are left out), and whether the push of the
record built for a decision succeeds (`false`: it times out). -/
structure Iteration where
  decisions : List TriggerDecision
  fragments : List Fragment
  pushAccepted : TriggerId → Bool

/-- The pops one pass can make: `decision_loop_cnt_` decision pops, and `fragment_loop_cnt_`
rounds over the fragment sources. -/
def Iteration.WellFormed (cfg : Config) (it : Iteration) : Prop :=
  it.decisions.length ≤ cfg.decisionLoopCnt ∧
    it.fragments.length ≤ cfg.fragmentLoopCnt * cfg.fragmentSources

instance (cfg : Config) (it : Iteration) : Decidable (it.WellFormed cfg) :=
  inferInstanceAs (Decidable (_ ∧ _))

namespace FragmentReceiver

/-- The state when `do_work` starts: empty maps and `current_time = 0`. -/
def init : FragmentReceiver := ⟨.empty, .empty, 0, [], [], [], []⟩

/-! ## The four phases -/

/-- The body of the decision loop after a successful pop. -/
def popDecision (s : FragmentReceiver) (td : TriggerDecision) : FragmentReceiver :=
  { s with
    currentTime := td.triggerTimestamp
    triggerDecisions := s.triggerDecisions.update (TriggerId.ofDecision td) fun _ => td }

/-- The body of the fragment loop after a successful pop: `fragments_[temp_id].push_back`, which
creates the entry when there is none. -/
def popFragment (s : FragmentReceiver) (f : Fragment) : FragmentReceiver :=
  { s with
    fragments := s.fragments.update (TriggerId.ofFragment f) fun l => l.getD [] ++ [s.popped.length]
    popped := s.popped ++ [f] }

/-- `FragmentReceiver::BuildTriggerRecord`: its body holds only comments and no `return`, so the
call flows off the end of a function returning `TriggerRecord *`, undefined behaviour (logged). The
pointer it leaves has no value, `none`: it fills no header and moves no fragment out of the maps. -/
def buildTriggerRecord (s : FragmentReceiver) (id : TriggerId) :
    FragmentReceiver × Option TriggerRecord :=
  ({ s with undefined := s.undefined ++ [.missingReturn id] }, none)

/-- The completion loop's body at the pending decision `e`: `BuildTriggerRecord`, then the push of
what it returned, or the warning of a push that timed out. The source tests
`frag_it == fragments.end()`, a name declared nowhere in `do_work` or the class; the model reads
the container `frag_it` came from, `fragments_`. -/
def completeEntry (pushAccepted : TriggerId → Bool) (s : FragmentReceiver)
    (e : TriggerId × TriggerDecision) : FragmentReceiver :=
  match s.fragments.find e.1 with
  | none => s
  | some l =>
    if l.length = e.2.components.length then
      match buildTriggerRecord s e.1 with
      | (s', tempRecord) =>
        if pushAccepted e.1 then { s' with recordSink := s'.recordSink ++ [(e.1, tempRecord)] }
        else { s' with issues := s'.issues ++ [.queueTimeoutExpired e.1] }
    else s

/-- The completion loop over `trigger_decisions_`, which it does not modify. -/
def completionPass (pushAccepted : TriggerId → Bool) (s : FragmentReceiver) : FragmentReceiver :=
  s.triggerDecisions.entries.foldl (completeEntry pushAccepted) s

/-- The staleness test `current_time - it->second.trigger_timestamp > max_time_difference_`: the
`uint64_t` difference modulo `2^64`, against the `int64_t` threshold converted to `uint64_t`. -/
def isStale (maxTimeDifference : ℤ) (currentTime : ℕ) (td : TriggerDecision) : Bool :=
  (currentTime + (2 ^ 64 - td.triggerTimestamp % 2 ^ 64)) % 2 ^ 64 >
    (maxTimeDifference % 2 ^ 64).toNat

/-- The eviction loop from the iterator at the head of the list: the entries it erases, in order,
or `none` when it increments `end()`. After `it = erase(it)` the loop's `++it` steps over the
erased entry's successor without testing it. -/
def evictLoop (stale : TriggerDecision → Bool) :
    List (TriggerId × TriggerDecision) → Option (List (TriggerId × TriggerDecision))
  | [] => some []
  | [e] => if stale e.2 then none else some []
  | e :: e' :: es =>
    if stale e.2 then (evictLoop stale es).map (e :: ·) else evictLoop stale (e' :: es)

/-- `ers::error(RemovingFragment(...))`, then `delete f` for the fragment at address `f`. A fragment
whose `RemovingFragment` was reported before is deleted a second time: undefined behaviour,
logged. -/
def deleteFragment (s : FragmentReceiver) (f : ℕ) : FragmentReceiver :=
  { s with
    issues := s.issues ++ [.removingFragment f]
    undefined :=
      if Issue.removingFragment f ∈ s.issues then s.undefined ++ [.doubleDelete f] else s.undefined }

/-- The eviction loop's body at a stale entry `e`, up to the erase: the `TimedOutTriggerDecision`
warning, then `deleteFragment` for each fragment `fragments_` holds for its id. -/
def evictEntry (s : FragmentReceiver) (e : TriggerId × TriggerDecision) : FragmentReceiver :=
  ((s.fragments.find e.1).getD []).foldl deleteFragment
    { s with
      issues := s.issues ++
        [.timedOutTriggerDecision e.2.triggerNumber e.2.runNumber e.2.triggerTimestamp
          s.currentTime] }

/-- The eviction loop: the body at every entry `evictLoop` erases, in order, and those entries
erased from `trigger_decisions_` (nothing is erased from `fragments_`); `none` when the loop
increments `end()`. -/
def evictionPass (cfg : Config) (s : FragmentReceiver) : Option FragmentReceiver :=
  (evictLoop (isStale cfg.maxTimeDifference s.currentTime) s.triggerDecisions.entries).map
    fun erased =>
      { erased.foldl evictEntry s with
        triggerDecisions := s.triggerDecisions.eraseKeys (erased.map Prod.fst) }

/-- One pass of the work loop. -/
def doWorkIteration (cfg : Config) (s : FragmentReceiver) (it : Iteration) :
    Option FragmentReceiver :=
  evictionPass cfg <| completionPass it.pushAccepted <|
    it.fragments.foldl popFragment (it.decisions.foldl popDecision s)

/-- `do_work` over a sequence of passes; `none` once a pass reaches undefined behaviour. -/
def doWork (cfg : Config) : FragmentReceiver → List Iteration → Option FragmentReceiver
  | s, [] => some s
  | s, it :: its => (doWorkIteration cfg s it).bind (doWork cfg · its)

/-- The states `do_work` reaches with configuration `cfg`. -/
inductive Reachable (cfg : Config) : FragmentReceiver → Prop
  | init : Reachable cfg init
  | iterate {s s' : FragmentReceiver} (it : Iteration) :
      Reachable cfg s → it.WellFormed cfg → doWorkIteration cfg s it = some s' → Reachable cfg s'

end FragmentReceiver

end Dfmodules
