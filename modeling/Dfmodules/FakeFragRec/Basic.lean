import Dfmodules.Correlator.Basic
import Mathlib.Logic.Relation

/-!
# The worker thread of `FakeFragRec::do_work` and the queues around it

`FakeFragRec` correlates by arrival. For each trigger decision it pops, it waits for one fragment
from each `data_fragment_` queue in turn, retrying a timed-out pop as long as the running flag is
set; it then builds a `TriggerRecord` from the decision's header and the fragments and pushes it,
retrying a timed-out push with a warning. Other threads share its queues: producers push decisions
and fragments, a consumer downstream pops records, and `do_stop` clears the running flag.

The model is the interleaving of these threads.

* `Queue` keeps an `appfwk` queue with its history: everything pushed onto it, and how many items
  were popped.
* `workerStep` is one step of the worker thread: one load of the running flag and the queue call
  it leads to. A pop or push that times out changes nothing but the warnings: an item that arrives
  during the wait is the interleaving in which it arrived before the call. Loading the flag and
  popping are one step, since a stop between the two commutes with the pop.
* `Step` lists the moves of every thread; a run of `do_work` is a `Relation.ReflTransGen` path of
  steps from `start`, and `Session` adds `do_start` after the worker returned, for runs one after
  another over the same queues.

`Move` is the inversion of `workerStep` (`move_workerStep`), so that invariants are proved by
cases on what the worker did, without unfolding it.
-/

namespace Dfmodules

/-- An `appfwk` queue as its history: everything pushed onto it, in order, and how many items have
been popped. It holds `pushed.drop popped`. -/
structure Queue (α : Type) where
  pushed : List α
  popped : ℕ
  popped_le : popped ≤ pushed.length

namespace Queue

variable {α : Type} {q q' q₀ : Queue α} {x : α}

/-- A queue nothing was pushed onto. -/
def empty : Queue α := ⟨[], 0, le_rfl⟩

/-- The items the queue holds. -/
def contents (q : Queue α) : List α := q.pushed.drop q.popped

/-- The items popped so far, in order. -/
def taken (q : Queue α) : List α := q.pushed.take q.popped

/-- A `push` that succeeds. -/
def push (q : Queue α) (x : α) : Queue α :=
  ⟨q.pushed ++ [x], q.popped, by simpa using Nat.le_succ_of_le q.popped_le⟩

/-- A `pop` with a timeout: the head of the queue, or `none` when the queue stays empty until the
timeout expires (`QueueTimeoutExpired`). -/
def pop (q : Queue α) : Option (α × Queue α) :=
  if h : q.popped < q.pushed.length then some (q.pushed[q.popped], ⟨q.pushed, q.popped + 1, h⟩)
  else none

/-- The items popped between the queue's states `q₀` and `q`. -/
def since (q₀ q : Queue α) : List α := q.taken.drop q₀.popped

/-- `q` is a later state of `q₀`: pushes only append, pops only advance. -/
structure Extends (q₀ q : Queue α) : Prop where
  pushed : q₀.pushed <+: q.pushed
  popped : q₀.popped ≤ q.popped

@[simp] theorem push_pushed : (q.push x).pushed = q.pushed ++ [x] := rfl

@[simp] theorem push_popped : (q.push x).popped = q.popped := rfl

@[simp] theorem taken_push : (q.push x).taken = q.taken :=
  List.take_append_of_le_length q.popped_le

theorem taken_length (q : Queue α) : q.taken.length = q.popped := by
  simpa [taken] using q.popped_le

theorem pop_eq_some (h : q.pop = some (x, q')) :
    q'.pushed = q.pushed ∧ q'.popped = q.popped + 1 ∧ q'.taken = q.taken ++ [x] := by
  simp only [pop] at h
  split at h
  · next hlt =>
    cases h
    refine ⟨rfl, rfl, ?_⟩
    show q.pushed.take (q.popped + 1) = q.pushed.take q.popped ++ [q.pushed[q.popped]]
    rw [List.take_succ, List.getElem?_eq_getElem hlt]
    rfl
  · cases h

theorem pop_eq_none : q.pop = none ↔ q.contents = [] := by
  simp only [pop, contents, List.drop_eq_nil_iff]
  split <;> simp <;> omega

@[simp] theorem since_self (q : Queue α) : since q q = [] :=
  List.drop_eq_nil_of_le q.taken_length.le

@[simp] theorem since_push : since q₀ (q.push x) = since q₀ q := by simp [since]

theorem since_of_pop (h : q.pop = some (x, q')) (h₀ : q₀.popped ≤ q.popped) :
    since q₀ q' = since q₀ q ++ [x] := by
  rw [since, (pop_eq_some h).2.2, List.drop_append_of_le_length (by rw [taken_length]; exact h₀)]
  rfl

/-- The `k`-th item popped since `q₀` is the item pushed at position `q₀.popped + k`. -/
theorem getElem?_since {k : ℕ} (h : (since q₀ q)[k]? = some x) :
    q.pushed[q₀.popped + k]? = some x := by
  rw [since, taken, List.getElem?_drop, List.getElem?_take] at h
  split at h
  · exact h
  · cases h

theorem Extends.refl (q : Queue α) : Extends q q := ⟨List.prefix_refl _, le_rfl⟩

theorem Extends.push (h : Extends q₀ q) (x : α) : Extends q₀ (q.push x) :=
  ⟨h.pushed.trans (List.prefix_append _ _), h.popped⟩

theorem Extends.pop (h : Extends q₀ q) (hp : q.pop = some (x, q')) : Extends q₀ q' := by
  obtain ⟨hpu, hpo, -⟩ := pop_eq_some hp
  exact ⟨hpu ▸ h.pushed, hpo ▸ Nat.le_succ_of_le h.popped⟩

end Queue

namespace FakeFragRec

/-- The `TriggerRecord` that `do_work` fills: the decision's trigger number, run number and
timestamp, and the fragments collected for it. -/
structure Record where
  triggerNumber : ℕ
  runNumber : ℕ
  triggerTimestamp : ℕ
  fragments : List Fragment
deriving DecidableEq, Repr

/-- `trigRecPtr` as `do_work` sets it up from `trigDecision` and `frag_ptr_vector`. -/
def makeRecord (trigDecision : TriggerDecision) (fragPtrVector : List Fragment) : Record :=
  ⟨trigDecision.triggerNumber, trigDecision.runNumber, trigDecision.triggerTimestamp,
    fragPtrVector⟩

/-- Where the worker thread is in `do_work`. -/
inductive Phase
  /-- At the test of `while (running_flag.load())`. -/
  | loop
  /-- In the fragment loop for `trigDecision`, waiting on the queue at index
  `fragPtrVector.length`. -/
  | collect (trigDecision : TriggerDecision) (fragPtrVector : List Fragment)
  /-- In the push loop, holding `trigRecPtr`. -/
  | push (trigRec : Record)
  /-- Returned from `do_work`. -/
  | exited
deriving DecidableEq, Repr

/-- What `init` fixes: the number of `data_fragment_` queues, and the capacity of the output
queue. -/
structure Setup where
  fragmentQueueCount : ℕ
  outputCapacity : ℕ

end FakeFragRec

open FakeFragRec in
/-- The state `FakeFragRec::do_work` runs in: its three kinds of queue (the fragment queues by
index), the running flag, where the worker thread is, its two `int32_t` counters as their 32 bits
(read as signed with `BitVec.toInt`), and how many push-timeout warnings it has issued. -/
structure FakeFragRec where
  triggerDecisionInputQueue : Queue TriggerDecision
  dataFragmentInputQueues : ℕ → Queue Fragment
  triggerRecordOutputQueue : Queue Record
  runningFlag : Bool
  phase : Phase
  receivedTriggerCount : BitVec 32
  receivedFragmentCount : BitVec 32
  pushWarnings : ℕ

namespace FakeFragRec

/-- After `init`: empty queues, and no worker thread. -/
def init : FakeFragRec := ⟨.empty, fun _ => .empty, .empty, false, .exited, 0, 0, 0⟩

/-- `do_start`: a new worker thread, its counters at zero, over the queues as they are. -/
def start (s : FakeFragRec) : FakeFragRec :=
  { s with runningFlag := true, phase := .loop, receivedTriggerCount := 0,
           receivedFragmentCount := 0 }

/-! ## The worker thread -/

/-- One step of the worker thread: a load of the running flag and the queue call it leads to.
When the flag is clear in the fragment loop, the loops of the remaining queues exit at once and the
record is built from the fragments collected so far; when it is clear at the push loop, the record
is destroyed unsent. A counter's `++` at `2^31 - 1` is a signed overflow, undefined behaviour; the
model's `+ 1` wraps, and what is proved of the counters is stated for runs that stay below it. -/
def workerStep (cfg : Setup) (s : FakeFragRec) : FakeFragRec :=
  match s.phase with
  | .loop =>
    if s.runningFlag then
      match s.triggerDecisionInputQueue.pop with
      | some (td, q) =>
        { s with triggerDecisionInputQueue := q, phase := .collect td [],
                 receivedTriggerCount := s.receivedTriggerCount + 1 }
      | none => s
    else { s with phase := .exited }
  | .collect td frags =>
    if frags.length < cfg.fragmentQueueCount ∧ s.runningFlag then
      match (s.dataFragmentInputQueues frags.length).pop with
      | some (f, q) =>
        { s with dataFragmentInputQueues := Function.update s.dataFragmentInputQueues frags.length q,
                 phase := .collect td (frags ++ [f]),
                 receivedFragmentCount := s.receivedFragmentCount + 1 }
      | none => s
    else { s with phase := .push (makeRecord td frags) }
  | .push tr =>
    if s.runningFlag then
      if s.triggerRecordOutputQueue.contents.length < cfg.outputCapacity then
        { s with triggerRecordOutputQueue := s.triggerRecordOutputQueue.push tr, phase := .loop }
      else { s with pushWarnings := s.pushWarnings + 1 }
    else { s with phase := .loop }
  | .exited => s

/-- What one step of the worker can do, guards included. -/
inductive Move (cfg : Setup) (s : FakeFragRec) : FakeFragRec → Prop
  /-- A pop timed out, or the thread has returned. -/
  | idle : Move cfg s s
  /-- A push timed out: `ers::warning(QueueTimeoutExpired(...))`, and the push is retried. -/
  | warn (tr : Record) : s.phase = .push tr → s.runningFlag →
      cfg.outputCapacity ≤ s.triggerRecordOutputQueue.contents.length →
      Move cfg s { s with pushWarnings := s.pushWarnings + 1 }
  | popDecision (td : TriggerDecision) (q : Queue TriggerDecision) : s.phase = .loop →
      s.runningFlag → s.triggerDecisionInputQueue.pop = some (td, q) →
      Move cfg s { s with triggerDecisionInputQueue := q, phase := .collect td [],
                          receivedTriggerCount := s.receivedTriggerCount + 1 }
  | exit : s.phase = .loop → s.runningFlag = false → Move cfg s { s with phase := .exited }
  | popFragment (td : TriggerDecision) (frags : List Fragment) (f : Fragment) (q : Queue Fragment) :
      s.phase = .collect td frags → frags.length < cfg.fragmentQueueCount → s.runningFlag →
      (s.dataFragmentInputQueues frags.length).pop = some (f, q) →
      Move cfg s { s with
        dataFragmentInputQueues := Function.update s.dataFragmentInputQueues frags.length q,
        phase := .collect td (frags ++ [f]),
        receivedFragmentCount := s.receivedFragmentCount + 1 }
  | build (td : TriggerDecision) (frags : List Fragment) : s.phase = .collect td frags →
      ¬ (frags.length < cfg.fragmentQueueCount ∧ s.runningFlag) →
      Move cfg s { s with phase := .push (makeRecord td frags) }
  | pushRecord (tr : Record) : s.phase = .push tr → s.runningFlag →
      s.triggerRecordOutputQueue.contents.length < cfg.outputCapacity →
      Move cfg s { s with triggerRecordOutputQueue := s.triggerRecordOutputQueue.push tr,
                          phase := .loop }
  | drop (tr : Record) : s.phase = .push tr → s.runningFlag = false →
      Move cfg s { s with phase := .loop }

theorem move_workerStep (cfg : Setup) (s : FakeFragRec) : Move cfg s (workerStep cfg s) := by
  unfold workerStep
  split
  · next hp =>
    split
    · next hr =>
      split
      · next td q hq => exact .popDecision td q hp hr hq
      · exact .idle
    · next hr => exact .exit hp (by simpa using hr)
  · next td frags hp =>
    split
    · next hc =>
      split
      · next f q hq => exact .popFragment td frags f q hp hc.1 hc.2 hq
      · exact .idle
    · next hc => exact .build td frags hp hc
  · next tr hp =>
    split
    · next hr =>
      split
      · next hc => exact .pushRecord tr hp hr hc
      · next hc => exact .warn tr hp hr (by omega)
    · next hr => exact .drop tr hp (by simpa using hr)
  · exact .idle

/-! ## Every thread's moves -/

/-- The moves of the threads around the queues: the worker, the producers of decisions and of
fragments (queue `i`), the consumer of records, and `do_stop`. -/
inductive Step (cfg : Setup) : FakeFragRec → FakeFragRec → Prop
  | worker (s : FakeFragRec) : Step cfg s (workerStep cfg s)
  | produceDecision (s : FakeFragRec) (td : TriggerDecision) :
      Step cfg s { s with triggerDecisionInputQueue := s.triggerDecisionInputQueue.push td }
  | produceFragment (s : FakeFragRec) (i : ℕ) (f : Fragment) :
      Step cfg s
        { s with dataFragmentInputQueues := Function.update s.dataFragmentInputQueues i
                                              ((s.dataFragmentInputQueues i).push f) }
  | consumeRecord (s : FakeFragRec) (r : Record) (q : Queue Record) :
      s.triggerRecordOutputQueue.pop = some (r, q) →
      Step cfg s { s with triggerRecordOutputQueue := q }
  | stop (s : FakeFragRec) : Step cfg s { s with runningFlag := false }

/-- The moves of the module over any number of runs: a move of one of the threads, or `do_start`
once the worker has returned. -/
inductive Session (cfg : Setup) : FakeFragRec → FakeFragRec → Prop
  | step {s s' : FakeFragRec} : Step cfg s s' → Session cfg s s'
  | start {s : FakeFragRec} : s.phase = .exited → Session cfg s (start s)

/-- The worker alone makes a run: `k` of its steps. -/
theorem worker_iterate (cfg : Setup) (s : FakeFragRec) (k : ℕ) :
    Relation.ReflTransGen (Step cfg) s ((workerStep cfg)^[k] s) := by
  induction k with
  | zero => exact .refl
  | succ k ih => rw [Function.iterate_succ_apply']; exact ih.tail (.worker _)

end FakeFragRec

end Dfmodules
