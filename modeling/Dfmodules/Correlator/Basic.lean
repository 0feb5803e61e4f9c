import Mathlib.Algebra.Group.Int
import Mathlib.Algebra.Order.Ring.Nat
import Mathlib.Data.List.Basic

/-!
# Trigger identifiers and the correlator's bookkeeping maps

`FragmentReceiver` keys both of its bookkeeping maps, `fragments_` and `trigger_decisions_`, by
`TriggerId`, ordered by `TriggerId::operator<` (`FragmentReceiver.hpp`). This module models the
messages the correlator reads (only the fields it reads), the key and its order, and a
`std::map<TriggerId, V>` as its entry list in iteration order, which is strictly increasing in the
key.

`std::map` compares keys only through `operator<`: two keys are the same entry when neither is
below the other. `TriggerId.equiv_iff_eq` shows that this is equality of both numbers, so that
`find` and `operator[]` can be reasoned about by key equality.
-/

namespace Dfmodules

/-- The fields of a `dfmessages::TriggerDecision` that the correlator reads. `components` are the
requested components; the correlator reads only how many there are. -/
structure TriggerDecision where
  triggerNumber : ℕ
  runNumber : ℕ
  triggerTimestamp : ℕ
  components : List ℕ
deriving DecidableEq, Repr

/-- The fields of a `dataformats::Fragment` that the modules read: `get_trigger_number`,
`get_run_number` and `get_size`. -/
structure Fragment where
  triggerNumber : ℕ
  runNumber : ℕ
  size : ℕ
deriving DecidableEq, Repr

/-- `TriggerId` of `FragmentReceiver.hpp`. -/
@[ext]
structure TriggerId where
  triggerNumber : ℕ
  runNumber : ℕ
deriving DecidableEq, Repr

namespace TriggerId

/-- `TriggerId(const dfmessages::TriggerDecision&)`. -/
def ofDecision (td : TriggerDecision) : TriggerId := ⟨td.triggerNumber, td.runNumber⟩

/-- `TriggerId(dataformats::Fragment&)`. -/
def ofFragment (f : Fragment) : TriggerId := ⟨f.triggerNumber, f.runNumber⟩

/-- `TriggerId::operator<`. -/
def lt (a other : TriggerId) : Bool :=
  if a.runNumber = other.runNumber then a.triggerNumber < other.triggerNumber
  else a.runNumber < other.runNumber

instance : LT TriggerId := ⟨fun a b => a.lt b = true⟩

instance (a b : TriggerId) : Decidable (a < b) := inferInstanceAs (Decidable (a.lt b = true))

/-- The key equivalence `std::map` derives from `operator<`. -/
def equiv (a b : TriggerId) : Bool := !a.lt b && !b.lt a

theorem lt_iff {a b : TriggerId} :
    a < b ↔ a.runNumber < b.runNumber ∨
      a.runNumber = b.runNumber ∧ a.triggerNumber < b.triggerNumber := by
  show a.lt b = true ↔ _
  unfold lt
  split <;> simp_all

theorem lt_irrefl (a : TriggerId) : ¬ a < a := by
  rw [lt_iff]; omega

theorem lt_trans {a b c : TriggerId} (hab : a < b) (hbc : b < c) : a < c := by
  rw [lt_iff] at *; omega

theorem ne_of_lt {a b : TriggerId} (h : a < b) : a ≠ b := by
  rintro rfl; exact lt_irrefl a h

theorem lt_or_eq_or_gt (a b : TriggerId) : a < b ∨ a = b ∨ b < a := by
  simp only [lt_iff, TriggerId.ext_iff]; omega

@[simp]
theorem equiv_iff_eq {a b : TriggerId} : a.equiv b = true ↔ a = b := by
  have key : ¬ a < b ∧ ¬ b < a ↔ a = b := by
    simp only [lt_iff, TriggerId.ext_iff]; omega
  simpa [equiv, LT.lt] using key

end TriggerId

/-- A `std::map<TriggerId, V>`: its entries in iteration order, strictly increasing in the key. -/
structure TriggerMap (V : Type) where
  entries : List (TriggerId × V)
  sorted : entries.Pairwise (fun a b => a.1 < b.1)

namespace TriggerMap

variable {V : Type}

/-- `std::map::find` on an entry list: the element of the entry whose key is equivalent to `k`. -/
def findIn (k : TriggerId) : List (TriggerId × V) → Option V
  | [] => none
  | e :: es => if e.1.equiv k then some e.2 else findIn k es

/-- `std::map::operator[]` followed by an update of the element it returns: at a new key the
default element is inserted at its place in the order and `f none` stored there; at an existing
key the element `v` becomes `f (some v)`. -/
def updateIn (k : TriggerId) (f : Option V → V) : List (TriggerId × V) → List (TriggerId × V)
  | [] => [(k, f none)]
  | e :: es =>
    if e.1.lt k then e :: updateIn k f es
    else if k.lt e.1 then (k, f none) :: e :: es
    else (e.1, f (some e.2)) :: es

theorem findIn_cons (k : TriggerId) (e : TriggerId × V) (es : List (TriggerId × V)) :
    findIn k (e :: es) = if e.1 = k then some e.2 else findIn k es := by
  simp only [findIn]
  split <;> simp_all

theorem findIn_eq_none {k : TriggerId} {es : List (TriggerId × V)}
    (h : ∀ y ∈ es, k < y.1) : findIn k es = none := by
  induction es with
  | nil => rfl
  | cons e es ih =>
    rw [findIn_cons, if_neg (TriggerId.ne_of_lt (h e (by simp))).symm]
    exact ih fun y hy => h y (by simp [hy])

theorem updateIn_cons_of_lt {k : TriggerId} {f : Option V → V} {e : TriggerId × V}
    {es : List (TriggerId × V)} (h : e.1 < k) : updateIn k f (e :: es) = e :: updateIn k f es :=
  if_pos h

theorem updateIn_cons_of_gt {k : TriggerId} {f : Option V → V} {e : TriggerId × V}
    {es : List (TriggerId × V)} (h : k < e.1) : updateIn k f (e :: es) = (k, f none) :: e :: es :=
  (if_neg fun h' => TriggerId.lt_irrefl _ (TriggerId.lt_trans h h')).trans (if_pos h)

theorem updateIn_cons_self (f : Option V → V) (e : TriggerId × V) (es : List (TriggerId × V)) :
    updateIn e.1 f (e :: es) = (e.1, f (some e.2)) :: es :=
  (if_neg (TriggerId.lt_irrefl e.1)).trans (if_neg (TriggerId.lt_irrefl e.1))

theorem key_mem_updateIn {k : TriggerId} {f : Option V → V} {es : List (TriggerId × V)}
    {x : TriggerId × V} (hx : x ∈ updateIn k f es) : x.1 = k ∨ ∃ y ∈ es, y.1 = x.1 := by
  induction es with
  | nil => simp_all [updateIn]
  | cons e es ih =>
    rcases TriggerId.lt_or_eq_or_gt e.1 k with h | rfl | h
    · rw [updateIn_cons_of_lt h, List.mem_cons] at hx
      rcases hx with rfl | hx
      · exact .inr ⟨x, by simp, rfl⟩
      · exact (ih hx).imp_right fun ⟨y, hy, h⟩ => ⟨y, by simp [hy], h⟩
    · rw [updateIn_cons_self, List.mem_cons] at hx
      rcases hx with rfl | hx
      · exact .inl rfl
      · exact .inr ⟨x, by simp [hx], rfl⟩
    · rw [updateIn_cons_of_gt h, List.mem_cons] at hx
      rcases hx with rfl | hx
      · exact .inl rfl
      · exact .inr ⟨x, hx, rfl⟩

theorem pairwise_updateIn {k : TriggerId} {f : Option V → V} {es : List (TriggerId × V)}
    (hs : es.Pairwise (fun a b => a.1 < b.1)) :
    (updateIn k f es).Pairwise (fun a b => a.1 < b.1) := by
  induction es with
  | nil => simp [updateIn]
  | cons e es ih =>
    rw [List.pairwise_cons] at hs
    rcases TriggerId.lt_or_eq_or_gt e.1 k with h | rfl | h
    · rw [updateIn_cons_of_lt h]
      refine List.pairwise_cons.mpr ⟨fun x hx => ?_, ih hs.2⟩
      rcases key_mem_updateIn hx with hk | ⟨y, hy, hk⟩
      · exact hk ▸ h
      · exact hk ▸ hs.1 y hy
    · rw [updateIn_cons_self]
      exact List.pairwise_cons.mpr hs
    · rw [updateIn_cons_of_gt h]
      refine List.pairwise_cons.mpr ⟨fun x hx => ?_, List.pairwise_cons.mpr hs⟩
      rcases List.mem_cons.mp hx with rfl | hx
      · exact h
      · exact TriggerId.lt_trans h (hs.1 x hx)

theorem findIn_updateIn {k k' : TriggerId} {f : Option V → V} {es : List (TriggerId × V)}
    (hs : es.Pairwise (fun a b => a.1 < b.1)) :
    findIn k' (updateIn k f es) = if k' = k then some (f (findIn k es)) else findIn k' es := by
  induction es with
  | nil => by_cases h : k' = k <;> simp [updateIn, findIn_cons, findIn, h, Ne.symm]
  | cons e es ih =>
    rw [List.pairwise_cons] at hs
    rcases TriggerId.lt_or_eq_or_gt e.1 k with h | rfl | h
    · have hne : e.1 ≠ k := TriggerId.ne_of_lt h
      rw [updateIn_cons_of_lt h, findIn_cons, ih hs.2]
      by_cases h' : k' = k
      · subst h'; simp [findIn_cons, hne]
      · simp [findIn_cons, h']
    · by_cases h' : k' = e.1
      · subst h'; simp [updateIn_cons_self, findIn_cons]
      · simp [updateIn_cons_self, findIn_cons, h', Ne.symm h']
    · have hnone : findIn k (e :: es) = none := findIn_eq_none fun y hy => by
        rcases List.mem_cons.mp hy with rfl | hy
        · exact h
        · exact TriggerId.lt_trans h (hs.1 y hy)
      by_cases h' : k' = k
      · subst h'; simp [updateIn_cons_of_gt h, findIn_cons, hnone]
      · simp [updateIn_cons_of_gt h, findIn_cons, h', Ne.symm h']

/-- The empty map. -/
def empty : TriggerMap V := ⟨[], List.Pairwise.nil⟩

/-- `std::map::find`: the element stored at `k`, if any. -/
def find (m : TriggerMap V) (k : TriggerId) : Option V := findIn k m.entries

/-- `m[k]` followed by an update of the element (`findIn`, `updateIn`). -/
def update (m : TriggerMap V) (k : TriggerId) (f : Option V → V) : TriggerMap V :=
  ⟨updateIn k f m.entries, pairwise_updateIn m.sorted⟩

/-- The map with the entries of the keys `ks` erased. -/
def eraseKeys (m : TriggerMap V) (ks : List TriggerId) : TriggerMap V :=
  ⟨m.entries.filter (fun e => e.1 ∉ ks), m.sorted.filter _⟩

@[simp]
theorem find_empty (k : TriggerId) : (empty : TriggerMap V).find k = none := rfl

@[simp]
theorem find_update (m : TriggerMap V) (k k' : TriggerId) (f : Option V → V) :
    (m.update k f).find k' = if k' = k then some (f (m.find k)) else m.find k' :=
  findIn_updateIn m.sorted

theorem findIn_filter (ks : List TriggerId) (k : TriggerId) (es : List (TriggerId × V)) :
    findIn k (es.filter (fun e => e.1 ∉ ks)) = if k ∈ ks then none else findIn k es := by
  induction es with
  | nil => simp [findIn]
  | cons e es ih =>
    by_cases he : e.1 ∈ ks
    · rw [List.filter_cons_of_neg (by simpa using he), ih, findIn_cons]
      by_cases hk : k ∈ ks
      · simp [hk]
      · simp [hk, show e.1 ≠ k from fun h => hk (h ▸ he)]
    · rw [List.filter_cons_of_pos (by simpa using he), findIn_cons, findIn_cons, ih]
      by_cases hk : k ∈ ks
      · simp [hk, show e.1 ≠ k from fun h => he (h ▸ hk)]
      · simp [hk]

@[simp]
theorem find_eraseKeys (m : TriggerMap V) (ks : List TriggerId) (k : TriggerId) :
    (m.eraseKeys ks).find k = if k ∈ ks then none else m.find k :=
  findIn_filter ks k m.entries

/-- A key has an entry exactly when `find` returns an element. -/
theorem mem_keys_iff_find (m : TriggerMap V) (k : TriggerId) :
    k ∈ m.entries.map Prod.fst ↔ (m.find k).isSome := by
  unfold find
  induction m.entries with
  | nil => simp [findIn]
  | cons e es ih =>
    rw [findIn_cons]
    by_cases h : e.1 = k
    · simp [h]
    · simp [h, ih, Ne.symm h]

end TriggerMap

/-! ## The key order -/

/-- A decision's key and a fragment's key are the same exactly when both numbers agree. -/
theorem TriggerId.ofDecision_eq_ofFragment {td : TriggerDecision} {f : Fragment} :
    TriggerId.ofDecision td = TriggerId.ofFragment f ↔
      td.triggerNumber = f.triggerNumber ∧ td.runNumber = f.runNumber :=
  TriggerId.ext_iff

/-- `TriggerId::operator<` is the lexicographic order on `(run_number, trigger_number)`: a strict
order under which, for any two keys, exactly one of `a < b`, `b < a` and "both numbers equal"
holds. So both maps give a decision and a fragment one entry exactly when both numbers agree:
`std::map`'s key equivalence is that equality, and an update under one's key is seen by a lookup
under the other's exactly then. -/
theorem triggerId_lt_lexicographic (a b c : TriggerId) :
    (a < b ↔ a.runNumber < b.runNumber ∨
        a.runNumber = b.runNumber ∧ a.triggerNumber < b.triggerNumber) ∧
      ¬ a < a ∧ (a < b → b < c → a < c) ∧
      ((a < b ∧ ¬ b < a ∧ ¬ (a.runNumber = b.runNumber ∧ a.triggerNumber = b.triggerNumber)) ∨
        (¬ a < b ∧ b < a ∧ ¬ (a.runNumber = b.runNumber ∧ a.triggerNumber = b.triggerNumber)) ∨
        (¬ a < b ∧ ¬ b < a ∧ a.runNumber = b.runNumber ∧ a.triggerNumber = b.triggerNumber)) ∧
      ∀ (td : TriggerDecision) (f : Fragment),
        ((TriggerId.ofDecision td).equiv (.ofFragment f) = true ↔
          td.triggerNumber = f.triggerNumber ∧ td.runNumber = f.runNumber) ∧
        ∀ {V : Type} (m : TriggerMap V) (g : Option V → V),
          (m.update (.ofFragment f) g).find (.ofDecision td) =
              (if td.triggerNumber = f.triggerNumber ∧ td.runNumber = f.runNumber then
                some (g (m.find (.ofFragment f))) else m.find (.ofDecision td)) ∧
            (m.update (.ofDecision td) g).find (.ofFragment f) =
              (if td.triggerNumber = f.triggerNumber ∧ td.runNumber = f.runNumber then
                some (g (m.find (.ofDecision td))) else m.find (.ofFragment f)) := by
  refine ⟨TriggerId.lt_iff, TriggerId.lt_irrefl a, TriggerId.lt_trans, ?_,
    fun td f => ⟨by rw [TriggerId.equiv_iff_eq, TriggerId.ofDecision_eq_ofFragment],
      fun m g => ⟨?_, ?_⟩⟩⟩
  · simp only [TriggerId.lt_iff]
    omega
  · simp only [TriggerMap.find_update, TriggerId.ofDecision_eq_ofFragment]
  · simp only [TriggerMap.find_update, @eq_comm _ (TriggerId.ofFragment f),
      TriggerId.ofDecision_eq_ofFragment]

end Dfmodules
