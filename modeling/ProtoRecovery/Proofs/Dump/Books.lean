import Mathlib.Algebra.Order.Group.Multiset
import Mathlib.Data.List.Perm.Basic
import Mathlib.Tactic.Abel
import ProtoRecovery.Proofs.Dump.History

/-! # The books of a run: no job and no result is lost or counted twice, whatever the order of moves -/
namespace ProtoRecovery.Dump
variable {σ : Type} {β : Type}

namespace Attempt

/-- The name that an attempt wrote. -/
def written? (w : Work σ) (x : Attempt σ) : Option Bytes :=
  match x.error? w with
  | none => some x.job.name
  | some _ => none

/-- The failure that an attempt ended in. -/
def failure? (w : Work σ) (x : Attempt σ) : Option Failure := (x.error? w).map (⟨x.job.name, ·⟩)

end Attempt

namespace Active

/-- The job, as long as it was not attempted. -/
def untried (a : Active) : List Job :=
  match a.phase with
  | .launched | .announced => [a.job]
  | _ => []

/-- The name that was written and is not yet entered. -/
def written (a : Active) : List Bytes :=
  match a.phase with
  | .attempted (.ok _) | .reported (.ok _) => [a.job.name]
  | _ => []

/-- The failure that is not yet entered. -/
def failures (a : Active) : List Failure :=
  match a.phase with
  | .attempted (.error e) | .reported (.error e) => [⟨a.job.name, e⟩]
  | .recorded (some f) => [f]
  | _ => []

/-- The failure with which the job is about to end the run. -/
def surrendered (a : Active) : List Failure :=
  match a.phase with
  | .recorded (some f) => [f]
  | _ => []

theorem written_attempted (w : Work σ) (x : Attempt σ) :
    written ⟨x.job, .attempted (w.attempt x.cancelled x.job x.sink).1⟩ = (x.written? w).toList := by
  rw [Attempt.written?, ← errorOf_attempt]
  cases (w.attempt x.cancelled x.job x.sink).1 <;> rfl

theorem failures_attempted (w : Work σ) (x : Attempt σ) :
    failures ⟨x.job, .attempted (w.attempt x.cancelled x.job x.sink).1⟩ = (x.failure? w).toList := by
  rw [Attempt.failure?, ← errorOf_attempt]
  cases (w.attempt x.cancelled x.job x.sink).1 <;> rfl

end Active

/-- What the jobs at work hold, all together. -/
def tally (f : Active → List β) (active : List Active) : Multiset β := ↑(active.flatMap f)

@[simp] theorem tally_nil (f : Active → List β) : tally f [] = 0 := rfl

@[simp] theorem tally_concat (f : Active → List β) (active : List Active) (a : Active) :
    tally f (active ++ [a]) = tally f active + ↑(f a) := by
  simp [tally, ← Multiset.coe_add]

theorem tally_cons (f : Active → List β) (a : Active) (active : List Active) :
    tally f (a :: active) = ↑(f a) + tally f active := by
  simp [tally, ← Multiset.coe_add]

theorem tally_perm (f : Active → List β) {l m : List Active} (h : l.Perm m) : tally f l = tally f m :=
  Multiset.coe_eq_coe.2 (h.flatMap_right f)

variable {active : List Active} {i : Nat} {a : Active}

theorem tally_eq (h : active[i]? = some a) (f : Active → List β) :
    tally f active = ↑(f a) + tally f (active.eraseIdx i) := by
  obtain ⟨hi, rfl⟩ := List.getElem?_eq_some_iff.1 h
  rw [← tally_cons]
  exact tally_perm f (List.getElem_cons_eraseIdx_perm hi).symm

theorem tally_set (h : active[i]? = some a) (b : Active) (f : Active → List β) :
    tally f (active.set i b) = ↑(f b) + tally f (active.eraseIdx i) := by
  obtain ⟨hi, -⟩ := List.getElem?_eq_some_iff.1 h
  rw [← tally_cons]
  exact tally_perm f (List.set_perm_cons_eraseIdx hi b)

namespace Effect
variable {w : Work σ} {s t : State σ} {job : Option Job} {x : Option (Attempt σ)}

/-- A job that is started waits for its attempt, and the attempt ends that. -/
theorem untried (h : Effect w s job x t) :
    tally Active.untried t.active + ↑(x.toList.map Attempt.job) = tally Active.untried s.active + ↑job.toList := by
  cases h with
  | idle | cancel | close | accept => simp [State.cancel]
  | launch => simp [Active.untried]
  | attempt h => simp [State.set, tally_eq h, tally_set h, Active.untried, add_comm]
  | leave h => simp [tally_eq h, Active.untried]
  | announce h | report h | write h | skip _ h | fail _ h | settle h | settleLater _ h | settleFirst _ h =>
    simp [State.set, State.publish, tally_eq h, tally_set h, Active.untried]

/-- A name that an attempt wrote is entered once. -/
theorem written (h : Effect w s job x t) : (↑t.written + tally Active.written t.active : Multiset Bytes) =
    ↑s.written + tally Active.written s.active + ↑(x.toList.filterMap (Attempt.written? w)) := by
  cases h with
  | idle | cancel | close | accept => simp [State.cancel]
  | launch => simp [Active.written]
  | @attempt i job h =>
    have hx := Active.written_attempted w ⟨job, s.cancelled, s.sink⟩
    simp only [State.set, tally_eq h, tally_set h, hx]
    cases hw : Attempt.written? w ⟨job, s.cancelled, s.sink⟩ with
    | none => simp [hw, Active.written]
    | some name => simp [hw, Active.written, add_comm]
  | write h => simp [State.set, tally_eq h, tally_set h, Active.written, ← Multiset.coe_add, add_assoc]
  | leave h => simp [tally_eq h, Active.written]
  | @report i job result h => cases result <;> simp [State.set, State.publish, tally_eq h, tally_set h, Active.written]
  | announce h | skip _ h | fail _ h | settle h | settleLater _ h | settleFirst _ h =>
    simp [State.set, State.publish, tally_eq h, tally_set h, Active.written]

/-- A failure is entered once, or given up when it ends the run. -/
theorem failures (h : Effect w s job x t) : ∃ lost : List Failure,
    (↑t.failed + ↑lost + tally Active.failures t.active : Multiset Failure) =
      ↑s.failed + tally Active.failures s.active + ↑(x.toList.filterMap (Attempt.failure? w)) ∧
    (t.failure = none ↔ s.failure = none ∧ lost = []) := by
  cases h with
  | idle | cancel | close | accept => exact ⟨[], by simp [State.cancel]⟩
  | launch => exact ⟨[], by simp [Active.failures]⟩
  | @attempt i job h =>
    have hx := Active.failures_attempted w ⟨job, s.cancelled, s.sink⟩
    refine ⟨[], ?_, by simp [State.set]⟩
    simp only [State.set, tally_eq h, tally_set h, hx]
    cases hw : Attempt.failure? w ⟨job, s.cancelled, s.sink⟩ with
    | none => simp [hw, Active.failures]
    | some f => simp [hw, Active.failures, add_comm]
  | write h => exact ⟨[], by simp [State.set, tally_eq h, tally_set h, Active.failures]⟩
  | skip _ h =>
    refine ⟨[], ?_, by simp [State.set]⟩
    simp [State.set, tally_eq h, tally_set h, Active.failures, ← Multiset.coe_add, add_assoc]
  | @settleLater i job f known h =>
    refine ⟨[f], ?_, by simp [State.set, Option.isSome_iff_ne_none.1 known]⟩
    simp [State.set, tally_eq h, tally_set h, Active.failures, add_assoc]
  | @settleFirst i job f first h =>
    refine ⟨[f], ?_, by simp⟩
    simp [State.set, tally_eq h, tally_set h, Active.failures, add_assoc]
  | leave h => exact ⟨[], by simp [tally_eq h, Active.failures]⟩
  | @report i job result h =>
    refine ⟨[], ?_, by simp [State.set, State.publish]⟩
    cases result <;> simp [State.set, State.publish, tally_eq h, tally_set h, Active.failures]
  | announce h | fail _ h | settle h  =>
    exact ⟨[], by simp [State.set, State.publish, tally_eq h, tally_set h, Active.failures]⟩

/-- Where failures are passed over, none ends the run. -/
theorem keepsGoing (h : Effect w s job x t) (going : w.keepGoing = true)
    (hs : s.failure = none ∧ tally Active.surrendered s.active = 0) :
    t.failure = none ∧ tally Active.surrendered t.active = 0 := by
  obtain ⟨hfailure, hnone⟩ := hs
  cases h with
  | idle | cancel | close | accept => exact ⟨hfailure, hnone⟩
  | launch => exact ⟨hfailure, by simpa [Active.surrendered] using hnone⟩
  | fail aborting => simp [aborting] at going
  | settleFirst _ h | settleLater _ h => simp [tally_eq h, Active.surrendered] at hnone
  | leave h => exact ⟨hfailure, by simpa [tally_eq h, Active.surrendered] using hnone⟩
  | announce h | attempt h | report h | write h | skip _ h | settle h =>
    simpa [State.set, State.publish, tally_eq h, tally_set h, Active.surrendered, hfailure] using hnone

/-- Where a failure ends the run, none is entered. -/
theorem failed_of_aborting (h : Effect w s job x t) (aborting : w.keepGoing = false) : t.failed = s.failed := by
  cases h with
  | skip going => simp [aborting] at going
  | _ => rfl

end Effect

/-- The books are in order: every job that was started is attempted once or waits for it, and every
result is entered once, on its way, or given up because it ends the run. -/
structure Books (w : Work σ) (launched : List Job) (tried : List (Attempt σ)) (s : State σ) : Prop where
  started : (launched : Multiset Job) = ↑(tried.map Attempt.job) + tally Active.untried s.active
  written : (↑(tried.filterMap (Attempt.written? w)) : Multiset Bytes) = ↑s.written + tally Active.written s.active
  failed : ∃ lost : List Failure, (↑(tried.filterMap (Attempt.failure? w)) : Multiset Failure) =
    ↑s.failed + ↑lost + tally Active.failures s.active ∧ (s.failure = none ↔ lost = [])
  going : w.keepGoing = true → s.failure = none ∧ tally Active.surrendered s.active = 0
  aborting : w.keepGoing = false → s.failed = []

theorem Books.step {w : Work σ} {launched : List Job} {tried : List (Attempt σ)} {s t : State σ} {job : Option Job}
    {x : Option (Attempt σ)} (hs : Books w launched tried s) (h : Effect w s job x t) :
    Books w (launched ++ job.toList) (tried ++ x.toList) t where
  started := by
    rw [← Multiset.coe_add, hs.started, List.map_append, ← Multiset.coe_add, add_assoc, ← h.untried]
    abel
  written := by
    rw [List.filterMap_append, ← Multiset.coe_add, hs.written, h.written]
  failed := by
    obtain ⟨lost, hlost, hnone⟩ := hs.failed
    obtain ⟨more, hmore, hnext⟩ := h.failures
    refine ⟨lost ++ more, ?_, ?_⟩
    · rw [List.filterMap_append, ← Multiset.coe_add, hlost, ← Multiset.coe_add]
      calc (↑s.failed + ↑lost + tally Active.failures s.active +
            ↑(x.toList.filterMap (Attempt.failure? w)) : Multiset Failure)
          = ↑lost + (↑s.failed + tally Active.failures s.active +
            ↑(x.toList.filterMap (Attempt.failure? w))) := by abel
        _ = ↑lost + (↑t.failed + ↑more + tally Active.failures t.active) := by rw [hmore]
        _ = ↑t.failed + (↑lost + ↑more) + tally Active.failures t.active := by abel
    · rw [hnext, hnone, List.append_eq_nil_iff]
  going := fun going => h.keepsGoing going (hs.going going)
  aborting := fun aborting => (h.failed_of_aborting aborting).trans (hs.aborting aborting)

end ProtoRecovery.Dump
