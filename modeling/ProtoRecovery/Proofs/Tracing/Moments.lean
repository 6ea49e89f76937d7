import Mathlib.Data.List.Induction
import Mathlib.Data.List.Perm.Basic
import ProtoRecovery.Tracing

/-! # Moments: which runs and files are open after some notices, and which spans that makes

All is said of the notices alone; no table occurs here. -/
namespace ProtoRecovery.Tracing
open Dump

/-- What a notice is about: a run, or a file of a run. -/
inductive Subject | run (id : Bytes) | file (run name : Bytes) deriving DecidableEq, Repr

def subjectOf (n : Notice) : Subject :=
  match n.event with
  | .runStarted | .runFinished .. => .run n.run
  | .fileStarted name | .fileFinished name .. => .file n.run name

def isStart (n : Notice) : Bool :=
  match n.event with
  | .runStarted | .fileStarted _ => true
  | .fileFinished .. | .runFinished .. => false

/-- A notice, with those before it. -/
structure Moment where
  past : List Notice
  notice : Notice
  deriving DecidableEq, Repr

namespace Moment

def subject (m : Moment) : Subject := subjectOf m.notice

def starts (m : Moment) : Bool := isStart m.notice

/-- How many spans were started before. -/
def ordinal (m : Moment) : Nat := m.past.countP isStart

@[simp] theorem subject_mk (past : List Notice) (n : Notice) : subject ⟨past, n⟩ = subjectOf n := rfl

@[simp] theorem starts_mk (past : List Notice) (n : Notice) : starts ⟨past, n⟩ = isStart n := rfl

end Moment

def momentsAfter (past : List Notice) : List Notice → List Moment
  | [] => []
  | n :: notices => ⟨past, n⟩ :: momentsAfter (past ++ [n]) notices

/-- The moments of some notices, in order. -/
def moments (notices : List Notice) : List Moment := momentsAfter [] notices

/-- The last moment that is about a subject. -/
def latest? (notices : List Notice) (x : Subject) : Option Moment :=
  ((moments notices).filter fun m => m.subject = x).getLast?

/-- The start of a subject, if nothing was told of the subject since. -/
def open? (notices : List Notice) (x : Subject) : Option Moment := (latest? notices x).filter Moment.starts

/-- The starts of the subjects that are open. -/
def live (notices : List Notice) : List Moment :=
  (moments notices).filter fun m => open? notices m.subject = some m

namespace Moment

/-- The span of a start. That of a file lies inside the one of its run, if the run is open. -/
def span (m : Moment) : Span :=
  match m.subject with
  | .run id => runSpan m.ordinal id
  | .file run name => fileSpan m.ordinal ((open? m.past (.run run)).map ordinal) name

/-- A span with all that a finish tells. -/
def close (m : Moment) (span : Span) : Span :=
  match m.notice.event with
  | .fileFinished _ size error => span.finishFile size error
  | .runFinished files written failed error => span.finishRun files written failed error
  | .runStarted | .fileStarted _ => span

/-- The start that a finish brings to its end. -/
def closes? (m : Moment) : Option Moment := if m.starts then none else open? m.past m.subject

/-- The start that is open still when its subject is started again. -/
def replaces? (m : Moment) : Option Moment := if m.starts then open? m.past m.subject else none

end Moment

/-- The starts that were brought to their end, in the order of their ends. -/
def closed (notices : List Notice) : List Moment := (moments notices).filterMap Moment.closes?

/-- The starts that others have replaced before they were brought to their end. -/
def lost (notices : List Notice) : List Moment := (moments notices).filterMap Moment.replaces?

/-- The spans that were ended, in order. -/
def endedSpans (notices : List Notice) : List Span :=
  (moments notices).filterMap fun m => m.closes?.map fun start => m.close start.span

/-! ### One more notice -/

section Concat
variable (notices : List Notice) (n : Notice) (x : Subject)

theorem momentsAfter_concat (past : List Notice) :
    momentsAfter past (notices ++ [n]) = momentsAfter past notices ++ [⟨past ++ notices, n⟩] := by
  induction notices generalizing past with
  | nil => simp [momentsAfter]
  | cons m notices ih => simp [momentsAfter, ih]

theorem moments_concat : moments (notices ++ [n]) = moments notices ++ [⟨notices, n⟩] :=
  momentsAfter_concat notices n []

theorem latest?_concat :
    latest? (notices ++ [n]) x = if subjectOf n = x then some ⟨notices, n⟩ else latest? notices x := by
  rw [latest?, moments_concat, List.filter_append]
  by_cases h : subjectOf n = x <;> simp [latest?, h]

theorem open?_concat : open? (notices ++ [n]) x =
    if subjectOf n = x then (if isStart n then some ⟨notices, n⟩ else none) else open? notices x := by
  rw [open?, latest?_concat]
  by_cases h : subjectOf n = x
  · cases hn : isStart n <;> simp [h, hn]
  · simp [h, open?]

theorem closed_concat : closed (notices ++ [n]) = closed notices ++ (Moment.closes? ⟨notices, n⟩).toList := by
  rw [closed, moments_concat, List.filterMap_append]
  cases h : Moment.closes? ⟨notices, n⟩ <;> simp [closed, h]

theorem lost_concat : lost (notices ++ [n]) = lost notices ++ (Moment.replaces? ⟨notices, n⟩).toList := by
  rw [lost, moments_concat, List.filterMap_append]
  cases h : Moment.replaces? ⟨notices, n⟩ <;> simp [lost, h]

theorem endedSpans_concat : endedSpans (notices ++ [n]) = endedSpans notices ++
    ((Moment.closes? ⟨notices, n⟩).map fun start => Moment.close ⟨notices, n⟩ start.span).toList := by
  rw [endedSpans, moments_concat, List.filterMap_append]
  cases h : Moment.closes? ⟨notices, n⟩ <;> simp [endedSpans, h]

end Concat

variable {notices : List Notice} {n : Notice} {x : Subject} {m start : Moment}

theorem split_of_mem (h : m ∈ moments notices) : ∃ after, notices = m.past ++ m.notice :: after := by
  induction notices using List.reverseRecOn with
  | nil => cases h
  | append_singleton notices n ih =>
    rw [moments_concat, List.mem_append, List.mem_singleton] at h
    rcases h with h | rfl
    · obtain ⟨after, hsplit⟩ := ih h
      exact ⟨after ++ [n], by rw [hsplit, List.append_assoc, List.cons_append]⟩
    · exact ⟨[], rfl⟩

theorem notice_mem (h : m ∈ moments notices) : m.notice ∈ notices := by
  obtain ⟨after, hsplit⟩ := split_of_mem h
  rw [hsplit]
  exact List.mem_append_right _ List.mem_cons_self

theorem mem_of_open? (h : open? notices x = some m) : m ∈ moments notices ∧ m.subject = x ∧ m.starts = true := by
  obtain ⟨hlatest, hstarts⟩ := Option.filter_eq_some_iff.1 h
  obtain ⟨hmem, hx⟩ := List.mem_filter.1 (List.mem_of_getLast? hlatest)
  exact ⟨hmem, of_decide_eq_true hx, hstarts⟩

theorem split_of_open? (h : open? notices x = some m) :
    ∃ after, notices = m.past ++ m.notice :: after ∧ ∀ n ∈ after, subjectOf n ≠ x := by
  induction notices using List.reverseRecOn with
  | nil => cases h
  | append_singleton notices n ih =>
    rw [open?_concat] at h
    split at h
    · cases hn : isStart n with
      | true =>
        obtain rfl : ⟨notices, n⟩ = m := by simpa [hn] using h
        exact ⟨[], rfl, by simp⟩
      | false => simp [hn] at h
    · next hx =>
      obtain ⟨after, hsplit, hafter⟩ := ih h
      refine ⟨after ++ [n], by rw [hsplit, List.append_assoc, List.cons_append], ?_⟩
      simpa [or_imp, forall_and] using ⟨hafter, hx⟩

theorem mem_live : m ∈ live notices ↔ open? notices m.subject = some m := by
  rw [live, List.mem_filter, decide_eq_true_iff]
  exact ⟨fun h => h.2, fun h => ⟨(mem_of_open? h).1, h⟩⟩

/-- A notice takes the place of all that was open of its subject. -/
theorem live_concat (notices : List Notice) (n : Notice) : live (notices ++ [n]) =
    (live notices).filter (fun m => m.subject ≠ subjectOf n) ++ if isStart n then [⟨notices, n⟩] else [] := by
  have hlast : open? (notices ++ [n]) (subjectOf n) = if isStart n then some ⟨notices, n⟩ else none := by
    rw [open?_concat, if_pos rfl]
  have hrest : ∀ m ∈ moments notices, decide (open? (notices ++ [n]) m.subject = some m) =
      (decide (m.subject ≠ subjectOf n) && decide (open? notices m.subject = some m)) := by
    intro m hm
    rw [open?_concat]
    by_cases hx : subjectOf n = m.subject
    · have hne : (⟨notices, n⟩ : Moment) ≠ m := by
        rintro rfl
        obtain ⟨after, hsplit⟩ := split_of_mem hm
        exact absurd (congrArg List.length hsplit) (by simp)
      cases isStart n <;> simp [hx, hne]
    · simp [hx, Ne.symm hx]
  rw [live, moments_concat, List.filter_append, List.filter_congr hrest, ← List.filter_filter, live]
  congr 1
  cases hn : isStart n <;> simp [hlast, hn]

/-- Of a subject only the last start can be open. -/
theorem live_about (notices : List Notice) (x : Subject) :
    (live notices).filter (fun m => m.subject = x) = (open? notices x).toList := by
  induction notices using List.reverseRecOn with
  | nil => rfl
  | append_singleton notices n ih =>
    rw [live_concat, open?_concat, List.filter_append, List.filter_filter]
    by_cases hx : subjectOf n = x
    · have hnone : (live notices).filter (fun m => decide (m.subject = x) && decide (m.subject ≠ subjectOf n)) = [] := by
        simp [hx]
      rw [hnone, if_pos hx]
      cases isStart n <;> simp [hx]
    · have hsame : (live notices).filter (fun m => decide (m.subject = x) && decide (m.subject ≠ subjectOf n)) =
          (live notices).filter fun m => m.subject = x := by
        apply List.filter_congr
        intro m _
        by_cases hm : m.subject = x
        · simp [hm, Ne.symm hx]
        · simp [hm]
      rw [hsame, ih, if_neg hx]
      cases isStart n <;> simp [hx]

theorem starts_ordinal (notices : List Notice) :
    ((moments notices).filter Moment.starts).map Moment.ordinal = List.range (notices.countP isStart) := by
  induction notices using List.reverseRecOn with
  | nil => rfl
  | append_singleton notices n ih =>
    rw [moments_concat, List.filter_append, List.map_append, ih, List.countP_append]
    cases hn : isStart n <;> simp [Moment.ordinal, hn, List.range_succ]

theorem live_perm (notices : List Notice) (x : Subject) :
    (live notices).Perm ((live notices).filter (fun m => m.subject ≠ x) ++ (open? notices x).toList) := by
  have hsplit := List.filter_append_perm (fun m : Moment => decide (m.subject ≠ x)) (live notices)
  simpa [live_about] using hsplit.symm

/-- Each start is open, or was brought to its end, or is lost. -/
theorem starts_perm (notices : List Notice) :
    ((moments notices).filter Moment.starts).Perm (live notices ++ closed notices ++ lost notices) := by
  induction notices using List.reverseRecOn with
  | nil => exact .refl _
  | append_singleton notices n ih =>
    rw [List.perm_iff_count] at ih ⊢
    intro m
    have hpast := ih m
    have hlive := (live_perm notices (subjectOf n)).count_eq m
    rw [moments_concat, live_concat, closed_concat, lost_concat, Moment.closes?, Moment.replaces?]
    -- What is open of the subject is closed by a finish and lost by a start.
    simp only [List.filter_append, List.count_append] at hpast hlive ⊢
    cases hn : isStart n with
    | true =>
      simp [hn] at hlive ⊢
      omega
    | false =>
      simp [hn] at hlive ⊢
      omega

/-! ### Starts and finishes that alternate -/

/-- The notices about a subject. -/
def about (x : Subject) (notices : List Notice) : List Notice := notices.filter fun n => subjectOf n = x

/-- A subject is started and finished by turns, and started first. -/
def AlternatesAt (x : Subject) (notices : List Notice) : Prop :=
  (about x notices).map isStart = (List.range (about x notices).length).map fun i => i % 2 == 0

instance : Decidable (AlternatesAt x notices) := inferInstanceAs (Decidable (_ = _))

theorem about_concat : about x (notices ++ [n]) = about x notices ++ if subjectOf n = x then [n] else [] := by
  rw [about, List.filter_append]
  by_cases h : subjectOf n = x <;> simp [about, h]

theorem alternatesAt_concat : AlternatesAt x (notices ++ [n]) ↔
    AlternatesAt x notices ∧ (subjectOf n = x → isStart n = ((about x notices).length % 2 == 0)) := by
  rw [AlternatesAt, about_concat]
  by_cases h : subjectOf n = x
  · rw [if_pos h, List.map_append, List.length_append, List.length_singleton, List.range_succ, List.map_append]
    constructor
    · intro heq
      obtain ⟨hpast, hlast⟩ := List.append_inj' heq rfl
      exact ⟨hpast, fun _ => List.singleton_inj.1 hlast⟩
    · rintro ⟨hpast, hlast⟩
      rw [List.map_singleton, hlast h, hpast, List.map_singleton]
  · simp [h, AlternatesAt]

theorem alternatesAt_of_forall_mem (h : ∀ n ∈ notices, AlternatesAt (subjectOf n) notices) (x : Subject) :
    AlternatesAt x notices := by
  by_cases hx : ∃ n ∈ notices, subjectOf n = x
  · obtain ⟨n, hn, rfl⟩ := hx
    exact h n hn
  · have hnone : about x notices = [] := List.filter_eq_nil_iff.2 fun n hn hn' => hx ⟨n, hn, of_decide_eq_true hn'⟩
    rw [AlternatesAt, hnone]
    rfl

theorem AlternatesAt.of_append {after : List Notice} (h : AlternatesAt x (notices ++ after)) : AlternatesAt x notices := by
  induction after using List.reverseRecOn with
  | nil => rwa [List.append_nil] at h
  | append_singleton after n ih =>
    rw [← List.append_assoc] at h
    exact ih (alternatesAt_concat.1 h).1

theorem AlternatesAt.open?_isSome (h : AlternatesAt x notices) :
    (open? notices x).isSome = ((about x notices).length % 2 == 1) := by
  induction notices using List.reverseRecOn with
  | nil => rfl
  | append_singleton notices n ih =>
    obtain ⟨hpast, hlast⟩ := alternatesAt_concat.1 h
    rw [open?_concat, about_concat]
    by_cases hx : subjectOf n = x
    · rw [if_pos hx, if_pos hx, hlast hx, List.length_append, List.length_singleton]
      rcases Nat.mod_two_eq_zero_or_one (about x notices).length with heven | hodd
      · simp [heven, Nat.add_mod]
      · simp [hodd, Nat.add_mod]
    · rw [if_neg hx, if_neg hx, ih hpast, List.append_nil]

/-- By turns: what is started is not open, and what is finished is. -/
theorem AlternatesAt.isStart_eq (h : AlternatesAt (subjectOf n) (notices ++ [n])) :
    isStart n = (open? notices (subjectOf n)).isNone := by
  obtain ⟨hpast, hlast⟩ := alternatesAt_concat.1 h
  have hopen := hpast.open?_isSome
  rw [hlast rfl, ← Option.not_isSome, hopen]
  rcases Nat.mod_two_eq_zero_or_one (about (subjectOf n) notices).length with heven | hodd
  · simp [heven]
  · simp [hodd]

theorem not_mem_lost (h : AlternatesAt m.subject notices) : m ∉ lost notices := by
  intro hlost
  obtain ⟨o, ho, hopen⟩ := List.mem_filterMap.1 hlost
  rw [Moment.replaces?] at hopen
  split at hopen
  · next hstarts =>
    obtain ⟨after, hsplit⟩ := split_of_mem ho
    have hsubject := (mem_of_open? hopen).2.1
    rw [hsubject, hsplit, List.append_cons] at h
    have hturn := h.of_append.isStart_eq
    rw [show isStart o.notice = true from hstarts, show open? o.past (subjectOf o.notice) = some m from hopen] at hturn
    cases hturn
  · cases hopen

end ProtoRecovery.Tracing
