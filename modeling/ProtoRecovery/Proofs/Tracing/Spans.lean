import Mathlib.Data.List.Perm.Lattice
import ProtoRecovery.Proofs.Tables
import ProtoRecovery.Proofs.Text.Splitting
import ProtoRecovery.Proofs.Tracing.Moments

/-! # Spans: a subscriber has those of the starts that are open, and ends the others

A table is known from the notices alone: it lists what is `live`, the latest first. Each notice takes
the table of the notices before it to the table of all of them. -/
namespace ProtoRecovery.Tracing
open Dump

theorem fileKey_inj {run run' name name' : Bytes} (h : 0 ∉ run) (h' : 0 ∉ run') :
    fileKey run name = fileKey run' name' ↔ run = run' ∧ name = name' := by
  constructor
  · intro heq
    have hpieces := congrArg (Bytes.split 0) heq
    rw [fileKey, fileKey, Bytes.split_append_cons h, Bytes.split_append_cons h'] at hpieces
    obtain ⟨rfl, -⟩ := List.cons.inj hpieces
    exact ⟨rfl, (List.cons.inj (List.append_cancel_left heq)).2⟩
  · rintro ⟨rfl, rfl⟩
    rfl

namespace Subject

def isRun : Subject → Bool
  | run _ => true
  | file .. => false

/-- The run that a subject is, or is in. -/
def owner : Subject → Bytes
  | run id => id
  | file id _ => id

def key : Subject → Bytes
  | run id => id
  | file id name => fileKey id name

/-- Without zeros in the names of runs, a key is that of one subject among the runs, and of one among the files. -/
theorem key_inj {x y : Subject} (hx : 0 ∉ x.owner) (hy : 0 ∉ y.owner) (hkind : x.isRun = y.isRun) :
    x.key = y.key ↔ x = y := by
  cases x with
  | run id =>
    cases y with
    | run id' => rw [key, key, run.injEq]
    | file run' name' => cases hkind
  | file run name =>
    cases y with
    | run id' => cases hkind
    | file run' name' =>
      rw [file.injEq]
      exact fileKey_inj hx hy

end Subject

@[simp] theorem owner_subjectOf (n : Notice) : (subjectOf n).owner = n.run := by
  rw [subjectOf]
  cases n.event <;> rfl

namespace Moment

def entry (m : Moment) : Bytes × Span := (m.subject.key, m.span)

@[simp] theorem span_ordinal (m : Moment) : m.span.ordinal = m.ordinal := by
  rw [span]
  cases m.subject <;> rfl

@[simp] theorem close_ordinal (m : Moment) (s : Span) : (m.close s).ordinal = s.ordinal := by
  rw [close]
  cases m.notice.event <;> rfl

end Moment

/-- The open spans of runs, or of files. -/
def table (runs : Bool) (notices : List Notice) : Table :=
  ((live notices).reverse.filter fun m => m.subject.isRun == runs).map Moment.entry

def seen (notices : List Notice) : Subscriber := ⟨table true notices, table false notices⟩

def traced (notices : List Notice) : Trace := ⟨notices.countP isStart, endedSpans notices⟩

section Tables
variable {notices : List Notice} {n : Notice} {x : Subject} {m : Moment} {runs : Bool}

theorem mem_table {e : Bytes × Span} :
    e ∈ table runs notices ↔ ∃ m, open? notices m.subject = some m ∧ m.subject.isRun = runs ∧ m.entry = e := by
  simp [table, mem_live, and_assoc]

theorem owner_of_open? (plain : ∀ n ∈ notices, 0 ∉ n.run) (h : open? notices x = some m) : 0 ∉ x.owner := by
  obtain ⟨hmem, hx, -⟩ := mem_of_open? h
  rw [← hx, Moment.subject, owner_subjectOf]
  exact plain _ (notice_mem hmem)

theorem subject_of_key (plain : ∀ n ∈ notices, 0 ∉ n.run) (hx : 0 ∉ x.owner) (hopen : open? notices m.subject = some m)
    (hkind : m.subject.isRun = x.isRun) : m.subject.key = x.key ↔ m.subject = x :=
  Subject.key_inj (owner_of_open? plain hopen) hx hkind

theorem lookup_table (plain : ∀ n ∈ notices, 0 ∉ n.run) (hx : 0 ∉ x.owner) :
    (table x.isRun notices).lookup x.key = (open? notices x).map Moment.span := by
  have hdistinct : ∀ a ∈ table x.isRun notices, ∀ b ∈ table x.isRun notices, a.1 = b.1 → a = b := by
    intro a ha b hb hkey
    obtain ⟨m, hm, hkind, rfl⟩ := mem_table.1 ha
    obtain ⟨o, ho, hkind', rfl⟩ := mem_table.1 hb
    have hsubject := (subject_of_key plain (owner_of_open? plain ho) hm (hkind.trans hkind'.symm)).1 hkey
    rw [hsubject, ho] at hm
    rw [Option.some.inj hm]
  ext span
  rw [Tables.lookup_eq_some_iff hdistinct, mem_table, Option.map_eq_some_iff]
  constructor
  · rintro ⟨m, hopen, hkind, hentry⟩
    obtain ⟨hkey, hspan⟩ := Prod.mk.inj hentry
    exact ⟨m, (subject_of_key plain hx hopen hkind).1 hkey ▸ hopen, hspan⟩
  · rintro ⟨m, hopen, rfl⟩
    obtain ⟨-, rfl, -⟩ := mem_of_open? hopen
    exact ⟨m, hopen, rfl, rfl⟩

theorem remove_table (plain : ∀ n ∈ notices, 0 ∉ n.run) (hx : 0 ∉ x.owner) : Table.remove (table x.isRun notices) x.key =
    (((live notices).filter fun m => m.subject ≠ x).reverse.filter fun m => m.subject.isRun == x.isRun).map
      Moment.entry := by
  rw [Table.remove, table, List.filter_map, ← List.filter_reverse, List.filter_filter, List.filter_filter]
  congr 1
  apply List.filter_congr
  intro m hm
  have hopen := mem_live.1 (List.mem_reverse.1 hm)
  rw [Bool.eq_iff_iff]
  simp only [Function.comp_apply, Bool.and_eq_true, bne_iff_ne, beq_iff_eq, decide_eq_true_eq]
  rw [and_comm]
  exact and_congr_right fun hkind => not_congr (subject_of_key plain hx hopen hkind)

theorem table_concat (runs : Bool) (notices : List Notice) (n : Notice) : table runs (notices ++ [n]) =
    (if isStart n && (subjectOf n).isRun == runs then [Moment.entry ⟨notices, n⟩] else []) ++
      (((live notices).filter fun m => m.subject ≠ subjectOf n).reverse.filter fun m => m.subject.isRun == runs).map
        Moment.entry := by
  rw [table, live_concat, List.reverse_append, List.filter_append, List.map_append]
  congr 1
  by_cases hkind : (subjectOf n).isRun = runs <;> cases isStart n <;> simp [hkind]

theorem table_concat_self (plain : ∀ n ∈ notices, 0 ∉ n.run) (hn : 0 ∉ n.run) :
    table (subjectOf n).isRun (notices ++ [n]) =
      if isStart n then Table.store (table (subjectOf n).isRun notices) (subjectOf n).key (Moment.span ⟨notices, n⟩)
      else Table.remove (table (subjectOf n).isRun notices) (subjectOf n).key := by
  rw [← owner_subjectOf] at hn
  rw [table_concat, ← remove_table plain hn]
  cases isStart n <;> simp [Table.store, Table.remove, Moment.entry]

theorem table_concat_other (h : (subjectOf n).isRun ≠ runs) : table runs (notices ++ [n]) = table runs notices := by
  rw [table_concat, ← List.filter_reverse, List.filter_filter, table]
  have hsame : ∀ m ∈ (live notices).reverse,
      ((m.subject.isRun == runs) && decide (m.subject ≠ subjectOf n)) = (m.subject.isRun == runs) := by
    intro m _
    by_cases hm : m.subject = subjectOf n <;> simp [hm, h]
  rw [List.filter_congr hsame, if_neg (by simp [h]), List.nil_append]

/-- A finish of what is not open leaves both tables as they are. -/
theorem table_idle (hn : isStart n = false) (hopen : open? notices (subjectOf n) = none) :
    table runs (notices ++ [n]) = table runs notices := by
  have hall : ∀ m ∈ live notices, decide (m.subject ≠ subjectOf n) = true := by
    intro m hm
    apply decide_eq_true
    intro hsubject
    rw [← hsubject, mem_live.1 hm] at hopen
    cases hopen
  rw [table_concat, List.filter_eq_self.2 hall, hn, table]
  rfl

end Tables

/-! ### What a subscriber does, notice by notice -/

section Following
variable {notices : List Notice} {n : Notice}

theorem traced_start (h : isStart n = true) :
    traced (notices ++ [n]) = { traced notices with started := (traced notices).started + 1 } := by
  simp [traced, endedSpans_concat, Moment.closes?, h]

theorem traced_finish (h : isStart n = false) : traced (notices ++ [n]) =
    { traced notices with
      ended := (traced notices).ended ++
        ((open? notices (subjectOf n)).map fun start => Moment.close ⟨notices, n⟩ start.span).toList } := by
  simp [traced, endedSpans_concat, Moment.closes?, h]

theorem seen_idle (hn : isStart n = false) (hopen : open? notices (subjectOf n) = none) :
    seen (notices ++ [n]) = seen notices := by
  rw [seen, table_idle hn hopen, table_idle hn hopen, seen]

theorem traced_idle (hn : isStart n = false) (hopen : open? notices (subjectOf n) = none) :
    traced (notices ++ [n]) = traced notices := by
  rw [traced_finish hn, hopen, Option.map_none, Option.toList_none, List.append_nil]

/-- One notice: the tables and the trace of the notices before it become those of all. -/
theorem receive_seen (plain : ∀ n ∈ notices, 0 ∉ n.run) (hn : 0 ∉ n.run) :
    (seen notices).receive (traced notices) n = (seen (notices ++ [n]), traced (notices ++ [n])) := by
  obtain ⟨run, event⟩ := n
  have hself := table_concat_self plain hn
  have hrun : (table true notices).lookup run = (open? notices (.run run)).map Moment.span :=
    lookup_table (x := .run run) plain hn
  cases event with
  | runStarted =>
    have hruns : table true (notices ++ [⟨run, .runStarted⟩]) =
        Table.store (table true notices) run (runSpan (notices.countP isStart) run) := hself
    have hfiles : table false (notices ++ [⟨run, .runStarted⟩]) = table false notices :=
      table_concat_other Bool.false_ne_true.symm
    rw [traced_start rfl, seen, seen, hruns, hfiles]
    rfl
  | fileStarted name =>
    have hruns : table true (notices ++ [⟨run, .fileStarted name⟩]) = table true notices :=
      table_concat_other Bool.false_ne_true
    have hfiles : table false (notices ++ [⟨run, .fileStarted name⟩]) =
        Table.store (table false notices) (fileKey run name)
          (fileSpan (notices.countP isStart) ((open? notices (.run run)).map Moment.ordinal) name) := hself
    -- The parent is found in the table of the runs, under the name of the run alone.
    have hparent : ((table true notices).lookup run).map Span.ordinal = (open? notices (.run run)).map Moment.ordinal := by
      rw [hrun, Option.map_map]
      congr 1
      funext m
      exact m.span_ordinal
    rw [traced_start rfl, seen, seen, hruns, hfiles, ← hparent]
    rfl
  | fileFinished name size error =>
    have hfile : (table false notices).lookup (fileKey run name) = (open? notices (.file run name)).map Moment.span :=
      lookup_table (x := .file run name) plain hn
    cases hopen : open? notices (.file run name) with
    | none =>
      rw [seen_idle rfl hopen, traced_idle rfl hopen]
      simp [Subscriber.receive, seen, hfile, hopen]
    | some start =>
      have hruns : table true (notices ++ [⟨run, .fileFinished name size error⟩]) = table true notices :=
        table_concat_other Bool.false_ne_true
      have hfiles : table false (notices ++ [⟨run, .fileFinished name size error⟩]) =
          Table.remove (table false notices) (fileKey run name) := hself
      rw [traced_finish rfl, seen, seen, hruns, hfiles]
      simp [Subscriber.receive, hfile, subjectOf, hopen, Moment.close]
  | runFinished files written failed error =>
    cases hopen : open? notices (.run run) with
    | none =>
      rw [seen_idle rfl hopen, traced_idle rfl hopen]
      simp [Subscriber.receive, seen, hrun, hopen]
    | some start =>
      have hruns : table true (notices ++ [⟨run, .runFinished files written failed error⟩]) =
          Table.remove (table true notices) run := hself
      have hfiles : table false (notices ++ [⟨run, .runFinished files written failed error⟩]) = table false notices :=
        table_concat_other Bool.false_ne_true.symm
      rw [traced_finish rfl, seen, seen, hruns, hfiles]
      simp [Subscriber.receive, hrun, subjectOf, hopen, Moment.close]

theorem follow_append (s : Subscriber) (t : Trace) (before after : List Notice) :
    s.follow t (before ++ after) = (s.follow t before).1.follow (s.follow t before).2 after := by
  induction before generalizing s t with
  | nil => rfl
  | cons n before ih => exact ih _ _

theorem follow_eq (plain : ∀ n ∈ notices, 0 ∉ n.run) :
    Subscriber.follow {} {} notices = (seen notices, traced notices) := by
  induction notices using List.reverseRecOn with
  | nil => rfl
  | append_singleton notices n ih =>
    have hpast : ∀ n ∈ notices, 0 ∉ n.run := fun n hn => plain n (List.mem_append_left _ hn)
    rw [follow_append, ih hpast]
    exact receive_seen hpast (plain n (List.mem_append_right _ List.mem_cons_self))

end Following

namespace Hub

/-- A bus that had one subscriber when the notices came. -/
def after (notices : List Notice) : Hub := notices.foldl publish ({} : Hub).attach

theorem publish_attach (s : Subscriber) (t : Trace) (n : Notice) :
    publish { ({} : Hub).attach with subscribers := [s], trace := t } n =
      { ({} : Hub).attach with subscribers := [(s.receive t n).1], trace := (s.receive t n).2 } := by
  have haudience : (({} : Hub).attach.bus.subscriptions (topicOf n.event)).map Subscription.handler = [0] := by
    cases n.event <;> rfl
  rw [publish, haudience]
  rfl

theorem after_eq_follow (notices : List Notice) : after notices =
    { ({} : Hub).attach with
      subscribers := [(Subscriber.follow {} {} notices).1], trace := (Subscriber.follow {} {} notices).2 } := by
  induction notices using List.reverseRecOn with
  | nil => rfl
  | append_singleton notices n ih =>
    rw [after, List.foldl_append, ← after, ih, follow_append]
    exact publish_attach _ _ n

theorem after_eq {notices : List Notice} (plain : ∀ n ∈ notices, 0 ∉ n.run) :
    after notices = { ({} : Hub).attach with subscribers := [seen notices], trace := traced notices } := by
  rw [after_eq_follow, follow_eq plain]

end Hub

/-! ### Starts, ends and what is open -/

section Results
variable {notices : List Notice}

/-- The spans that a subscriber has open. -/
def Subscriber.spans (s : Subscriber) : List Span := (s.runs ++ s.files).map Prod.snd

theorem spans_seen (notices : List Notice) : (seen notices).spans.Perm ((live notices).map Moment.span) := by
  have hsplit : (live notices).reverse.Perm (((live notices).reverse.filter fun m => m.subject.isRun == true) ++
      (live notices).reverse.filter fun m => m.subject.isRun == false) := by
    simpa using (List.filter_append_perm (fun m : Moment => m.subject.isRun) (live notices).reverse).symm
  have hspans : (seen notices).spans = (((live notices).reverse.filter fun m => m.subject.isRun == true) ++
      (live notices).reverse.filter fun m => m.subject.isRun == false).map Moment.span := by
    simp [Subscriber.spans, seen, table, Moment.entry, Function.comp_def]
  rw [hspans]
  exact (hsplit.symm.trans (List.reverse_perm _)).map _

theorem endedSpans_ordinal (notices : List Notice) :
    (endedSpans notices).map Span.ordinal = (closed notices).map Moment.ordinal := by
  rw [endedSpans, closed, List.map_filterMap, List.map_filterMap]
  congr 1
  funext m
  rw [Option.map_map]
  congr 1
  funext start
  simp

/-- A span that is not open has been ended once, unless it was lost. -/
theorem count_ended {m : Moment} (hm : m ∈ moments notices) (hstarts : m.starts = true)
    (hopen : open? notices m.subject ≠ some m) :
    ((endedSpans notices).map Span.ordinal).count m.ordinal = if m ∈ lost notices then 0 else 1 := by
  have hdistinct : ((live notices ++ closed notices ++ lost notices).map Moment.ordinal).Nodup := by
    rw [← ((starts_perm notices).map Moment.ordinal).nodup_iff, starts_ordinal]
    exact List.nodup_range
  rw [List.map_append, List.map_append] at hdistinct
  obtain ⟨hpresent, -, hapart⟩ := List.nodup_append.1 hdistinct
  rw [endedSpans_ordinal]
  split
  · next hlost =>
    apply List.count_eq_zero.2
    intro hclosed
    exact hapart _ (List.mem_append_right _ hclosed) _ (List.mem_map_of_mem hlost) rfl
  · next hlost =>
    have hmem := (starts_perm notices).mem_iff.1 (List.mem_filter.2 ⟨hm, hstarts⟩)
    have hclosed : m ∈ closed notices := by
      rcases List.mem_append.1 hmem with hmem | hmem
      · rcases List.mem_append.1 hmem with hlive | hclosed
        · exact absurd (mem_live.1 hlive) hopen
        · exact hclosed
      · exact absurd hmem hlost
    exact List.count_eq_one_of_mem (List.nodup_append.1 hpresent).2.1 (List.mem_map_of_mem hclosed)

/-- By turns, each finish ends a span. -/
theorem endedSpans_eq (turns : ∀ x, AlternatesAt x notices) : (endedSpans notices).map some =
    ((moments notices).filter fun m => !m.starts).map fun m =>
      (open? m.past m.subject).map fun start => m.close start.span := by
  induction notices using List.reverseRecOn with
  | nil => rfl
  | append_singleton notices n ih =>
    have hturn := (turns (subjectOf n)).isStart_eq
    rw [endedSpans_concat, moments_concat, List.map_append, ih fun x => (turns x).of_append, List.filter_append,
      List.map_append]
    congr 1
    cases hopen : open? notices (subjectOf n) with
    | none =>
      have hn : isStart n = true := by rw [hturn, hopen]; rfl
      simp [Moment.closes?, hn]
    | some start =>
      have hn : isStart n = false := by rw [hturn, hopen]; rfl
      simp [Moment.closes?, hn, hopen]

theorem after_insert {before : List Notice} {n : Notice} (plain : ∀ n ∈ before, 0 ∉ n.run) (hn : 0 ∉ n.run)
    (hfinish : isStart n = false) (hopen : open? before (subjectOf n) = none) (after : List Notice) :
    Hub.after (before ++ n :: after) = Hub.after (before ++ after) := by
  have hstep : Subscriber.follow {} {} (before ++ n :: after) = Subscriber.follow {} {} (before ++ after) := by
    rw [follow_append, follow_append, follow_eq plain, Subscriber.follow, receive_seen plain hn, seen_idle hfinish hopen,
      traced_idle hfinish hopen]
  rw [Hub.after_eq_follow, Hub.after_eq_follow, hstep]

/-- Where runs and files are started and finished by turns, each start makes a span, each finish ends the span of the
start before it, and the spans of the other starts are open. A finish of what is not open changes nothing. -/
theorem spans_follow_notices (plain : ∀ n ∈ notices, 0 ∉ n.run) (turns : ∀ x, AlternatesAt x notices) :
    (Hub.after notices).trace.started = notices.countP isStart ∧
    (Hub.after notices).trace.ended.map some = ((moments notices).filter fun m => !m.starts).map (fun m =>
      (open? m.past m.subject).map fun start => m.close start.span) ∧
    (∃ s, (Hub.after notices).subscribers = [s] ∧
      s.spans.Perm ((live notices).map Moment.span) ∧
      ((s.spans ++ (Hub.after notices).trace.ended).map Span.ordinal).Perm
        (List.range (Hub.after notices).trace.started)) ∧
    ∀ before after n, notices = before ++ after → 0 ∉ n.run → isStart n = false → open? before (subjectOf n) = none →
      Hub.after (before ++ n :: after) = Hub.after notices := by
  rw [Hub.after_eq plain]
  refine ⟨rfl, endedSpans_eq turns, ⟨_, rfl, spans_seen notices, ?_⟩, ?_⟩
  · have hopen : ((seen notices).spans.map Span.ordinal).Perm ((live notices).map Moment.ordinal) := by
      simpa [Function.comp_def] using (spans_seen notices).map Span.ordinal
    have hlost : lost notices = [] := List.eq_nil_iff_forall_not_mem.2 fun m => not_mem_lost (turns m.subject)
    have hstarts := (starts_perm notices).map Moment.ordinal
    rw [hlost, List.append_nil, starts_ordinal, List.map_append] at hstarts
    rw [List.map_append, traced, endedSpans_ordinal]
    exact (hopen.append_right _).trans hstarts.symm
  · intro before after n hsplit hn hfinish hclosed
    rw [← Hub.after_eq plain, hsplit]
    rw [hsplit] at plain
    exact after_insert (fun m hm => plain m (List.mem_append_left _ hm)) hn hfinish hclosed after

private def ferry : List Notice :=
  [⟨utf8 "ferry", .runStarted⟩, ⟨utf8 "barge", .runStarted⟩, ⟨utf8 "ferry", .fileStarted (utf8 "deck")⟩,
    ⟨utf8 "barge", .fileStarted (utf8 "deck")⟩, ⟨utf8 "ferry", .fileFinished (utf8 "deck") 7 none⟩,
    ⟨utf8 "ferry", .runFinished 1 1 0 none⟩, ⟨utf8 "ferry", .fileStarted (utf8 "hold")⟩,
    ⟨utf8 "barge", .fileFinished (utf8 "deck") 0 (some (utf8 "leak"))⟩, ⟨utf8 "ferry", .runStarted⟩]

theorem spans_follow_notices_ferry : (Hub.after ferry).trace.started = 6 ∧
    (Hub.after ferry).trace.ended.map some =
      [some ((fileSpan 2 (some 0) (utf8 "deck")).finishFile 7 none), some ((runSpan 0 (utf8 "ferry")).finishRun 1 1 0 none),
        some ((fileSpan 3 (some 1) (utf8 "deck")).finishFile 0 (some (utf8 "leak")))] ∧
    (∃ s, (Hub.after ferry).subscribers = [s] ∧
      s.spans.Perm [runSpan 1 (utf8 "barge"), fileSpan 4 none (utf8 "hold"), runSpan 5 (utf8 "ferry")]) ∧
    Hub.after (ferry.take 5 ++ ⟨utf8 "ferry", .fileFinished (utf8 "deck") 9 none⟩ :: ferry.drop 5) = Hub.after ferry := by
  have plain : ∀ n ∈ ferry, 0 ∉ n.run := by decide +kernel
  have turns : ∀ x, AlternatesAt x ferry := alternatesAt_of_forall_mem (by decide +kernel)
  obtain ⟨hstarted, hended, ⟨s, hs, hspans, -⟩, hidle⟩ := spans_follow_notices plain turns
  refine ⟨hstarted.trans (by decide +kernel), hended.trans (by decide +kernel), ⟨s, hs, hspans.trans ?_⟩, ?_⟩
  · exact .of_eq (by decide +kernel)
  · exact hidle _ _ _ (List.take_append_drop 5 ferry).symm (by decide +kernel) rfl (by decide +kernel)

end Results
end ProtoRecovery.Tracing
