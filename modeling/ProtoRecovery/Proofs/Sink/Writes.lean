import ProtoRecovery.Proofs.Disk.Writing
import ProtoRecovery.Proofs.Sink.Containment

/-! # Writes below a directory: what they change, and why their order does not matter -/
namespace ProtoRecovery
open ProtoRecovery.Path

namespace Disk
variable {d e : Disk} {p : Path} {text : Bytes}

/-- A disk after a write towards a place. Elsewhere all is as before, or a directory above the place is new. -/
structure Approached (d e : Disk) (target : List Bytes) : Prop where
  workplace : e.workplace = d.workplace
  ascent : e.ascent = d.ascent
  nodes : ∀ place, place ≠ target →
    e.node? place = d.node? place ∨ d.node? place = none ∧ e.node? place = some .directory ∧ place <+: target

/-- No file is new, lost or changed. -/
def SameFiles (d e : Disk) : Prop :=
  ∀ place content, e.node? place = some (.file content) ↔ d.node? place = some (.file content)

theorem Approached.refl (d : Disk) (target : List Bytes) : Approached d d target :=
  ⟨rfl, rfl, fun _ _ => .inl rfl⟩

theorem Written.approached (hp : p.Cleaned) (h : Written d e p text) : Approached d e (d.target p) := by
  refine ⟨h.workplace, h.ascent, fun place hne => ?_⟩
  rw [h.nodes, leaves_of_ne hne]
  split
  · next hmissing => exact .inr ⟨hmissing.1, rfl, (passed_above hp hmissing.2).1⟩
  · exact .inl rfl

theorem Written.node?_of_success (h : Written d e p text) (success : d.failure p = none) :
    e.node? (d.target p) = some (.file text) := by
  rw [h.nodes, leaves, if_pos ⟨success, rfl⟩]

theorem Written.node?_of_failure (hp : p.Cleaned) (h : Written d e p text) (failed : d.failure p ≠ none) :
    e.node? (d.target p) = d.node? (d.target p) := by
  rw [h.nodes, leaves, if_neg fun h => failed h.1, if_neg fun h => (passed_above hp h.2).2 rfl]

/-- Where the place itself is as before too, at most directories are new. -/
theorem Approached.sameFiles {target : List Bytes} (h : Approached d e target)
    (hnode : e.node? target = d.node? target) : SameFiles d e := by
  intro place content
  by_cases heq : place = target
  · rw [heq, hnode]
  · rcases h.nodes place heq with hsame | ⟨hmissing, hmade, -⟩
    · rw [hsame]
    · rw [hmissing, hmade]
      exact ⟨nofun, nofun⟩

end Disk

theorem Path.Within.parts_above {base p : Path} (h : Within base p) : base.parts <+: p.parts := by
  obtain ⟨-, rest, hrest, -⟩ := h
  exact ⟨rest, hrest.symm⟩

namespace Directory
variable {d : Directory} {a b name : Bytes} {p q : Path}

theorem target_of_path (h : d.path name = .ok p) (disk : Disk) :
    disk.target p = disk.target (clean d.root) ++ (clean name).parts := by
  obtain ⟨-, rfl⟩ := path_eq_ok.1 h
  rw [Disk.target, List.foldl_append, Disk.foldl_reach_own (entries_of_path h)]
  rfl

theorem within_of_above (ha : d.path a = .ok p) (hb : d.path b = .ok q) {disk : Disk}
    (above : disk.target p <+: disk.target q) : Within p q := by
  rw [target_of_path ha, target_of_path hb, List.prefix_append_right_inj] at above
  obtain ⟨rest, hrest⟩ := above
  have hup : up ∉ rest := fun h =>
    (entries_of_path hb up (hrest ▸ List.mem_append_right _ h)).2.2 rfl
  obtain ⟨-, rfl⟩ := path_eq_ok.1 ha
  obtain ⟨-, rfl⟩ := path_eq_ok.1 hb
  exact ⟨rfl, rest, by rw [← hrest, List.append_assoc], hup⟩

theorem apart_of_path (ha : d.path a = .ok p) (hb : d.path b = .ok q) (hpq : ¬ Within p q) (hqp : ¬ Within q p)
    (disk : Disk) : Disk.Apart (disk.target p) (disk.target q) :=
  ⟨fun h => hpq (within_of_above ha hb h), fun h => hqp (within_of_above hb ha h)⟩

theorem write_eq (h : d.path name = .ok p) (text : Bytes) (disk : Disk) :
    ∃ after, d.sink.write false name text disk = ((disk.failure p).map .disk, after) ∧
      Disk.Written disk after p text ∧ (disk.failure p = none → after.read p.text = .ok text) := by
  obtain ⟨after, hwrite, hwritten, hread⟩ := Disk.writeBelow_eq (cleaned_of_path h) text disk
  refine ⟨after, ?_, hwritten, hread⟩
  simp only [sink, h, hwrite, Bool.false_eq_true, if_false]

/-- A write is turned away at once, or goes to the disk. -/
theorem write_cases (d : Directory) (cancelled : Bool) (name text : Bytes) (disk : Disk) :
    (∃ error, d.sink.write cancelled name text disk = (some error, disk)) ∨
    ∃ p, d.path name = .ok p ∧ cancelled = false := by
  cases cancelled with
  | true => exact .inl ⟨.cancelled, rfl⟩
  | false =>
    cases h : d.path name with
    | error e => exact .inl ⟨e, by simp [sink, h]⟩
    | ok p => exact .inr ⟨p, rfl, rfl⟩

theorem write_of_success {cancelled : Bool} {text : Bytes} {disk after : Disk}
    (h : d.sink.write cancelled name text disk = (none, after)) :
    ∃ p, d.path name = .ok p ∧ after.read p.text = .ok text ∧ after.node? (disk.target p) = some (.file text) ∧
      Disk.Approached disk after (disk.target p) := by
  rcases d.write_cases cancelled name text disk with ⟨error, hturned⟩ | ⟨p, hp, rfl⟩
  · rw [hturned] at h
    cases h
  · obtain ⟨after', hwrite, hwritten, hread⟩ := write_eq hp text disk
    obtain ⟨hfailure, rfl⟩ := Prod.mk.inj (hwrite.symm.trans h)
    have success := Option.map_eq_none_iff.1 hfailure
    exact ⟨p, hp, hread success, hwritten.node?_of_success success, hwritten.approached (cleaned_of_path hp)⟩

theorem write_of_failure {cancelled : Bool} {text : Bytes} {error : SinkError} {disk after : Disk}
    (h : d.sink.write cancelled name text disk = (some error, after)) :
    Disk.SameFiles disk after ∧ (cancelled = true ∨ Leaves name → after = disk) ∧
      ∀ p, d.path name = .ok p → Disk.Approached disk after (disk.target p) := by
  rcases d.write_cases cancelled name text disk with ⟨error', hturned⟩ | ⟨p, hp, rfl⟩
  · obtain ⟨-, rfl⟩ := Prod.mk.inj (hturned.symm.trans h)
    exact ⟨fun _ _ => Iff.rfl, fun _ => rfl, fun p _ => .refl disk (disk.target p)⟩
  · obtain ⟨after', hwrite, hwritten, -⟩ := write_eq hp text disk
    obtain ⟨hfailure, rfl⟩ := Prod.mk.inj (hwrite.symm.trans h)
    have failed : disk.failure p ≠ none := by
      intro success
      rw [success] at hfailure
      cases hfailure
    have cleaned := cleaned_of_path hp
    have approached := hwritten.approached cleaned
    refine ⟨approached.sameFiles (hwritten.node?_of_failure cleaned failed), fun hturned => ?_, fun q hq => ?_⟩
    · rcases hturned with hcancelled | leaves
      · cases hcancelled
      · exact absurd leaves (path_eq_ok.1 hp).1
    · cases hp.symm.trans hq
      exact approached

/-- Two writes to paths apart, neither of them cancelled. -/
theorem write_order (ha : d.path a = .ok p) (hb : d.path b = .ok q) (hpq : ¬ Within p q) (hqp : ¬ Within q p)
    (text text' : Bytes) (disk : Disk) :
    let first := d.sink.write false a text disk
    let second := d.sink.write false b text' disk
    (d.sink.write false b text' first.2).1 = second.1 ∧ (d.sink.write false a text second.2).1 = first.1 ∧
      Disk.Alike (d.sink.write false b text' first.2).2 (d.sink.write false a text second.2).2 := by
  have apart := apart_of_path ha hb hpq hqp disk
  have hp := cleaned_of_path ha
  have hq := cleaned_of_path hb
  obtain ⟨e, hfirst, first, -⟩ := write_eq ha text disk
  obtain ⟨e', hfirst', first', -⟩ := write_eq hb text' disk
  obtain ⟨f, hsecond, second, -⟩ := write_eq hb text' e
  obtain ⟨f', hsecond', second', -⟩ := write_eq ha text e'
  simp only [hfirst, hfirst', hsecond, hsecond']
  rw [first.failure_eq hp hq apart, first'.failure_eq hq hp apart.symm]
  exact ⟨rfl, rfl, first.alike hp hq apart second first' second'⟩

end Directory

/-- A write that succeeds leaves the text at the path of its name, a write that fails changes no file, and neither changes
anything else, apart from directories that were missing above the path. Two writes to paths neither of which is the
other or lies above it have the same results and lead to the same disk in either order. -/
theorem writes_independent (d : Directory) (disk : Disk) :
    (∀ cancelled name text after, d.sink.write cancelled name text disk = (none, after) →
      ∃ p, d.path name = .ok p ∧ after.read p.text = .ok text ∧ after.node? (disk.target p) = some (.file text) ∧
        Disk.Approached disk after (disk.target p)) ∧
    (∀ cancelled name text error after, d.sink.write cancelled name text disk = (some error, after) →
      Disk.SameFiles disk after ∧ (cancelled = true ∨ Leaves name → after = disk) ∧
        ∀ p, d.path name = .ok p → Disk.Approached disk after (disk.target p)) ∧
    (∀ a b p q, d.path a = .ok p → d.path b = .ok q → ¬ Within p q → ¬ Within q p →
      ∀ cancelled cancelled' text text',
        let first := d.sink.write cancelled a text disk
        let second := d.sink.write cancelled' b text' disk
        (d.sink.write cancelled' b text' first.2).1 = second.1 ∧
        (d.sink.write cancelled a text second.2).1 = first.1 ∧
        Disk.Alike (d.sink.write cancelled' b text' first.2).2 (d.sink.write cancelled a text second.2).2) := by
  refine ⟨fun _ _ _ _ => Directory.write_of_success, fun _ _ _ _ _ => Directory.write_of_failure, ?_⟩
  intro a b p q ha hb hpq hqp cancelled cancelled' text text'
  -- A cancelled write does nothing, so there is no order to speak of.
  cases cancelled with
  | true => exact ⟨rfl, rfl, rfl, rfl, fun _ => rfl⟩
  | false =>
    cases cancelled' with
    | true => exact ⟨rfl, rfl, rfl, rfl, fun _ => rfl⟩
    | false => exact Directory.write_order ha hb hpq hqp text text' disk

private def larder : Directory := ⟨utf8 "out/./"⟩

private def crated (ascent : Ascent) : Disk :=
  { nodes := [([utf8 "out"], .directory), ([utf8 "out", utf8 "crate"], .file (utf8 "old"))], ascent }

/-- Two names share a directory that is missing, and the way to a third is blocked by a file. A file above the innermost
directory is reported by its bare path as no directory, or with a slash at its end as one that exists; in the place of
the innermost directory it is no directory on either kind of disk. -/
theorem writes_independent_larder :
    (∃ after, larder.sink.write false (utf8 "rack/jar") (utf8 "plum") (crated .slashed) = (none, after) ∧
      after.read (utf8 "out/rack/jar") = .ok (utf8 "plum")) ∧
    (∃ error after, larder.sink.write false (utf8 "crate/box/jar") (utf8 "plum") (crated .slashed) = (some error, after) ∧
      error.message = utf8 "mkdir out/crate/: file exists" ∧ error.errorClass = .other ∧
      Disk.SameFiles (crated .slashed) after) ∧
    (∃ error after, larder.sink.write false (utf8 "crate/box/jar") (utf8 "plum") (crated .bare) = (some error, after) ∧
      error.message = utf8 "mkdir out/crate: not a directory" ∧ error.errorClass = .notDirectory ∧
      Disk.SameFiles (crated .bare) after) ∧
    (∃ error after, larder.sink.write false (utf8 "crate/jar") (utf8 "plum") (crated .slashed) = (some error, after) ∧
      error.message = utf8 "mkdir out/crate: not a directory" ∧ error.errorClass = .notDirectory ∧
      Disk.SameFiles (crated .slashed) after) ∧
    ∃ p q, larder.path (utf8 "rack/jar") = .ok p ∧ larder.path (utf8 "rack/x/../can") = .ok q ∧
      ¬ Within p q ∧ ¬ Within q p ∧
      Disk.Alike
        (larder.sink.write false (utf8 "rack/x/../can") (utf8 "pear")
          (larder.sink.write false (utf8 "rack/jar") (utf8 "plum") (crated .slashed)).2).2
        (larder.sink.write false (utf8 "rack/jar") (utf8 "plum")
          (larder.sink.write false (utf8 "rack/x/../can") (utf8 "pear") (crated .slashed)).2).2 := by
  obtain ⟨success, failure, order⟩ := writes_independent larder (crated .slashed)
  obtain ⟨-, failure', -⟩ := writes_independent larder (crated .bare)
  have jar : larder.path (utf8 "rack/jar") = .ok ⟨false, [utf8 "out", utf8 "rack", utf8 "jar"]⟩ := by decide +kernel
  have can : larder.path (utf8 "rack/x/../can") = .ok ⟨false, [utf8 "out", utf8 "rack", utf8 "can"]⟩ := by
    decide +kernel
  have hwrite : larder.sink.write false (utf8 "rack/jar") (utf8 "plum") (crated .slashed) =
      (none, (larder.sink.write false (utf8 "rack/jar") (utf8 "plum") (crated .slashed)).2) := by decide +kernel
  have hexists : larder.sink.write false (utf8 "crate/box/jar") (utf8 "plum") (crated .slashed) =
      (some (.disk ⟨.makingDirectory, utf8 "out/crate/", .fileExists⟩), crated .slashed) := by decide +kernel
  have hbare : larder.sink.write false (utf8 "crate/box/jar") (utf8 "plum") (crated .bare) =
      (some (.disk ⟨.makingDirectory, utf8 "out/crate", .notDirectory⟩), crated .bare) := by decide +kernel
  have hinner : larder.sink.write false (utf8 "crate/jar") (utf8 "plum") (crated .slashed) =
      (some (.disk ⟨.makingDirectory, utf8 "out/crate", .notDirectory⟩), crated .slashed) := by decide +kernel
  refine ⟨⟨_, hwrite, ?_⟩, ⟨_, _, hexists, by decide, rfl, (failure _ _ _ _ _ hexists).1⟩,
    ⟨_, _, hbare, by decide, rfl, (failure' _ _ _ _ _ hbare).1⟩,
    ⟨_, _, hinner, by decide, rfl, (failure _ _ _ _ _ hinner).1⟩, _, _, jar, can, ?_⟩
  · obtain ⟨p, hp, hread, -⟩ := success _ _ _ _ hwrite
    cases jar.symm.trans hp
    exact hread
  · have hpq : ¬ Within ⟨false, [utf8 "out", utf8 "rack", utf8 "jar"]⟩ ⟨false, [utf8 "out", utf8 "rack", utf8 "can"]⟩ :=
      fun within => absurd within.parts_above (by decide +kernel)
    have hqp : ¬ Within ⟨false, [utf8 "out", utf8 "rack", utf8 "can"]⟩ ⟨false, [utf8 "out", utf8 "rack", utf8 "jar"]⟩ :=
      fun within => absurd within.parts_above (by decide +kernel)
    exact ⟨hpq, hqp, (order _ _ _ _ jar can hpq hqp false false _ _).2.2⟩

end ProtoRecovery
