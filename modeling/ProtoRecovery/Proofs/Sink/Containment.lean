import ProtoRecovery.Proofs.Disk.Frame
import ProtoRecovery.Proofs.Text.Reading
import ProtoRecovery.Sink.Directory

/-! # Containment: names are written below their directory, and apart if they are cleaned to different paths -/
namespace ProtoRecovery
open ProtoRecovery.Path

/-- A name that leads out of the place where it starts: it is empty, starts at the root, or goes up once
it is cleaned. -/
def Path.Leaves (name : Bytes) : Prop :=
  name = [] ∨ name.head? = some Bytes.slash ∨ (clean name).text = up ∨ utf8 "../" <+: (clean name).text

/-- A path is another one or lies below it, by spelling alone. -/
def Path.Within (base p : Path) : Prop :=
  p.rooted = base.rooted ∧ ∃ rest, p.parts = base.parts ++ rest ∧ up ∉ rest

theorem Path.isLocal_iff_not_leaves {name : Bytes} : isLocal name = true ↔ ¬ Leaves name := by
  have head : name.head? = some Bytes.slash ↔ ¬ (clean name).rooted = false := by simp [clean]
  rw [isLocal_iff, Leaves, not_or, not_or, head, not_not]
  refine and_congr_right fun _ => and_congr_right fun relative => ?_
  rw [(clean_cleaned name).text_goes_up relative]

theorem Path.join_cleaned (base t : Bytes) : (join base t).Cleaned := by
  unfold join
  split <;> exact clean_cleaned _

theorem Path.clean_entry {part : Bytes} (named : part ≠ [] ∧ part ≠ here ∧ Bytes.slash ∉ part) :
    clean part = ⟨false, [part]⟩ := by
  have h : Cleaned ⟨false, [part]⟩ := ⟨by simpa using named, by simp, by simp⟩
  exact clean_text h

/-- A stamp is made of digits and hyphens. -/
theorem Moment.mem_stamp (t : Moment) {b : UInt8} (h : b ∈ t.stamp) : b = 0x2d ∨ Text.isDigitByte b = true := by
  have padded : ∀ {width n}, b ∈ Reading.padded width n → b = 0x2d ∨ Text.isDigitByte b = true := by
    intro width n hb
    have digits : b ∈ Text.decimalPadded width n.natAbs → Text.isDigitByte b = true := by
      intro hb
      rcases List.mem_append.1 hb with hb | hb
      · rw [List.eq_of_mem_replicate hb]
        decide
      · exact Text.isDigitByte_of_mem_decimal hb
    unfold Reading.padded at hb
    split at hb
    · exact (List.mem_cons.1 hb).imp_right digits
    · exact .inr (digits hb)
  have hyphen : b ∈ utf8 "-" → b = 0x2d := by simp [show utf8 "-" = [0x2d] by decide]
  simp only [Moment.stamp, Reading.stamp, List.mem_append] at h
  rcases h with (((((h | h) | h) | h) | h) | h) | h
  case inl.inl.inl.inr => exact .inl (hyphen h)
  all_goals exact padded h

theorem Moment.stamp_named (t : Moment) : t.stamp ≠ [] ∧ t.stamp ≠ here ∧ Bytes.slash ∉ t.stamp := by
  have hyphen : (0x2d : UInt8) ∈ t.stamp := by
    have h : (0x2d : UInt8) ∈ utf8 "-" := by decide
    simp [Moment.stamp, Reading.stamp, h]
  refine ⟨List.ne_nil_of_mem hyphen, fun h => ?_, fun h => ?_⟩
  · exact absurd (h ▸ hyphen) (by decide)
  · exact absurd (t.mem_stamp h) (by decide)

theorem Moment.stamp_ne_up (t : Moment) : t.stamp ≠ up := by
  intro h
  have hdot := t.mem_stamp (b := 0x2e) (h ▸ by decide)
  exact absurd hdot (by decide)

namespace Directory
variable {d : Directory} {name : Bytes}

/-- The directory itself, or its sub-directory named after a moment. -/
def dated (d : Directory) (moment : Option Moment) : Directory := moment.elim d d.stamped

/-- A stamp is one more component of the root. -/
theorem clean_dated (d : Directory) (moment : Option Moment) : clean (d.dated moment).root =
    ⟨(clean d.root).rooted, (clean d.root).parts ++ (moment.map Moment.stamp).toList⟩ := by
  cases moment with
  | none => simp [dated]
  | some t =>
    have entry := clean_entry t.stamp_named
    have h : clean (d.stamped t).root = join d.root t.stamp := clean_text (join_cleaned _ _)
    have stays : up ∉ (clean t.stamp).parts := by simpa [entry] using t.stamp_ne_up.symm
    rw [dated, Option.elim_some, h, join_eq d.root (by rw [entry]) stays, entry]
    rfl

theorem path_eq (d : Directory) (h : isLocal name = true) :
    d.path name = .ok ⟨(clean d.root).rooted, (clean d.root).parts ++ (clean name).parts⟩ := by
  obtain ⟨-, relative, stays⟩ := isLocal_iff.1 h
  rw [path, if_pos h, join_eq d.root relative stays]

theorem path_eq_error : d.path name = .error (.invalidName name) ↔ Leaves name := by
  rw [← not_iff_not, ← isLocal_iff_not_leaves, path]
  split <;> simp_all

theorem path_eq_ok {p : Path} : d.path name = .ok p ↔
    ¬ Leaves name ∧ p = ⟨(clean d.root).rooted, (clean d.root).parts ++ (clean name).parts⟩ := by
  rw [← isLocal_iff_not_leaves]
  constructor
  · intro h
    cases hlocal : isLocal name with
    | true => exact ⟨rfl, Except.ok.inj (h.symm.trans (d.path_eq hlocal))⟩
    | false => simp [path, hlocal] at h
  · rintro ⟨h, rfl⟩
    exact d.path_eq h

end Directory

theorem Path.text_eq_here {p : Path} (h : p.Cleaned) : p.text = here ↔ p = ⟨false, []⟩ :=
  h.text_inj (q := ⟨false, []⟩) (Tidy.nil false)

/-- Names are written below their directory, stamped or not. A name is turned away exactly if it leads out
of the place where it starts; any other has the path made of the components of the root and its own. -/
theorem path_contained (d : Directory) (moment : Option Moment) (name : Bytes) :
    clean (d.dated moment).root =
      ⟨(clean d.root).rooted, (clean d.root).parts ++ (moment.map Moment.stamp).toList⟩ ∧
    ((d.dated moment).path name = .error (.invalidName name) ↔ Leaves name) ∧
    (¬ Leaves name → ∃ p, (d.dated moment).path name = .ok p ∧
      p.rooted = (clean d.root).rooted ∧ p.parts = (clean (d.dated moment).root).parts ++ (clean name).parts ∧
      Within (clean d.root) p ∧ clean p.text = p ∧
      ((clean name).text = here → p.text = (clean (d.dated moment).root).text) ∧
      ((clean (d.dated moment).root).text = here → p.text = (clean name).text)) := by
  have hroot := d.clean_dated moment
  refine ⟨hroot, Directory.path_eq_error, fun stays => ?_⟩
  obtain ⟨-, relative, hup⟩ := isLocal_iff.1 (isLocal_iff_not_leaves.2 stays)
  refine ⟨_, Directory.path_eq_ok.2 ⟨stays, rfl⟩, by rw [hroot], rfl, ⟨by rw [hroot], ?_⟩, ?_, ?_, ?_⟩
  · refine ⟨(moment.map Moment.stamp).toList ++ (clean name).parts, by rw [hroot, List.append_assoc], ?_⟩
    cases moment with
    | none => simpa using hup
    | some t => simpa [hup] using t.stamp_ne_up.symm
  · rw [← join_eq _ relative hup]
    exact clean_text (join_cleaned _ _)
  · intro h
    rw [(text_eq_here (clean_cleaned name)).1 h, List.append_nil]
  · intro h
    rw [(text_eq_here (clean_cleaned _)).1 h, ← relative, List.nil_append]

private def attic : Directory := ⟨utf8 "../roof//./attic/x/.."⟩

theorem path_contained_attic :
    Leaves (utf8 "box/../../key") ∧
    attic.path (utf8 "box/../../key") = .error (.invalidName (utf8 "box/../../key")) ∧
    ¬ Leaves (utf8 "box/../trunk//key") ∧ ∃ p, attic.path (utf8 "box/../trunk//key") = .ok p ∧
      Within (clean attic.root) p ∧ p.text = utf8 "../roof/attic/trunk/key" := by
  obtain ⟨-, turned, -⟩ := path_contained attic none (utf8 "box/../../key")
  obtain ⟨-, -, taken⟩ := path_contained attic none (utf8 "box/../trunk//key")
  have leaves : Leaves (utf8 "box/../../key") := .inr (.inr (.inr ⟨utf8 "key", by decide +kernel⟩))
  have stays : ¬ Leaves (utf8 "box/../trunk//key") := isLocal_iff_not_leaves.1 (by decide +kernel)
  obtain ⟨p, hp, hrooted, hparts, within, -⟩ := taken stays
  refine ⟨leaves, turned.2 leaves, stays, p, hp, within, ?_⟩
  have h : p = ⟨false, [up, utf8 "roof", utf8 "attic", utf8 "trunk", utf8 "key"]⟩ := by
    rw [show p = ⟨p.rooted, p.parts⟩ from rfl, hrooted, hparts]
    decide +kernel
  rw [h]
  decide +kernel

namespace Directory
variable {d : Directory} {a b : Bytes} {p q : Path}

theorem cleaned_of_path (h : d.path a = .ok p) : p.Cleaned := by
  unfold path at h
  split at h
  · cases h
    exact join_cleaned _ _
  · cases h

/-- The components of a name that has a path are all looked up. -/
theorem entries_of_path (h : d.path a = .ok p) : ∀ part ∈ (clean a).parts, Disk.IsEntry part := by
  intro part hpart
  obtain ⟨-, -, hup⟩ := isLocal_iff.1 (isLocal_iff_not_leaves.2 (path_eq_ok.1 h).1)
  obtain ⟨hnil, hhere, -⟩ := (clean_cleaned a).named part hpart
  exact ⟨hnil, hhere, fun e => hup (e ▸ hpart)⟩

theorem path_inj (ha : d.path a = .ok p) (hb : d.path b = .ok q) : p = q ↔ clean a = clean b := by
  obtain ⟨stays, rfl⟩ := path_eq_ok.1 ha
  obtain ⟨stays', rfl⟩ := path_eq_ok.1 hb
  obtain ⟨-, relative, -⟩ := isLocal_iff.1 (isLocal_iff_not_leaves.2 stays)
  obtain ⟨-, relative', -⟩ := isLocal_iff.1 (isLocal_iff_not_leaves.2 stays')
  constructor
  · intro h
    have parts : (clean a).parts = (clean b).parts := List.append_cancel_left (congrArg Path.parts h)
    rw [show clean a = ⟨(clean a).rooted, (clean a).parts⟩ from rfl, relative, parts, ← relative']
  · intro h
    rw [h]

/-- Names that are cleaned to different paths have their files at different places. -/
theorem places_ne (ha : d.path a = .ok p) (hb : d.path b = .ok q) (h : clean a ≠ clean b) (disk : Disk) :
    p.parts.foldl Disk.reach (disk.start p) ≠ q.parts.foldl Disk.reach (disk.start q) := by
  have hne : p ≠ q := fun hpq => h ((path_inj ha hb).1 hpq)
  obtain ⟨-, rfl⟩ := path_eq_ok.1 ha
  obtain ⟨-, rfl⟩ := path_eq_ok.1 hb
  simp only [Disk.start, List.foldl_append, Disk.foldl_reach_own (entries_of_path ha),
    Disk.foldl_reach_own (entries_of_path hb)]
  exact fun heq => hne (by rw [List.append_cancel_left heq])

end Directory

/-- Two names that are taken share their path exactly if they are cleaned to the same path. So names that
are clean already have paths of their own, and a write under a name, whether it succeeds or not, leaves the
file of any name alone that is cleaned to another path. -/
theorem path_shared_iff (d : Directory) {a b : Bytes} {p q : Path} (ha : d.path a = .ok p) (hb : d.path b = .ok q) :
    (p.text = q.text ↔ clean a = clean b) ∧
    ((clean a).text = a → (clean b).text = b → a ≠ b → p.text ≠ q.text) ∧
    (clean a ≠ clean b → ∀ cancelled text disk content, disk.read p.text = .ok content →
      (d.sink.write cancelled b text disk).2.read p.text = .ok content) := by
  have hp := Directory.cleaned_of_path ha
  have hq := Directory.cleaned_of_path hb
  have shared : p.text = q.text ↔ clean a = clean b := (hp.text_inj hq).trans (Directory.path_inj ha hb)
  refine ⟨shared, fun cleanA cleanB hne htext => hne ?_, fun hne cancelled text disk content hread => ?_⟩
  · rw [← cleanA, ← cleanB, shared.1 htext]
  · simp only [Directory.sink, hb]
    split
    · exact hread
    · exact Disk.read_writeBelow hp hq (Directory.places_ne ha hb hne disk) hread

private def shed : Directory := ⟨utf8 "out"⟩

theorem path_shared_iff_shed : utf8 "rack/rake" ≠ utf8 "rack/hoe" ∧
    ((shed.sink.write false (utf8 "rack/hoe") (utf8 "two")
      (shed.sink.write false (utf8 "rack/rake") (utf8 "one") {}).2).2).read (utf8 "out/rack/rake") =
      .ok (utf8 "one") := by
  have rake : shed.path (utf8 "rack/rake") = .ok ⟨false, [utf8 "out", utf8 "rack", utf8 "rake"]⟩ := by decide +kernel
  have hoe : shed.path (utf8 "rack/hoe") = .ok ⟨false, [utf8 "out", utf8 "rack", utf8 "hoe"]⟩ := by decide +kernel
  obtain ⟨-, -, apart⟩ := path_shared_iff shed rake hoe
  have text : utf8 "out/rack/rake" = Path.text ⟨false, [utf8 "out", utf8 "rack", utf8 "rake"]⟩ := by decide +kernel
  refine ⟨by decide, ?_⟩
  rw [text]
  exact apart (by decide +kernel) false _ _ _ (by decide +kernel)

/-- Two different names are taken and have one path; both are written, and the text under the first is lost. -/
theorem doubled_slash_overwrites : utf8 "rack/rake" ≠ utf8 "rack//rake" ∧
    shed.path (utf8 "rack/rake") = .ok ⟨false, [utf8 "out", utf8 "rack", utf8 "rake"]⟩ ∧
    shed.path (utf8 "rack//rake") = .ok ⟨false, [utf8 "out", utf8 "rack", utf8 "rake"]⟩ ∧
    ∃ first second, shed.sink.write false (utf8 "rack/rake") (utf8 "one") {} = (none, first) ∧
      shed.sink.write false (utf8 "rack//rake") (utf8 "two") first = (none, second) ∧
      first.read (utf8 "out/rack/rake") = .ok (utf8 "one") ∧ second.read (utf8 "out/rack/rake") = .ok (utf8 "two") :=
  ⟨by decide, by decide +kernel, by decide +kernel, _, _, rfl, rfl, by decide +kernel, by decide +kernel⟩

end ProtoRecovery
