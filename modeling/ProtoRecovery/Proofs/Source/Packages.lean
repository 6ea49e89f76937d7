import ProtoRecovery.Proofs.Text.Splitting
import ProtoRecovery.Source.Basic

/-! # Packages: a choice of packages is one of whole segments -/
namespace ProtoRecovery.Source
open Schema

/-- The segments of a dotted name; there is always at least one, and it may be empty. -/
def segments (name : Bytes) : List Bytes := Bytes.split Bytes.dot name

/-- An entry is present, and the segments of its package start with those of one of the leads. -/
def Chosen (leads : List Bytes) : Option File → Prop
  | none => False
  | some f => ∃ lead ∈ leads, segments lead <+: segments (textOf f.package)

instance (leads : List Bytes) : DecidablePred (Chosen leads)
  | none => inferInstanceAs (Decidable False)
  | some f => inferInstanceAs (Decidable (∃ lead ∈ leads, segments lead <+: segments (textOf f.package)))

theorem isWithin_iff {package lead : Bytes} : isWithin package lead = true ↔ segments lead <+: segments package := by
  rw [segments, segments, Bytes.split_prefix_split_iff, isWithin, Bool.or_eq_true, Bytes.startsWith_iff_prefix, beq_iff_eq]

theorem matchesAny_iff {leads : List Bytes} {package : Bytes} :
    matchesAny leads package = true ↔ ∃ lead ∈ leads, segments lead <+: segments package := by
  simp only [matchesAny, List.any_eq_true, isWithin_iff]

theorem keepPackages_eq (leads : List Bytes) (entries : List (Option File)) :
    keepPackages leads entries = entries.filter fun entry => Chosen leads entry := by
  refine List.filter_congr fun entry _ => ?_
  cases entry with
  | none => rfl
  | some f => exact Bool.eq_iff_iff.2 (matchesAny_iff.trans decide_eq_true_iff.symm)

theorem Chosen.mono {leads more : List Bytes} (h : leads ⊆ more) {entry : Option File} (chosen : Chosen leads entry) :
    Chosen more entry := by
  cases entry with
  | none => exact chosen
  | some f =>
    obtain ⟨lead, hlead, hsegments⟩ := chosen
    exact ⟨lead, h hlead, hsegments⟩

section
variable {leads : List Bytes} {source : Source} {request : Request}

theorem filtered_of_error (choosy : leads ≠ []) {e : SourceError} (h : source request = .error e) :
    filtered leads source request = .error e := by
  rw [filtered, if_neg (by simpa using choosy), h]
  rfl

theorem filtered_of_ok (choosy : leads ≠ []) {entries : List (Option File)} (h : source request = .ok entries) :
    filtered leads source request = .ok (entries.filter fun entry => Chosen leads entry) := by
  rw [filtered, if_neg (by simpa using choosy), h, ← keepPackages_eq]
  rfl

/-- A filtered source has answered only if the source has. -/
theorem exists_of_filtered (choosy : leads ≠ []) {kept : List (Option File)} (h : filtered leads source request = .ok kept) :
    ∃ entries, source request = .ok entries ∧ kept = entries.filter fun entry => Chosen leads entry := by
  cases hsource : source request with
  | error e =>
    rw [filtered_of_error choosy hsource] at h
    cases h
  | ok entries =>
    rw [filtered_of_ok choosy hsource] at h
    exact ⟨entries, rfl, (Except.ok.inj h).symm⟩

end

/-- A choice of packages is one of whole segments: a file passes exactly if the segments of one of the leads come
first among those of its package. What passes stays in order and as often as it was there; a second choice keeps
what both choose, more leads keep at least as much, and the same choice again keeps all. -/
theorem filtered_by_segments {leads : List Bytes} (choosy : leads ≠ []) (source : Source) :
    (∀ request e, source request = .error e → filtered leads source request = .error e) ∧
    (∀ request entries, source request = .ok entries → ∃ kept, filtered leads source request = .ok kept ∧
      (∀ f, some f ∈ kept ↔ some f ∈ entries ∧ ∃ lead ∈ leads, segments lead <+: segments (textOf f.package)) ∧
      kept = entries.filter fun entry => Chosen leads entry) ∧
    (∀ more ≠ [], ∀ request entries, source request = .ok entries →
      filtered more (filtered leads source) request =
        .ok (entries.filter fun entry => Chosen leads entry ∧ Chosen more entry)) ∧
    (∀ more, leads ⊆ more → ∀ request kept, filtered leads source request = .ok kept →
      ∃ larger, filtered more source request = .ok larger ∧ kept.Sublist larger) ∧
    filtered leads (filtered leads source) = filtered leads source := by
  refine ⟨fun request e => filtered_of_error choosy, fun request entries h => ?_, fun more hmore request entries h => ?_,
    fun more hsub request kept hkept => ?_, funext fun request => ?_⟩
  · refine ⟨_, filtered_of_ok choosy h, fun f => ?_, rfl⟩
    rw [List.mem_filter, decide_eq_true_iff, Chosen]
  · rw [filtered_of_ok hmore (filtered_of_ok choosy h), List.filter_filter]
    exact congrArg Except.ok (List.filter_congr fun entry _ => by rw [Bool.decide_and, Bool.and_comm])
  · have hmore : more ≠ [] := fun hnil => choosy (List.subset_nil.1 (hnil ▸ hsub))
    obtain ⟨entries, hentries, rfl⟩ := exists_of_filtered choosy hkept
    refine ⟨_, filtered_of_ok hmore hentries, List.monotone_filter_right entries fun entry chosen => ?_⟩
    exact decide_eq_true (Chosen.mono hsub (of_decide_eq_true chosen))
  · cases hsource : source request with
    | error e => rw [filtered_of_error choosy hsource, filtered_of_error choosy (filtered_of_error choosy hsource)]
    | ok entries =>
      rw [filtered_of_ok choosy hsource, filtered_of_ok choosy (filtered_of_ok choosy hsource), List.filter_filter]
      exact congrArg Except.ok (List.filter_congr fun entry _ => by simp)

private def shop (package : String) : File where
  package := some (utf8 package)

/-- Segments may be empty: `.v1` lies below the unnamed package, and `acme` does not. -/
theorem filtered_by_segments_shops : [utf8 "acme.", utf8 ""] ≠ [] ∧
    filtered [utf8 "acme.", utf8 ""] (memory [some (shop "acme"), some (shop ".v1"), none, some (shop "acme..v1"),
      some (shop "acme.v1"), some {}]) {} = .ok [some (shop ".v1"), some (shop "acme..v1"), some {}] := by
  have choosy : [utf8 "acme.", utf8 ""] ≠ [] := by simp
  obtain ⟨-, passes, -⟩ := filtered_by_segments choosy (memory [some (shop "acme"), some (shop ".v1"), none,
    some (shop "acme..v1"), some (shop "acme.v1"), some {}])
  obtain ⟨kept, hkept, -, rfl⟩ := passes {} _ rfl
  exact ⟨choosy, hkept⟩

end ProtoRecovery.Source
