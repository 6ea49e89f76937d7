import ProtoRecovery.Outline.Token
import ProtoRecovery.Proofs.Text.Reading

/-! # Scanning: the tokens of words, marks and quoted texts, whatever follows them -/
namespace ProtoRecovery.Outline.Token
open Text

private theorem length_unquoteBody_lt {t s rest : Bytes} (h : unquoteBody t = some (s, rest)) :
    rest.length < t.length := by
  fun_induction unquoteBody t generalizing s with
  | case1 => cases h
  | case2 r =>
    cases h
    simp
  | case3 _ _ r ih | case4 _ _ _ _ r ih | case5 _ _ _ _ _ _ _ _ r ih | case6 _ r _ _ _ ih =>
    simp only [Option.bind_eq_bind, Option.bind_eq_some_iff, Option.pure_def, Option.some.injEq] at h
    obtain ⟨_, _, ⟨u, v⟩, hr, he⟩ := h
    cases he
    have : v.length < r.length := ih hr
    simp only [List.length_cons]
    omega
  | case7 _ r _ _ _ _ _ ih =>
    simp only [Option.bind_eq_bind, Option.bind_eq_some_iff, Option.pure_def, Option.some.injEq] at h
    obtain ⟨⟨u, v⟩, hr, he⟩ := h
    cases he
    have : v.length < r.length := ih hr
    simp only [List.length_cons]
    omega

private theorem length_read_le {b : UInt8} {r rest : Bytes} {token : Token}
    (h : read b r = some (token, rest)) : rest.length ≤ r.length := by
  unfold read at h
  split at h
  · obtain ⟨⟨t, s⟩, hu, he⟩ := Option.map_eq_some_iff.mp h
    cases he
    exact (length_unquoteBody_lt hu).le
  · split at h
    · cases h
      exact le_refl _
    · obtain ⟨-, h⟩ := Option.ite_none_right_eq_some.mp h
      cases h
      exact (List.dropWhile_suffix _).length_le

/-- More fuel than there are bytes changes nothing. -/
private theorem scanIn_eq_scanIn {fuel fuel' : Nat} {t : Bytes} (h : t.length ≤ fuel) (h' : t.length ≤ fuel') :
    scanIn fuel t = scanIn fuel' t := by
  induction fuel generalizing fuel' t with
  | zero =>
    have ht : t = [] := List.length_eq_zero_iff.mp (Nat.le_zero.mp h)
    subst ht
    cases fuel' <;> rfl
  | succ fuel ih =>
    cases t with
    | nil => cases fuel' <;> rfl
    | cons b r =>
      cases fuel' with
      | zero => simp at h'
      | succ fuel' =>
        simp only [List.length_cons, Nat.add_le_add_iff_right] at h h'
        simp only [scanIn]
        split
        · exact ih h h'
        · cases hr : read b r with
          | none => rfl
          | some p =>
            obtain ⟨token, rest⟩ := p
            have hl := length_read_le hr
            simp only [ih (hl.trans h) (hl.trans h')]

/-- No byte of a word is a gap, a mark or a quote. -/
private theorem apart_of_isWordByte {b : UInt8} (h : isWordByte b = true) :
    isGap b = false ∧ mark? b = none ∧ b ≠ doubleQuote := by
  have hall : ∀ n : Fin 256, isWordByte (UInt8.ofFin n) = true → isGap (UInt8.ofFin n) = false ∧
      mark? (UInt8.ofFin n) = none ∧ UInt8.ofFin n ≠ doubleQuote := by decide +kernel
  exact hall b.toFin h

private theorem takeWhile_word {w : Bytes} {b : UInt8} (hw : ∀ x ∈ w, isWordByte x = true)
    (hb : isWordByte b = false) (t : Bytes) :
    (w ++ b :: t).takeWhile isWordByte = w ∧ (w ++ b :: t).dropWhile isWordByte = b :: t := by
  induction w with
  | nil => simp [hb]
  | cons x w ih =>
    have hx := hw x List.mem_cons_self
    have := ih fun y hy => hw y (List.mem_cons_of_mem x hy)
    simp [hx, this]

theorem scan_nil : scan [] = some [] := rfl

theorem scan_gap {b : UInt8} (h : isGap b = true) (r : Bytes) : scan (b :: r) = scan r := by
  simp [scan, scanIn, h]

theorem scan_token {b : UInt8} {r rest : Bytes} {token : Token} (hg : isGap b = false)
    (h : read b r = some (token, rest)) : scan (b :: r) = (scan rest).map (token :: ·) := by
  have hl := length_read_le h
  simp only [scan, List.length_cons, scanIn, hg, h]
  rw [scanIn_eq_scanIn hl le_rfl]
  rfl

/-- A text gives these tokens, whatever follows it. -/
def Reads (t : Bytes) (tokens : List Token) : Prop :=
  ∀ rest, scan (t ++ rest) = (scan rest).map (tokens ++ ·)

namespace Reads

theorem nil : Reads [] [] := fun rest => by cases h : scan rest <;> simp [h]

theorem append {s t : Bytes} {a b : List Token} (hs : Reads s a) (ht : Reads t b) : Reads (s ++ t) (a ++ b) := by
  intro rest
  rw [List.append_assoc, hs, ht, Option.map_map]
  congr 1
  funext tokens
  simp

theorem gap {b : UInt8} {t : Bytes} {tokens : List Token} (hb : isGap b = true) (h : Reads t tokens) :
    Reads (b :: t) tokens := by
  intro rest
  rw [List.cons_append, scan_gap hb, h]

theorem mark {b : UInt8} {m : Token} {t : Bytes} {tokens : List Token} (hb : mark? b = some m)
    (h : Reads t tokens) : Reads (b :: t) (m :: tokens) := by
  have hq : b ≠ doubleQuote := by
    rintro rfl
    cases hb
  have hg : isGap b = false := by
    unfold mark? at hb
    split at hb
    all_goals first
      | rfl
      | cases hb
  intro rest
  have hr : read b (t ++ rest) = some (m, t ++ rest) := by simp [read, hq, hb]
  rw [List.cons_append, scan_token hg hr, h, Option.map_map]
  rfl

/-- A word ends where a byte follows that can be in none. -/
theorem word {w : Bytes} {b : UInt8} {t : Bytes} {tokens : List Token} (hne : w ≠ [])
    (hw : ∀ x ∈ w, isWordByte x = true) (hb : isWordByte b = false) (h : Reads (b :: t) tokens) :
    Reads (w ++ b :: t) (.word w :: tokens) := by
  intro rest
  obtain ⟨x, w, rfl⟩ := List.exists_cons_of_ne_nil hne
  have hx := hw x List.mem_cons_self
  obtain ⟨hg, hm, hq⟩ := apart_of_isWordByte hx
  obtain ⟨htake, hdrop⟩ := takeWhile_word (fun y hy => hw y (List.mem_cons_of_mem x hy)) hb (t ++ rest)
  have hr : read x (w ++ b :: (t ++ rest)) = some (.word (x :: w), b :: (t ++ rest)) := by
    simp [read, hq, hm, hx, htake, hdrop]
  have hrest := h rest
  simp only [List.cons_append, List.append_assoc] at hrest ⊢
  rw [scan_token hg hr, hrest, Option.map_map]
  rfl

theorem quoted (q : Bytes) {t : Bytes} {tokens : List Token} (h : Reads t tokens) :
    Reads (quote q ++ t) (.text q :: tokens) := by
  intro rest
  have hr : read doubleQuote ((Utf8.runes q).flatMap escapeRune ++ 0x22 :: (t ++ rest)) =
      some (.text q, t ++ rest) := by
    simp [read, unquoteBody_quote]
  have hg : isGap doubleQuote = false := by decide
  have ht : quote q ++ t ++ rest =
      doubleQuote :: ((Utf8.runes q).flatMap escapeRune ++ 0x22 :: (t ++ rest)) := by
    simp [quote, doubleQuote]
  rw [ht, scan_token hg hr, h, Option.map_map]
  rfl

end Reads

end ProtoRecovery.Outline.Token
