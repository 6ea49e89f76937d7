import Mathlib.Tactic.Linarith
import ProtoRecovery.Text.Quoted

/-! # Texts and numbers are read back as they were written -/
namespace ProtoRecovery

/-- The bytes a rune was read from. -/
def Rune.bytes : Rune → Bytes
  | char c => Utf8.encode c
  | stray b => [b]

namespace Utf8

theorem encode_of_ascii {c : Char} (h : c.toNat < 0x80) : encode c = [UInt8.ofNat c.toNat] := by
  have hv : c.val.toNat ≤ 0x7f := by
    have : c.val.toNat < 0x80 := h
    omega
  simp only [encode, String.utf8EncodeChar, if_pos hv]
  rfl

/-- Beyond ASCII every byte of a code point has its high bit set. -/
theorem high_of_mem_encode {c : Char} (h : 0x80 ≤ c.toNat) {b : UInt8} (hb : b ∈ encode c) : 0x80 ≤ b := by
  have hv : ¬c.val.toNat ≤ 0x7f := by
    have : 0x80 ≤ c.val.toNat := h
    omega
  have hbyte (n : Nat) (hn : n < 256) (hlow : 0x80 ≤ n) : (0x80 : UInt8) ≤ UInt8.ofNat n := by
    rw [UInt8.le_iff_toNat_le, UInt8.toNat_ofNat_of_lt' hn]
    exact hlow
  simp only [encode, String.utf8EncodeChar, if_neg hv] at hb
  split at hb
  · rcases List.mem_cons.mp hb with rfl | hb
    · exact hbyte _ (by omega) (by omega)
    · rcases List.mem_singleton.mp hb with rfl
      exact hbyte _ (by omega) (by omega)
  · split at hb
    · simp only [List.mem_cons, List.not_mem_nil, or_false] at hb
      rcases hb with rfl | rfl | rfl <;> exact hbyte _ (by omega) (by omega)
    · simp only [List.mem_cons, List.not_mem_nil, or_false] at hb
      rcases hb with rfl | rfl | rfl | rfl <;> exact hbyte _ (by omega) (by omega)

private theorem ofNat_eq_of_toNat {n : Nat} {b : UInt8} (h : n = b.toNat) : UInt8.ofNat n = b := by
  subst h
  exact UInt8.ofNat_toNat

private theorem encode_ofNat {n : Nat} (h : n.isValidChar) :
    encode (Char.ofNat n) =
      if n ≤ 0x7f then [UInt8.ofNat n]
      else if n ≤ 0x7ff then [UInt8.ofNat (n / 64 % 32 + 0xc0), UInt8.ofNat (n % 64 + 0x80)]
      else if n ≤ 0xffff then
        [UInt8.ofNat (n / 4096 % 16 + 0xe0), UInt8.ofNat (n / 64 % 64 + 0x80), UInt8.ofNat (n % 64 + 0x80)]
      else [UInt8.ofNat (n / 262144 % 8 + 0xf0), UInt8.ofNat (n / 4096 % 64 + 0x80),
        UInt8.ofNat (n / 64 % 64 + 0x80), UInt8.ofNat (n % 64 + 0x80)] := by
  have hn : (Char.ofNat n).val.toNat = n := by
    rw [Char.ofNat, dif_pos h]
    rfl
  simp only [encode, String.utf8EncodeChar, hn]

private theorem toNat_range {low high b : UInt8} (h : (decide (low ≤ b) && decide (b ≤ high)) = true) :
    low.toNat ≤ b.toNat ∧ b.toNat ≤ high.toNat := by
  simpa [UInt8.le_iff_toNat_le] using h

private theorem payload_eq {b : UInt8} (h : 0x80 ≤ b.toNat ∧ b.toNat ≤ 0xbf) : payload b = b.toNat - 0x80 := by
  unfold payload
  omega

private theorem encode_single {a : UInt8} (h : a < 0x80) : encode (Char.ofNat a.toNat) = [a] := by
  have ha : a.toNat < 0x80 := UInt8.lt_iff_toNat_lt.mp h
  rw [encode_ofNat (.inl (by omega)), if_pos (by omega), UInt8.ofNat_toNat]

private theorem encode_pair {a b : UInt8} (ha : 0xc2 ≤ a.toNat ∧ a.toNat ≤ 0xdf) (hb : isTail b = true) :
    encode (Char.ofNat ((a.toNat - 0xc0) * 64 + payload b)) = [a, b] := by
  have hb : 0x80 ≤ b.toNat ∧ b.toNat ≤ 0xbf := toNat_range hb
  rw [payload_eq hb, encode_ofNat (.inl (by omega)), if_neg (by omega), if_pos (by omega)]
  rw [ofNat_eq_of_toNat (b := a) (by omega), ofNat_eq_of_toNat (b := b) (by omega)]

private theorem encode_triple {a b c : UInt8} (ha : 0xe0 ≤ a.toNat ∧ a.toNat ≤ 0xef)
    (hb : (decide ((if a = 0xe0 then 0xa0 else 0x80) ≤ b) && decide (b ≤ if a = 0xed then 0x9f else 0xbf)) = true)
    (hc : isTail c = true) :
    encode (Char.ofNat (((a.toNat - 0xe0) * 64 + payload b) * 64 + payload c)) = [a, b, c] := by
  have hc : 0x80 ≤ c.toNat ∧ c.toNat ≤ 0xbf := toNat_range hc
  have he0 : a = 0xe0 ↔ a.toNat = 0xe0 := UInt8.toNat_inj.symm
  have hed : a = 0xed ↔ a.toNat = 0xed := UInt8.toNat_inj.symm
  obtain ⟨hlow, hhigh⟩ := toNat_range hb
  simp only [apply_ite UInt8.toNat, he0, hed, UInt8.reduceToNat] at hlow hhigh
  have hb : 0x80 ≤ b.toNat ∧ b.toNat ≤ 0xbf := by
    split at hlow <;> split at hhigh <;> omega
  have hn : 0x20 ≤ (a.toNat - 0xe0) * 64 + (b.toNat - 0x80) := by
    split at hlow <;> omega
  have hv : (((a.toNat - 0xe0) * 64 + (b.toNat - 0x80)) * 64 + (c.toNat - 0x80)).isValidChar := by
    unfold Nat.isValidChar
    split at hhigh <;> omega
  rw [payload_eq hb, payload_eq hc, encode_ofNat hv, if_neg (by omega), if_neg (by omega), if_pos (by omega)]
  rw [ofNat_eq_of_toNat (b := a) (by omega), ofNat_eq_of_toNat (b := b) (by omega),
    ofNat_eq_of_toNat (b := c) (by omega)]

private theorem encode_quad {a b c d : UInt8} (ha : 0xf0 ≤ a.toNat ∧ a.toNat ≤ 0xf4)
    (hb : (decide ((if a = 0xf0 then 0x90 else 0x80) ≤ b) && decide (b ≤ if a = 0xf4 then 0x8f else 0xbf)) = true)
    (hc : isTail c = true) (hd : isTail d = true) :
    encode (Char.ofNat ((((a.toNat - 0xf0) * 64 + payload b) * 64 + payload c) * 64 + payload d)) =
      [a, b, c, d] := by
  have hc : 0x80 ≤ c.toNat ∧ c.toNat ≤ 0xbf := toNat_range hc
  have hd : 0x80 ≤ d.toNat ∧ d.toNat ≤ 0xbf := toNat_range hd
  have hf0 : a = 0xf0 ↔ a.toNat = 0xf0 := UInt8.toNat_inj.symm
  have hf4 : a = 0xf4 ↔ a.toNat = 0xf4 := UInt8.toNat_inj.symm
  obtain ⟨hlow, hhigh⟩ := toNat_range hb
  simp only [apply_ite UInt8.toNat, hf0, hf4, UInt8.reduceToNat] at hlow hhigh
  have hb : 0x80 ≤ b.toNat ∧ b.toNat ≤ 0xbf := by
    split at hlow <;> split at hhigh <;> omega
  have hn : 0x10 ≤ (a.toNat - 0xf0) * 64 + (b.toNat - 0x80) := by
    split at hlow <;> omega
  have hm : (a.toNat - 0xf0) * 64 + (b.toNat - 0x80) < 0x110 := by
    split at hhigh <;> omega
  have hv : ((((a.toNat - 0xf0) * 64 + (b.toNat - 0x80)) * 64 + (c.toNat - 0x80)) * 64 +
      (d.toNat - 0x80)).isValidChar := .inr (by omega)
  rw [payload_eq hb, payload_eq hc, payload_eq hd, encode_ofNat hv, if_neg (by omega), if_neg (by omega),
    if_neg (by omega)]
  rw [ofNat_eq_of_toNat (b := a) (by omega), ofNat_eq_of_toNat (b := b) (by omega),
    ofNat_eq_of_toNat (b := c) (by omega), ofNat_eq_of_toNat (b := d) (by omega)]

/-- A code point is read from its own bytes only: nothing overlong, no surrogate, none too large. -/
theorem eq_encode_of_lead {t : Bytes} {c : Char} {n : Nat} (h : lead t = some (c, n)) :
    ∃ rest, t = encode c ++ rest ∧ (encode c).length = n := by
  cases t with
  | nil => cases h
  | cons a r =>
    simp only [lead] at h
    split at h
    case isTrue h1 =>
      cases h
      exact ⟨r, by simp [encode_single h1]⟩
    split at h
    case isTrue h2 =>
      have ha : 0xc2 ≤ a.toNat ∧ a.toNat ≤ 0xdf := toNat_range h2
      split at h
      · rename_i b rest
        obtain ⟨hb, h⟩ := Option.ite_none_right_eq_some.mp h
        cases h
        exact ⟨rest, by simp [encode_pair ha hb]⟩
      · cases h
    split at h
    case isTrue h3 =>
      have ha : 0xe0 ≤ a.toNat ∧ a.toNat ≤ 0xef := toNat_range h3
      split at h
      · rename_i b c rest
        obtain ⟨hbc, h⟩ := Option.ite_none_right_eq_some.mp h
        obtain ⟨hb, hc⟩ := Bool.and_eq_true_iff.mp hbc
        cases h
        exact ⟨rest, by simp [encode_triple ha hb hc]⟩
      · cases h
    split at h
    case isTrue h4 =>
      have ha : 0xf0 ≤ a.toNat ∧ a.toNat ≤ 0xf4 := toNat_range h4
      split at h
      · rename_i b c d rest
        obtain ⟨hbcd, h⟩ := Option.ite_none_right_eq_some.mp h
        obtain ⟨hbc, hd⟩ := Bool.and_eq_true_iff.mp hbcd
        obtain ⟨hb, hc⟩ := Bool.and_eq_true_iff.mp hbc
        cases h
        exact ⟨rest, by simp [encode_quad ha hb hc hd]⟩
      · cases h
    case isFalse => cases h

private theorem runesFrom_eq_drop (skip : Nat) (t : Bytes) : runesFrom skip t = runes (t.drop skip) := by
  induction t generalizing skip with
  | nil => cases skip <;> rfl
  | cons a r ih =>
    cases skip with
    | zero => rfl
    | succ skip => simpa [runesFrom] using ih skip

/-- No byte is lost or changed by reading runes. -/
theorem flatMap_bytes_runes (t : Bytes) : (runes t).flatMap Rune.bytes = t := by
  induction hn : t.length using Nat.strongRecOn generalizing t with
  | ind n ih =>
    cases t with
    | nil => rfl
    | cons a r =>
      cases hl : lead (a :: r) with
      | none =>
        have hr : runes (a :: r) = .stray a :: runes r := by simp [runes, runesFrom, hl]
        have := ih r.length (by simp [← hn]) r rfl
        simp [hr, Rune.bytes, this]
      | some p =>
        obtain ⟨c, k⟩ := p
        obtain ⟨rest, ht, hk⟩ := eq_encode_of_lead hl
        have hpos : 0 < k := by
          rw [← hk]
          exact List.length_pos_iff.mpr String.utf8EncodeChar_ne_nil
        have hrest : r.drop (k - 1) = rest := by
          have : (a :: r).drop k = rest := by rw [ht, ← hk, List.drop_left]
          rwa [← Nat.sub_add_cancel hpos, List.drop_succ_cons] at this
        have hr : runes (a :: r) = .char c :: runes rest := by
          simp only [runes, runesFrom, hl]
          rw [runesFrom_eq_drop, hrest]
          rfl
        have hlt : rest.length < n := by
          rw [← hn, ht, List.length_append, hk]
          omega
        have := ih rest.length hlt rest rfl
        rw [hr, List.flatMap_cons, this, ht]
        rfl

end Utf8

namespace Text

private theorem hexValue?_hexDigit {d : Nat} (h : d < 16) : hexValue? (hexDigit d) = some d := by
  revert h
  revert d
  decide

private theorem readHex_hex {w n : Nat} (h : n < 16 ^ w) : readHex (hex w n) = some n := by
  induction w generalizing n with
  | zero =>
    have : n = 0 := by simpa using h
    simp [this, hex, readHex]
  | succ w ih =>
    have hn : n / 16 < 16 ^ w := Nat.div_lt_of_lt_mul (by rwa [Nat.pow_succ, Nat.mul_comm] at h)
    have hd := hexValue?_hexDigit (d := n % 16) (by omega)
    have hhead : readHex (hex w (n / 16)) = some (n / 16) := ih hn
    unfold readHex at hhead ⊢
    simp only [hex, List.foldl_append, hhead, List.foldl_cons, List.foldl_nil, Option.bind_some, hd,
      Option.map_some, Option.some.injEq]
    omega

/-- Adds what was read before to what is read after it. -/
private abbrev readAfter (head : Bytes) (body : Option (Bytes × Bytes)) : Option (Bytes × Bytes) :=
  body.map fun p => (head ++ p.1, p.2)

private theorem unquoteBody_plain {b : UInt8} (hq : b ≠ 0x22) (hs : b ≠ 0x5c) (s : Bytes) :
    unquoteBody (b :: s) = readAfter [b] (unquoteBody s) := by
  rw [unquoteBody]
  · cases unquoteBody s <;> rfl
  all_goals simp [hq, hs]

private theorem unquoteBody_plains {t : Bytes} (h : ∀ b ∈ t, b ≠ 0x22 ∧ b ≠ 0x5c) (s : Bytes) :
    unquoteBody (t ++ s) = readAfter t (unquoteBody s) := by
  induction t with
  | nil => cases hs : unquoteBody s <;> simp [hs]
  | cons b t ih =>
    obtain ⟨hq, hs⟩ := h b List.mem_cons_self
    rw [List.cons_append, unquoteBody_plain hq hs, ih fun x hx => h x (List.mem_cons_of_mem b hx)]
    cases unquoteBody s <;> rfl

private theorem unquoteBody_letter {a v : UInt8} (h : letterValue? a = some v) (s : Bytes) :
    unquoteBody (0x5c :: a :: s) = readAfter [v] (unquoteBody s) := by
  rw [unquoteBody]
  · rw [h]
    cases unquoteBody s <;> rfl
  all_goals
    intros
    subst_vars
    simp [letterValue?] at h

private theorem unquoteBody_byte {n : Nat} (h : n < 256) (s : Bytes) :
    unquoteBody (0x5c :: 0x78 :: hex 2 n ++ s) = readAfter [UInt8.ofNat n] (unquoteBody s) := by
  have hr := readHex_hex (w := 2) h
  simp only [hex, List.nil_append, List.cons_append] at hr ⊢
  rw [unquoteBody, hr]
  cases unquoteBody s <;> rfl

private theorem encodeCode?_toNat (c : Char) : encodeCode? c.toNat = some (Utf8.encode c) := by
  have hv : c.toNat.isValidChar := c.valid
  rw [encodeCode?, if_pos hv, Char.ofNat_toNat]

private theorem unquoteBody_short {c : Char} (h : c.toNat < 0x10000) (s : Bytes) :
    unquoteBody (0x5c :: 0x75 :: hex 4 c.toNat ++ s) = readAfter (Utf8.encode c) (unquoteBody s) := by
  have hr := readHex_hex (w := 4) h
  simp only [hex, List.nil_append, List.cons_append] at hr ⊢
  rw [unquoteBody, hr, Option.bind_some, encodeCode?_toNat]
  cases unquoteBody s <;> rfl

private theorem unquoteBody_long (c : Char) (s : Bytes) :
    unquoteBody (0x5c :: 0x55 :: hex 8 c.toNat ++ s) = readAfter (Utf8.encode c) (unquoteBody s) := by
  have hr := readHex_hex (w := 8) (n := c.toNat) c.val.toNat_lt
  simp only [hex, List.nil_append, List.cons_append] at hr ⊢
  rw [unquoteBody, hr, Option.bind_some, encodeCode?_toNat]
  cases unquoteBody s <;> rfl

private theorem letterValue?_escapeLetter? {c : Char} {letter : UInt8} (h : escapeLetter? c = some letter) :
    letterValue? letter = some (UInt8.ofNat c.toNat) ∧ c.toNat < 0x80 := by
  unfold escapeLetter? at h
  split at h <;> cases h
  all_goals
    rename_i hc
    rw [hc]
    decide

private theorem plain_of_mem_encode {c : Char} (hq : c ≠ '"') (hs : c ≠ '\\') {b : UInt8}
    (hb : b ∈ Utf8.encode c) : b ≠ 0x22 ∧ b ≠ 0x5c := by
  by_cases h : c.toNat < 0x80
  · rw [Utf8.encode_of_ascii h, List.mem_singleton] at hb
    have hne (d : Char) (hd : c ≠ d) (hlt : d.toNat < 0x80) : b ≠ UInt8.ofNat d.toNat := by
      intro he
      apply hd
      rw [hb] at he
      have := congrArg UInt8.toNat he
      rw [UInt8.toNat_ofNat_of_lt' (show c.toNat < 256 by omega),
        UInt8.toNat_ofNat_of_lt' (show d.toNat < 256 by omega)] at this
      exact Char.toNat_inj.mp this
    exact ⟨hne '"' hq (by decide), hne '\\' hs (by decide)⟩
  · have hh := Utf8.high_of_mem_encode (Nat.le_of_not_lt h) hb
    constructor <;> rintro rfl <;> revert hh <;> decide

/-- Each rune is read back from its escaped form, whatever follows. -/
private theorem unquoteBody_escapeRune (r : Rune) (s : Bytes) :
    unquoteBody (escapeRune r ++ s) = readAfter r.bytes (unquoteBody s) := by
  cases r with
  | stray b =>
    have := unquoteBody_byte b.toNat_lt s
    rwa [UInt8.ofNat_toNat] at this
  | char c =>
    simp only [escapeRune, escapeChar, Rune.bytes]
    split
    case isTrue h =>
      simp only [Bool.or_eq_true, decide_eq_true_eq] at h
      rcases h with rfl | rfl
      · exact unquoteBody_letter (a := 0x22) rfl s
      · exact unquoteBody_letter (a := 0x5c) rfl s
    case isFalse h =>
      simp only [Bool.or_eq_true, decide_eq_true_eq, not_or] at h
      split
      · exact unquoteBody_plains (fun b hb => plain_of_mem_encode h.1 h.2 hb) s
      cases he : escapeLetter? c with
      | some letter =>
        obtain ⟨hl, hc⟩ := letterValue?_escapeLetter? he
        rw [Utf8.encode_of_ascii hc]
        exact unquoteBody_letter hl s
      | none =>
        dsimp only
        split
        · next hn =>
          have hc : c.toNat < 0x80 := by
            simp only [Bool.or_eq_true, decide_eq_true_eq] at hn
            omega
          rw [Utf8.encode_of_ascii hc]
          exact unquoteBody_byte (by omega) s
        · split
          · next hn => exact unquoteBody_short hn s
          · exact unquoteBody_long c s

/-- A quoted text is read back, and so is what follows it. -/
theorem unquoteBody_quote (t s : Bytes) :
    unquoteBody ((Utf8.runes t).flatMap escapeRune ++ 0x22 :: s) = some (t, s) := by
  have h (rs : List Rune) :
      unquoteBody (rs.flatMap escapeRune ++ 0x22 :: s) = some (rs.flatMap Rune.bytes, s) := by
    induction rs with
    | nil => rfl
    | cons r rs ih =>
      rw [List.flatMap_cons, List.append_assoc, unquoteBody_escapeRune, ih]
      simp
  rw [h, Utf8.flatMap_bytes_runes]

private theorem newline_notMem_hex (width n : Nat) : Bytes.newline ∉ hex width n := by
  have hd : ∀ d < 16, hexDigit d ≠ Bytes.newline := by decide
  induction width generalizing n with
  | zero => simp [hex]
  | succ width ih =>
    simp only [hex, List.mem_append, List.mem_singleton, not_or]
    exact ⟨ih (n / 16), (hd (n % 16) (by omega)).symm⟩

private theorem newline_notMem_encode {c : Char} (h : c ≠ '\n') : Bytes.newline ∉ Utf8.encode c := by
  intro hb
  by_cases hc : c.toNat < 0x80
  · rw [Utf8.encode_of_ascii hc, List.mem_singleton] at hb
    have := congrArg UInt8.toNat hb
    rw [UInt8.toNat_ofNat_of_lt' (show c.toNat < 256 by omega)] at this
    exact h (Char.toNat_inj.mp this.symm)
  · have := Utf8.high_of_mem_encode (Nat.le_of_not_lt hc) hb
    revert this
    decide

private theorem newline_notMem_escapeRune (r : Rune) : Bytes.newline ∉ escapeRune r := by
  have hb : Bytes.newline ≠ backslash := by decide
  cases r with
  | stray b => simpa [escapeRune, hb] using ⟨by decide, newline_notMem_hex 2 _⟩
  | char c =>
    simp only [escapeRune, escapeChar]
    split
    · next h =>
      simp only [Bool.or_eq_true, decide_eq_true_eq] at h
      rcases h with rfl | rfl <;> decide
    split
    · next h => exact newline_notMem_encode fun hc => by simp [hc, isPrintable] at h
    cases he : escapeLetter? c with
    | some letter =>
      have hl : letter ≠ Bytes.newline := by
        rintro rfl
        cases (letterValue?_escapeLetter? he).1
      simp [hb, hl.symm]
    | none =>
      dsimp only
      split
      · simpa [hb] using ⟨by decide, newline_notMem_hex 2 _⟩
      split
      · simpa [hb] using ⟨by decide, newline_notMem_hex 4 _⟩
      · simpa [hb] using ⟨by decide, newline_notMem_hex 8 _⟩

/-- A quoted text stays on its line. -/
theorem newline_notMem_quote (t : Bytes) : Bytes.newline ∉ quote t := by
  have hq : Bytes.newline ≠ doubleQuote := by decide
  simp only [quote, List.mem_cons, List.mem_append, List.mem_flatMap, List.not_mem_nil, or_false, not_or]
  refine ⟨hq, ?_, hq⟩
  rintro ⟨r, -, hr⟩
  exact newline_notMem_escapeRune r hr

/-- A decimal digit as a byte. -/
def isDigitByte (b : UInt8) : Bool := 0x30 ≤ b && b ≤ 0x39

private theorem toNat_of_isDigit {c : Char} (h : c.isDigit = true) : 0x30 ≤ c.toNat ∧ c.toNat ≤ 0x39 := by
  simp only [Char.isDigit, Bool.and_eq_true, decide_eq_true_eq] at h
  exact ⟨UInt32.le_iff_toNat_le.mp h.1, UInt32.le_iff_toNat_le.mp h.2⟩

private theorem isDigitByte_ofNat {n : Nat} (h : 0x30 ≤ n ∧ n ≤ 0x39) : isDigitByte (UInt8.ofNat n) = true := by
  simp only [isDigitByte, Bool.and_eq_true, decide_eq_true_eq, UInt8.le_iff_toNat_le,
    UInt8.toNat_ofNat_of_lt' (show n < 256 by omega)]
  exact h

theorem decimal_ne_nil (n : Nat) : decimal n ≠ [] := by
  simp [decimal, Nat.toDigits_ne_nil]

theorem isDigitByte_of_mem_decimal {n : Nat} {b : UInt8} (h : b ∈ decimal n) : isDigitByte b = true := by
  obtain ⟨c, hc, rfl⟩ := List.mem_map.mp h
  exact isDigitByte_ofNat (toNat_of_isDigit (Nat.isDigit_of_mem_toDigits (by decide) (by decide) hc))

private theorem readDigits_map {digits : List Char} (h : ∀ c ∈ digits, c.isDigit = true) (value : Nat) :
    readDigits value (digits.map fun c => UInt8.ofNat c.toNat) = some (Nat.ofDigitChars 10 digits value) := by
  induction digits generalizing value with
  | nil => rfl
  | cons c digits ih =>
    have hc := toNat_of_isDigit (h c List.mem_cons_self)
    have hd : digit? (UInt8.ofNat c.toNat) = some (c.toNat - 0x30) := by
      have := isDigitByte_ofNat hc
      rw [isDigitByte] at this
      rw [digit?, if_pos this, UInt8.toNat_ofNat_of_lt' (show c.toNat < 256 by omega)]
    simp only [List.map_cons, readDigits, hd, Option.bind_some]
    rw [ih (fun x hx => h x (List.mem_cons_of_mem c hx)), Nat.ofDigitChars_cons, Nat.mul_comm]
    rfl

theorem readDecimal_decimal (n : Nat) : readDecimal (decimal n) = some n := by
  have hne : (decimal n).isEmpty = false := by simpa using decimal_ne_nil n
  have hd : ∀ c ∈ Nat.toDigits 10 n, c.isDigit = true :=
    fun c hc => Nat.isDigit_of_mem_toDigits (by decide) (by decide) hc
  rw [readDecimal, hne, decimal, if_neg (by decide), readDigits_map hd, Nat.ofDigitChars_ten_toDigits]

/-- A signed number is read back. -/
theorem readDecimalInt_decimalInt (i : Int) : readDecimalInt (decimalInt i) = some i := by
  unfold decimalInt
  split
  · next h =>
    rw [readDecimalInt, readDecimal_decimal]
    change some (-(i.natAbs : Int)) = some i
    congr 1
    omega
  · next h =>
    have hs : ∀ r, decimal i.natAbs ≠ 0x2d :: r := by
      intro r hr
      have := isDigitByte_of_mem_decimal (n := i.natAbs) (b := 0x2d) (by simp [hr])
      revert this
      decide
    rw [readDecimalInt, readDecimal_decimal]
    · change some (i.natAbs : Int) = some i
      congr 1
      omega
    · exact hs

/-- The bytes of a signed number are digits after the sign. -/
theorem mem_decimalInt {i : Int} {b : UInt8} (h : b ∈ decimalInt i) : b = 0x2d ∨ isDigitByte b = true := by
  unfold decimalInt at h
  split at h
  · rcases List.mem_cons.mp h with rfl | h
    · exact .inl rfl
    · exact .inr (isDigitByte_of_mem_decimal h)
  · exact .inr (isDigitByte_of_mem_decimal h)

theorem decimalInt_ne_nil (i : Int) : decimalInt i ≠ [] := by
  unfold decimalInt
  split
  · simp
  · exact decimal_ne_nil _

end Text
end ProtoRecovery
