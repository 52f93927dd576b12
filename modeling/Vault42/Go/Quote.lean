import Vault42.Go.Encoding

/-!
# Writing texts

`base64.RawURLEncoding` and the strings of `json.Marshal`, the other halves of the readers of
`Go.Encoding`. A Go string is any sequence of bytes but a JSON string is a sequence of characters,
so `json.Marshal` writes `U+FFFD` for every byte that belongs to no character: what is read back is
not the text that was written but its repair (`Json.repair`). A text that is UTF-8 is its own
repair.

* `base64Decode_encode`: base64 is read back as it was written;
* `Json.scanString_quote`: of a string its repair is read back.
-/

namespace Go

open List Option

open Strconv (Bytes)

/-! ### Cutting -/

theorem cut_append {sep : UInt8} {x : Bytes} (hx : sep ∉ x) (y : Bytes) :
    cut sep (x ++ sep :: y) = some (x, y) := by
  induction x with
  | nil => rw [nil_append, cut, if_pos rfl]
  | cons b x ih =>
    rw [mem_cons, not_or] at hx
    rw [cons_append, cut, if_neg (Ne.symm hx.1), ih hx.2]
    rfl

theorem cut_of_notMem {sep : UInt8} {x : Bytes} (hx : sep ∉ x) : cut sep x = none := by
  induction x with
  | nil => rfl
  | cons b x ih =>
    rw [mem_cons, not_or] at hx
    rw [cut, if_neg (Ne.symm hx.1), ih hx.2]
    rfl

/-! ### Base64 -/

def base64Char (v : ℕ) : UInt8 :=
  if v < 26 then UInt8.ofNat (v + 65)
  else if v < 52 then UInt8.ofNat (v - 26 + 97)
  else if v < 62 then UInt8.ofNat (v - 52 + 48)
  else if v = 62 then 45
  else 95

/-- The bytes three at a time, as numbers of six bits. -/
def base64Sextets : Bytes → List ℕ
  | [] => []
  | [a] => [a.toNat / 4, a.toNat % 4 * 16]
  | [a, b] => [a.toNat / 4, a.toNat % 4 * 16 + b.toNat / 16, b.toNat % 16 * 4]
  | a :: b :: c :: rest =>
    a.toNat / 4 :: (a.toNat % 4 * 16 + b.toNat / 16) :: (b.toNat % 16 * 4 + c.toNat / 64) ::
      c.toNat % 64 :: base64Sextets rest

/-- `base64.RawURLEncoding.EncodeToString`. -/
def base64Encode (s : Bytes) : Bytes := (base64Sextets s).map base64Char

theorem base64Value_char : ∀ v < 64, base64Value (base64Char v) = some v := by decide

theorem base64Char_ne_dot : ∀ v < 64, base64Char v ≠ 46 := by decide

theorem base64Sextets_lt (s : Bytes) : ∀ v ∈ base64Sextets s, v < 64 := by
  induction s using base64Sextets.induct with
  | case1 => exact fun v hv => absurd hv not_mem_nil
  | case2 a =>
    have ha := a.toNat_lt
    simp only [base64Sextets, mem_cons, not_mem_nil, or_false, forall_eq_or_imp, forall_eq]
    omega
  | case3 a b =>
    have ha := a.toNat_lt
    have hb := b.toNat_lt
    simp only [base64Sextets, mem_cons, not_mem_nil, or_false, forall_eq_or_imp, forall_eq]
    omega
  | case4 a b c rest ih =>
    have ha := a.toNat_lt
    have hb := b.toNat_lt
    have hc := c.toNat_lt
    simp only [base64Sextets, mem_cons, forall_eq_or_imp]
    refine ⟨by omega, by omega, by omega, by omega, ih⟩

/-- Two halves of a byte, put together again. -/
theorem ofNat_eq_of_toNat {b : UInt8} {n : ℕ} (h : n = b.toNat) : UInt8.ofNat n = b := by
  rw [h, UInt8.ofNat_toNat]

theorem base64Groups_sextets (s : Bytes) : base64Groups (base64Sextets s) = some s := by
  induction s using base64Sextets.induct with
  | case1 => rfl
  | case2 a =>
    have ha := a.toNat_lt
    rw [base64Sextets, base64Groups, if_pos (by omega), ofNat_eq_of_toNat (b := a) (by omega)]
  | case3 a b =>
    have ha := a.toNat_lt
    have hb := b.toNat_lt
    rw [base64Sextets, base64Groups, if_pos (by omega), ofNat_eq_of_toNat (b := a) (by omega),
      ofNat_eq_of_toNat (b := b) (by omega)]
  | case4 a b c rest ih =>
    have ha := a.toNat_lt
    have hb := b.toNat_lt
    have hc := c.toNat_lt
    rw [base64Sextets, base64Groups, ih, map_some, ofNat_eq_of_toNat (b := a) (by omega),
      ofNat_eq_of_toNat (b := b) (by omega), ofNat_eq_of_toNat (b := c) (by omega)]

/-- **Base64 is read back.** -/
theorem base64Decode_encode (s : Bytes) : base64Decode (base64Encode s) = some s := by
  have hvalues : ∀ vs : List ℕ, (∀ v ∈ vs, v < 64) →
      (vs.map base64Char).mapM base64Value = some vs := by
    intro vs hvs
    induction vs with
    | nil => rfl
    | cons v vs ih =>
      rw [map_cons, mapM_cons, base64Value_char v (hvs v mem_cons_self),
        ih fun w hw => hvs w (mem_cons_of_mem _ hw)]
      rfl
  rw [base64Decode, base64Encode, hvalues _ (base64Sextets_lt s), bind_some,
    base64Groups_sextets]

variable {s : Bytes}

theorem dot_notMem_base64Encode : 46 ∉ base64Encode s := by
  intro hmem
  obtain ⟨v, hv, hdot⟩ := mem_map.mp hmem
  exact base64Char_ne_dot v (base64Sextets_lt s v hv) hdot

/-! ### Characters -/

theorem runeLength_eq_some {k : ℕ} (h : runeLength s = some k) :
    0 < k ∧ k ≤ s.length ∧ ∀ t, runeLength (s.take k ++ t) = some k := by
  unfold runeLength at h
  split at h
  · cases h
  next b s =>
    split_ifs at h with h1 h2 h3 h4
    · cases h
      refine ⟨by omega, by simp, fun t => ?_⟩
      simp only [take_succ_cons, take_zero, cons_append, runeLength, if_pos h1]
    · split at h
      next c s =>
        split_ifs at h with hc
        cases h
        refine ⟨by omega, by simp, fun t => ?_⟩
        simp only [take_succ_cons, take_zero, cons_append, runeLength, if_neg h1, if_pos h2,
          if_pos hc]
      · cases h
    · split at h
      next c d s =>
        split_ifs at h with hc
        cases h
        refine ⟨by omega, by simp, fun t => ?_⟩
        simp only [take_succ_cons, take_zero, cons_append, runeLength, if_neg h1, if_neg h2,
          if_pos h3, if_pos hc]
      · cases h
    · split at h
      next c d e s =>
        split_ifs at h with hc
        cases h
        refine ⟨by omega, by simp, fun t => ?_⟩
        simp only [take_succ_cons, take_zero, cons_append, runeLength, if_neg h1, if_neg h2,
          if_neg h3, if_pos h4, if_pos hc]
      · cases h

/-- The characters of a text, one after the other. A byte that belongs to none is `none`. -/
def runesLoop : ℕ → Bytes → List (Option Bytes)
  | 0, _ => []
  | _ + 1, [] => []
  | n + 1, b :: s =>
    match runeLength (b :: s) with
    | none => none :: runesLoop n s
    | some k => some ((b :: s).take k) :: runesLoop n ((b :: s).drop k)

def runes (s : Bytes) : List (Option Bytes) := runesLoop s.length s

/-- The bytes of one character. -/
def Rune (r : Bytes) : Prop := r ≠ [] ∧ ∀ t, runeLength (r ++ t) = some r.length

theorem Rune.not_ascii {b c : UInt8} {r : Bytes} (h : Rune (b :: c :: r)) : ¬ b < 128 := by
  intro hb
  have hone := h.2 []
  simp only [cons_append, runeLength, if_pos hb] at hone
  exact absurd (some.inj hone) (by simp)

theorem rune_of_mem_runesLoop {n : ℕ} {r : Bytes} (h : some r ∈ runesLoop n s) : Rune r := by
  induction n generalizing s with
  | zero => cases h
  | succ n ih =>
    cases s with
    | nil => cases h
    | cons b s =>
      rw [runesLoop] at h
      split at h
      · rcases mem_cons.mp h with heq | hmem
        · cases heq
        · exact ih hmem
      next k hk =>
        obtain ⟨hpos, hle, hagain⟩ := runeLength_eq_some hk
        rcases mem_cons.mp h with heq | hmem
        · obtain rfl := some.inj heq
          have hlen : ((b :: s).take k).length = k := length_take_of_le hle
          refine ⟨fun hnil => ?_, fun t => ?_⟩
          · rw [hnil] at hlen
            exact absurd hlen (by simp; omega)
          · rw [hagain t, hlen]
        · exact ih hmem

theorem rune_of_mem_runes {r : Bytes} (h : some r ∈ runes s) : Rune r := rune_of_mem_runesLoop h

namespace Json

/-! ### Strings -/

/-- What is read back of a string: its characters, and `U+FFFD` for every other byte. -/
def repair (s : Bytes) : Bytes := (runes s).flatMap fun r => r.getD replacement

def hexDigit (n : ℕ) : UInt8 := if n < 10 then UInt8.ofNat (n + 48) else UInt8.ofNat (n - 10 + 97)

/-- A character inside a JSON string. The characters that mean something in HTML are escaped, and so
are the two line separators that end a line in JavaScript. -/
def escapeRune : Option Bytes → Bytes
  | none => [92, 117, 102, 102, 102, 100]
  | some [b] =>
    if b = 34 || b = 92 then [92, b]
    else if b = 8 then [92, 98]
    else if b = 12 then [92, 102]
    else if b = 10 then [92, 110]
    else if b = 13 then [92, 114]
    else if b = 9 then [92, 116]
    else if b < 32 || b = 60 || b = 62 || b = 38 then
      [92, 117, 48, 48, hexDigit (b.toNat / 16), hexDigit (b.toNat % 16)]
    else [b]
  | some r =>
    if r = [226, 128, 168] then [92, 117, 50, 48, 50, 56]
    else if r = [226, 128, 169] then [92, 117, 50, 48, 50, 57]
    else r

def quote (s : Bytes) : Bytes := 34 :: ((runes s).flatMap escapeRune ++ [34])

variable {n : ℕ}

/-- A `\u` escape that is no surrogate is the character it names. -/
theorem scanString_unicode {code : ℕ} {a b c d : UInt8} {t : Bytes}
    (hhex : hex4 (a :: b :: c :: d :: t) = some (code, t)) (hcode : code < 0xD800 ∨ 0xE000 ≤ code) :
    scanString (n + 1) (92 :: 117 :: a :: b :: c :: d :: t) =
      (scanString n t).map fun (bytes, rest) =>
        (String.utf8EncodeChar (Char.ofNat code) ++ bytes, rest) := by
  have hplain : escaped code t = (String.utf8EncodeChar (Char.ofNat code), t) := by
    rw [escaped, if_neg (by omega), if_neg (by omega)]
  rw [scanString, if_neg (by decide), if_neg (by decide), if_pos rfl]
  simp only [hhex, hplain, bind_eq_bind, bind_some]
  cases scanString n t <;> rfl

theorem scanString_letter {c b : UInt8} {t : Bytes} (hc : c ≠ 117) (hb : unescape c = some b) :
    scanString (n + 1) (92 :: c :: t) =
      (scanString n t).map fun (bytes, rest) => ([b] ++ bytes, rest) := by
  rw [scanString, if_neg (by decide), if_neg (by decide), if_pos rfl]
  · simp only [hb, bind_eq_bind, bind_some]
    cases scanString n t <;> rfl
  · exact hc

theorem scanString_rune {b : UInt8} {r t : Bytes} (hr : Rune (b :: r)) (hquote : b ≠ 34)
    (hcontrol : ¬ b < 32) (hslash : b ≠ 92) :
    scanString (n + 1) (b :: r ++ t) =
      (scanString n t).map fun (bytes, rest) => (b :: r ++ bytes, rest) := by
  have hlen := hr.2 t
  rw [cons_append] at hlen ⊢
  rw [scanString.eq_def]
  simp only [if_neg hquote, if_neg hcontrol, if_neg hslash, hlen]
  simp only [length_cons, drop_succ_cons, take_succ_cons, drop_left, take_left]

/-- The escape of a control character or of one of HTML. -/
theorem hex4_escape : ∀ n < 64, ∀ t,
    hex4 (48 :: 48 :: hexDigit (n / 16) :: hexDigit (n % 16) :: t) = some (n, t) := by
  intro n hn t
  interval_cases n <;> rfl

theorem utf8EncodeChar_ascii :
    ∀ n < 128, String.utf8EncodeChar (Char.ofNat n) = [UInt8.ofNat n] := by
  decide

/-- **One character.** -/
theorem scanString_escapeRune {r : Option Bytes} (hr : ∀ x, r = some x → Rune x) (n : ℕ)
    (t : Bytes) :
    scanString (n + 1) (escapeRune r ++ t) =
      (scanString n t).map fun (bytes, rest) => (r.getD replacement ++ bytes, rest) := by
  unfold escapeRune
  split
  · exact @scanString_unicode n 0xFFFD _ _ _ _ t rfl (by decide)
  next b =>
    -- one byte: its own escape, the general one, or none
    split_ifs with h1 h2 h3 h4 h5 h6 h7
    · simp only [Bool.or_eq_true, decide_eq_true_eq] at h1
      rcases h1 with rfl | rfl <;> exact scanString_letter (by decide) rfl
    · subst h2
      exact scanString_letter (by decide) rfl
    · subst h3
      exact scanString_letter (by decide) rfl
    · subst h4
      exact scanString_letter (by decide) rfl
    · subst h5
      exact scanString_letter (by decide) rfl
    · subst h6
      exact scanString_letter (by decide) rfl
    · have hsmall : b.toNat < 64 := by
        simp only [Bool.or_eq_true, decide_eq_true_eq] at h7
        rcases h7 with ((h | rfl) | rfl) | rfl
        · exact lt_trans (UInt8.lt_iff_toNat_lt.mp h) (by decide)
        all_goals decide
      have hbyte : String.utf8EncodeChar (Char.ofNat b.toNat) = [b] := by
        rw [utf8EncodeChar_ascii _ (by omega), UInt8.ofNat_toNat]
      have hscan := scanString_unicode (n := n) (hex4_escape b.toNat hsmall t) (by omega)
      rw [hbyte] at hscan
      exact hscan
    · simp only [Bool.or_eq_true, decide_eq_true_eq, not_or] at h1 h7
      exact scanString_rune (hr [b] rfl) h1.1 h7.1.1.1 h1.2
  next r hlong =>
    split_ifs with h1 h2
    · subst h1
      exact @scanString_unicode n 0x2028 _ _ _ _ t rfl (by decide)
    · subst h2
      exact @scanString_unicode n 0x2029 _ _ _ _ t rfl (by decide)
    · obtain ⟨b, r, rfl⟩ := exists_cons_of_ne_nil (hr r rfl).1
      have hne : r ≠ [] := fun hnil => hlong b (by rw [hnil])
      obtain ⟨c, r, rfl⟩ := exists_cons_of_ne_nil hne
      have hhigh := (hr _ rfl).not_ascii
      refine scanString_rune (hr _ rfl) ?_ ?_ ?_
      · rintro rfl
        exact hhigh (by decide)
      · exact fun hlt => hhigh (UInt8.lt_trans hlt (by decide))
      · rintro rfl
        exact hhigh (by decide)

theorem escapeRune_ne_nil {r : Option Bytes} (hr : ∀ x, r = some x → Rune x) :
    escapeRune r ≠ [] := by
  unfold escapeRune
  split
  · exact cons_ne_nil _ _
  · split_ifs <;> exact cons_ne_nil _ _
  · split_ifs
    · exact cons_ne_nil _ _
    · exact cons_ne_nil _ _
    · exact (hr _ rfl).1

/-- Characters up to the closing quote: each takes one step of the scan. -/
theorem scanString_runes {rs : List (Option Bytes)} (hrs : ∀ x, some x ∈ rs → Rune x) (rest : Bytes)
    (hn : rs.length < n) :
    scanString n (rs.flatMap escapeRune ++ 34 :: rest) =
      some (rs.flatMap fun r => r.getD replacement, rest) := by
  induction rs generalizing n with
  | nil =>
    obtain ⟨n, rfl⟩ := Nat.exists_eq_succ_of_ne_zero (Nat.ne_of_gt hn)
    rfl
  | cons r rs ih =>
    obtain ⟨n, rfl⟩ :=
      Nat.exists_eq_succ_of_ne_zero (Nat.ne_of_gt (Nat.lt_of_le_of_lt (Nat.zero_le _) hn))
    rw [flatMap_cons, append_assoc,
      scanString_escapeRune (fun x hx => hrs x (hx ▸ mem_cons_self)),
      ih (fun x hx => hrs x (mem_cons_of_mem _ hx)) (Nat.lt_of_succ_lt_succ hn)]
    rfl

theorem length_le_flatMap_escapeRune {rs : List (Option Bytes)} (hrs : ∀ x, some x ∈ rs → Rune x) :
    rs.length ≤ (rs.flatMap escapeRune).length := by
  induction rs with
  | nil => exact le_rfl
  | cons r rs ih =>
    have hpos := length_pos_iff.mpr
      (escapeRune_ne_nil fun x hx => hrs x (hx ▸ mem_cons_self))
    have htail := ih fun x hx => hrs x (mem_cons_of_mem _ hx)
    rw [flatMap_cons, length_append, length_cons]
    omega

/-- **Of a string its repair is read back.** -/
theorem scanString_quote (s rest : Bytes)
    (hn : ((runes s).flatMap escapeRune ++ 34 :: rest).length < n) :
    scanString n ((runes s).flatMap escapeRune ++ 34 :: rest) = some (repair s, rest) := by
  have hle := length_le_flatMap_escapeRune fun x hx => rune_of_mem_runes (s := s) hx
  rw [length_append] at hn
  exact scanString_runes (fun _ => rune_of_mem_runes) rest (by omega)

end Json

end Go
