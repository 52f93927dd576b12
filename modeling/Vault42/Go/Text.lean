import Vault42.Go.Encoding

/-!
# Text functions of the Go standard library

`strings.TrimSpace` over bytes, `strings.ToLower`, and lists joined and split at commas. `TrimSpace`
knows the spaces of `unicode.IsSpace` by their UTF-8 encodings, one, two or three bytes long; from
the right it reads the same encodings backwards, so both ends are `trimWith`. The case tables of
Unicode are a parameter of `toLower`, used for a text that is not ASCII.
-/

namespace Go

open List Bool

open Strconv (Bytes)

/-! ### White space -/

/-- The spaces of `unicode.IsSpace` that are one byte long. -/
def asciiSpace (b : UInt8) : Bool := b == 32 || (9 ≤ b && b ≤ 13)

/-- The first bytes of a two-byte space. -/
def space2 (b c : UInt8) : Bool := b == 0xC2 && (c == 0x85 || c == 0xA0)

/-- The bytes of a three-byte space: U+1680, U+2000 to U+200A, U+2028, U+2029, U+202F, U+205F,
U+3000. -/
def space3 (b c d : UInt8) : Bool :=
  (b == 0xE1 && c == 0x9A && d == 0x80) ||
    (b == 0xE2 && c == 0x80 && ((0x80 ≤ d && d ≤ 0x8A) || d == 0xA8 || d == 0xA9 || d == 0xAF)) ||
    (b == 0xE2 && c == 0x81 && d == 0x9F) || (b == 0xE3 && c == 0x80 && d == 0x80)

/-- A text without the spaces it starts with, given which two and three bytes are one. -/
def trimWith (two : UInt8 → UInt8 → Bool) (three : UInt8 → UInt8 → UInt8 → Bool) : Bytes → Bytes
  | b :: c :: d :: s =>
    if asciiSpace b then trimWith two three (c :: d :: s)
    else if two b c then trimWith two three (d :: s)
    else if three b c d then trimWith two three s
    else b :: c :: d :: s
  | [b, c] => if asciiSpace b then trimWith two three [c] else if two b c then [] else [b, c]
  | [b] => if asciiSpace b then [] else [b]
  | [] => []

/-- `strings.TrimLeftFunc(s, unicode.IsSpace)`. -/
def trimLeft (s : Bytes) : Bytes := trimWith space2 space3 s

/-- The same of a text read backwards. -/
def trimBackwards (s : Bytes) : Bytes :=
  trimWith (fun d c => space2 c d) (fun d c b => space3 b c d) s

def trimSpace (s : Bytes) : Bytes := (trimBackwards (trimLeft s).reverse).reverse

/-- `strings.TrimPrefix` and `strings.TrimSuffix` of one byte. -/
def trimByteLeft (b : UInt8) (s : Bytes) : Bytes :=
  match s with
  | c :: s' => if c = b then s' else s
  | [] => []

def trimByteRight (b : UInt8) (s : Bytes) : Bytes := (trimByteLeft b s.reverse).reverse

variable {s : Bytes} {three : UInt8 → UInt8 → UInt8 → Bool} {two : UInt8 → UInt8 → Bool}

theorem trimWith_eq_self (h1 : ∀ b t, s = b :: t → asciiSpace b = false)
    (h2 : ∀ b c t, s = b :: c :: t → two b c = false)
    (h3 : ∀ b c d t, s = b :: c :: d :: t → three b c d = false) : trimWith two three s = s := by
  match s with
  | [] => rfl
  | [b] => simp only [trimWith, h1 b _ rfl, false_eq_true, if_false]
  | [b, c] => simp only [trimWith, h1 b _ rfl, h2 b c _ rfl, false_eq_true, if_false]
  | b :: c :: d :: s =>
    simp only [trimWith, h1 b _ rfl, h2 b c _ rfl, h3 b c d _ rfl, false_eq_true, if_false]

theorem trimLeft_space (s : Bytes) : trimLeft (32 :: s) = trimLeft s := by
  match s with
  | [] | [_] | _ :: _ :: _ => rfl

theorem trimSpace_space (s : Bytes) : trimSpace (32 :: s) = trimSpace s := by
  rw [trimSpace, trimLeft_space, trimSpace]

variable {b : UInt8}

/-- What is trimmed does not start with a space of one byte. -/
theorem head_trimWith (h : (trimWith two three s).head? = some b) : asciiSpace b = false := by
  induction s using trimWith.induct two three with
  | case1 c d e s hc ih => rw [trimWith, if_pos hc] at h; exact ih h
  | case2 c d e s hc hd ih => rw [trimWith, if_neg hc, if_pos hd] at h; exact ih h
  | case3 c d e s hc hd he ih => rw [trimWith, if_neg hc, if_neg hd, if_pos he] at h; exact ih h
  | case4 c d e s hc hd he =>
    rw [trimWith, if_neg hc, if_neg hd, if_neg he] at h
    cases h
    exact eq_false_iff.mpr hc
  | case5 c d hc ih => rw [trimWith, if_pos hc] at h; exact ih h
  | case6 c d hc hd => rw [trimWith, if_neg hc, if_pos hd] at h; cases h
  | case7 c d hc hd =>
    rw [trimWith, if_neg hc, if_neg hd] at h
    cases h
    exact eq_false_iff.mpr hc
  | case8 c hc => rw [trimWith, if_pos hc] at h; cases h
  | case9 c hc =>
    rw [trimWith, if_neg hc] at h
    cases h
    exact eq_false_iff.mpr hc
  | case10 => cases h

theorem trimWith_suffix (s : Bytes) :
    trimWith two three s <:+ s := by
  induction s using trimWith.induct two three with
  | case1 c d e s hc ih => rw [trimWith, if_pos hc]; exact ih.trans (suffix_cons ..)
  | case2 c d e s hc hd ih =>
    rw [trimWith, if_neg hc, if_pos hd]
    exact ih.trans (suffix_append [c, d] _)
  | case3 c d e s hc hd he ih =>
    rw [trimWith, if_neg hc, if_neg hd, if_pos he]
    exact ih.trans (suffix_append [c, d, e] _)
  | case4 c d e s hc hd he => rw [trimWith, if_neg hc, if_neg hd, if_neg he]
  | case5 c d hc ih => rw [trimWith, if_pos hc]; exact ih.trans (suffix_cons ..)
  | case6 c d hc hd => rw [trimWith, if_neg hc, if_pos hd]; exact nil_suffix
  | case7 c d hc hd => rw [trimWith, if_neg hc, if_neg hd]
  | case8 c hc => rw [trimWith, if_pos hc]; exact nil_suffix
  | case9 c hc => rw [trimWith, if_neg hc]
  | case10 => exact suffix_rfl

/-- What `TrimSpace` leaves is a prefix of what trimming the left end leaves. -/
theorem trimSpace_le_trimLeft (s : Bytes) : trimSpace s <+: trimLeft s := by
  have h : trimBackwards (trimLeft s).reverse <:+ (trimLeft s).reverse := trimWith_suffix _
  rw [← reverse_prefix, reverse_reverse] at h
  exact h

theorem head_trimSpace (h : (trimSpace s).head? = some b) : asciiSpace b = false := by
  obtain ⟨t, ht⟩ := trimSpace_le_trimLeft s
  have hleft : (trimLeft s).head? = some b := by
    rw [← ht, head?_append, h, Option.some_or]
  exact head_trimWith hleft

theorem getLast_trimSpace (h : (trimSpace s).getLast? = some b) : asciiSpace b = false := by
  rw [trimSpace, getLast?_reverse] at h
  exact head_trimWith h

theorem mem_of_mem_trimSpace (h : b ∈ trimSpace s) : b ∈ s :=
  (trimWith_suffix s).subset ((trimSpace_le_trimLeft s).subset h)

/-! ### Spaces around a text -/

/-- The encoding of one space. -/
def IsSpace : Bytes → Prop
  | [b] => asciiSpace b
  | [b, c] => space2 b c
  | [b, c, d] => space3 b c d
  | _ => False

def White (s : Bytes) : Prop := ∃ l : List Bytes, (∀ x ∈ l, IsSpace x) ∧ s = l.flatten

section White

variable {two : UInt8 → UInt8 → Bool} {three : UInt8 → UInt8 → UInt8 → Bool} {b c d : UInt8}

theorem trimWith_one (hb : asciiSpace b) (t : Bytes) :
    trimWith two three (b :: t) = trimWith two three t := by
  match t with
  | [] | [_] | _ :: _ :: _ => simp only [trimWith, hb, if_true]

theorem trimWith_two (hb : asciiSpace b = false) (hc : two b c) (t : Bytes) :
    trimWith two three (b :: c :: t) = trimWith two three t := by
  match t with
  | [] | _ :: _ => simp only [trimWith, hb, hc, false_eq_true, if_false, if_true]

theorem trimWith_three (hb : asciiSpace b = false) (hc : two b c = false) (hd : three b c d)
    (t : Bytes) : trimWith two three (b :: c :: d :: t) = trimWith two three t := by
  simp only [trimWith, hb, hc, hd, false_eq_true, if_false, if_true]

/-- The encodings of different lengths do not overlap, from either end. -/
theorem space2_ends (h : space2 b c) : asciiSpace b = false ∧ asciiSpace c = false := by
  simp only [space2, and_eq_true, or_eq_true, beq_iff_eq] at h
  obtain ⟨rfl, rfl | rfl⟩ := h
  · decide
  · decide

theorem space3_ends (h : space3 b c d) :
    asciiSpace b = false ∧ space2 b c = false ∧ asciiSpace d = false ∧ space2 c d = false := by
  have hfirst : b = 0xE1 ∨ b = 0xE2 ∨ b = 0xE3 := by
    simp only [space3, and_eq_true, or_eq_true, beq_iff_eq] at h
    tauto
  have hsecond : c = 0x9A ∨ c = 0x80 ∨ c = 0x81 := by
    simp only [space3, and_eq_true, or_eq_true, beq_iff_eq] at h
    tauto
  have hlast : 0x80 ≤ d.toNat := by
    simp only [space3, and_eq_true, or_eq_true, beq_iff_eq, decide_eq_true_eq,
      UInt8.le_iff_toNat_le, ← UInt8.toNat_inj, UInt8.reduceToNat] at h
    lia
  have hascii : ∀ x, 0x80 ≤ x.toNat → asciiSpace x = false := by
    intro x hx
    simp only [asciiSpace, or_eq_false_iff, beq_eq_false_iff_ne, ne_eq, and_eq_false_iff,
      decide_eq_false_iff_not, UInt8.le_iff_toNat_le, ← UInt8.toNat_inj, UInt8.reduceToNat]
    lia
  refine ⟨?_, ?_, hascii d hlast, ?_⟩
  · rcases hfirst with rfl | rfl | rfl <;> rfl
  · rcases hfirst with rfl | rfl | rfl <;> rfl
  · rcases hsecond with rfl | rfl | rfl <;> rfl

end White

theorem trimLeft_isSpace {x : Bytes} (hx : IsSpace x) (t : Bytes) :
    trimLeft (x ++ t) = trimLeft t := by
  match x with
  | [b] => exact trimWith_one hx t
  | [b, c] => exact trimWith_two (space2_ends hx).1 hx t
  | [b, c, d] => exact trimWith_three (space3_ends hx).1 (space3_ends hx).2.1 hx t

theorem trimBackwards_isSpace {x : Bytes} (hx : IsSpace x) (t : Bytes) :
    trimBackwards (x.reverse ++ t) = trimBackwards t := by
  match x with
  | [b] => exact trimWith_one hx t
  | [b, c] =>
    have hc : (fun d c => space2 c d) c b := hx
    exact trimWith_two (space2_ends hx).2 hc t
  | [b, c, d] =>
    have hd : (fun d c b => space3 b c d) d c b := hx
    exact trimWith_three (space3_ends hx).2.2.1 (space3_ends hx).2.2.2 hd t

theorem trimLeft_white (h : White s) (t : Bytes) : trimLeft (s ++ t) = trimLeft t := by
  obtain ⟨l, hl, rfl⟩ := h
  induction l with
  | nil => rfl
  | cons x l ih =>
    rw [flatten_cons, append_assoc, trimLeft_isSpace (hl x (mem_cons_self ..))]
    exact ih fun y hy => hl y (mem_cons_of_mem x hy)

theorem trimBackwards_white (h : White s) (t : Bytes) :
    trimBackwards (s.reverse ++ t) = trimBackwards t := by
  obtain ⟨l, hl, rfl⟩ := h
  induction l generalizing t with
  | nil => rfl
  | cons x l ih =>
    rw [flatten_cons, reverse_append, append_assoc,
      ih _ (fun y hy => hl y (mem_cons_of_mem x hy))]
    exact trimBackwards_isSpace (hl x (mem_cons_self ..)) t

theorem white_nil : White [] := ⟨[], nofun, rfl⟩

/-- A byte that neither is a space nor begins one: ASCII, and above the spaces. -/
def plainByte (b : UInt8) : Bool := 32 < b && b < 128

section Plain

variable {b : UInt8} (h : plainByte b)

include h

theorem plainByte_range : 32 < b.toNat ∧ b.toNat < 128 := by
  simpa only [plainByte, and_eq_true, decide_eq_true_eq, UInt8.lt_iff_toNat_lt,
    UInt8.reduceToNat] using h

theorem not_asciiSpace : asciiSpace b = false := by
  have hb := plainByte_range h
  simp only [asciiSpace, or_eq_false_iff, beq_eq_false_iff_ne, ne_eq, and_eq_false_iff,
    decide_eq_false_iff_not, UInt8.le_iff_toNat_le, ← UInt8.toNat_inj, UInt8.reduceToNat]
  lia

theorem not_space2 (c : UInt8) : space2 b c = false := by
  have hb := plainByte_range h
  have hne : (b == 0xC2) = false := by
    simp only [beq_eq_false_iff_ne, ne_eq, ← UInt8.toNat_inj, UInt8.reduceToNat]
    lia
  rw [space2, hne, Bool.false_and]

theorem not_space3 (c d : UInt8) : space3 b c d = false := by
  have hb := plainByte_range h
  have hne : (b == 0xE1) = false ∧ (b == 0xE2) = false ∧ (b == 0xE3) = false := by
    simp only [beq_eq_false_iff_ne, ne_eq, ← UInt8.toNat_inj, UInt8.reduceToNat]
    lia
  simp only [space3, hne, Bool.false_and, Bool.or_false]

/-- A text that starts with one is not trimmed on the left. -/
theorem trimLeft_plain (s : Bytes) : trimLeft (b :: s) = b :: s := by
  refine trimWith_eq_self (fun x t hs => ?_) (fun x c t hs => ?_) fun x c d t hs => ?_
  · cases hs
    exact not_asciiSpace h
  · cases hs
    exact not_space2 h c
  · cases hs
    exact not_space3 h c d

end Plain

theorem trimBackwards_plain (h : ∀ b ∈ s, plainByte b) : trimBackwards s = s := by
  refine trimWith_eq_self (fun d t hs => ?_) (fun d c t hs => ?_) fun d c b t hs => ?_
  · exact not_asciiSpace (h d (by simp [hs]))
  · exact not_space2 (h c (by simp [hs])) d
  · exact not_space3 (h b (by simp [hs])) c d

/-- Spaces around a plain text are what `TrimSpace` takes away. -/
theorem trimSpace_white {pre post : Bytes} (hpre : White pre) (hs : ∀ b ∈ s, plainByte b)
    (hpost : White post) : trimSpace (pre ++ s ++ post) = s := by
  have hback : ∀ t, trimBackwards (post.reverse ++ t) = trimBackwards t := trimBackwards_white hpost
  cases s with
  | nil =>
    have hleft : trimLeft post = [] := by
      have := trimLeft_white hpost []
      rwa [append_nil] at this
    rw [append_nil, trimSpace, trimLeft_white hpre, hleft]
    rfl
  | cons b =>
    rw [trimSpace, append_assoc, trimLeft_white hpre, cons_append,
      trimLeft_plain (hs b (mem_cons_self ..)), ← cons_append, reverse_append, hback,
      trimBackwards_plain fun c hc => hs c (mem_reverse.mp hc), reverse_reverse]

/-! ### Case -/

/-- A small letter for a capital one. -/
def lowerByte (b : UInt8) : UInt8 := if 65 ≤ b && b ≤ 90 then b + 32 else b

/-- `strings.ToLower`: letter by letter, except that a text which is not ASCII goes through the
tables of `unicode`. -/
def toLower (unicode : Bytes → Bytes) (s : Bytes) : Bytes :=
  if s.all (· < 128) then s.map lowerByte else unicode s

theorem toNat_32 : (32 : UInt8).toNat = 32 := rfl

theorem toNat_lowerByte (b : UInt8) :
    (lowerByte b).toNat = if 65 ≤ b.toNat ∧ b.toNat ≤ 90 then b.toNat + 32 else b.toNat := by
  unfold lowerByte
  simp only [and_eq_true, decide_eq_true_eq, UInt8.le_iff_toNat_le, UInt8.reduceToNat]
  split
  · rw [UInt8.toNat_add, toNat_32, Nat.mod_eq_of_lt (by lia)]
  · rfl

/-! ### Lists -/

def comma : UInt8 := 44

def splitComma (s : Bytes) : List Bytes := s.splitOn comma

def joinComma (parts : List Bytes) : Bytes := [comma].intercalate parts

theorem splitComma_join {parts : List Bytes} (h : ∀ p ∈ parts, comma ∉ p) (hne : parts ≠ []) :
    splitComma (joinComma parts) = parts :=
  splitOn_intercalate comma h hne

theorem splitComma_single (h : comma ∉ s) : splitComma s = [s] := by
  have hs : ∀ p ∈ [s], comma ∉ p := fun p hp => mem_singleton.mp hp ▸ h
  simpa [joinComma, intercalate] using splitComma_join hs (cons_ne_nil _ _)

theorem splitComma_append (lead s : Bytes) :
    splitComma (lead ++ comma :: s) = splitComma lead ++ splitComma s :=
  splitOnP_append_cons lead s (beq_self_eq_true comma)

theorem comma_notMem_splitComma {p : Bytes} (h : p ∈ splitComma s) : comma ∉ p := by
  induction s generalizing p with
  | nil =>
    rw [mem_singleton.mp h]
    exact not_mem_nil
  | cons b s ih =>
    have hcons : splitComma (b :: s) =
        if (b == comma) then [] :: splitComma s else (splitComma s).modifyHead (b :: ·) := by
      rw [splitComma, splitOn, splitOnP_cons_eq_if_modifyHead]
      rfl
    rw [hcons] at h
    split at h
    · rcases mem_cons.mp h with rfl | h
      · exact not_mem_nil
      · exact ih h
    · next hb =>
      cases hs : splitComma s with
      | nil =>
        rw [hs] at h
        cases h
      | cons q =>
        rw [hs, modifyHead_cons] at h
        rw [hs] at ih
        rcases mem_cons.mp h with rfl | h
        · intro hc
          rcases mem_cons.mp hc with heq | hc
          · exact hb (beq_iff_eq.mpr heq.symm)
          · exact ih (mem_cons_self ..) hc
        · exact ih (mem_cons_of_mem q h)

end Go
