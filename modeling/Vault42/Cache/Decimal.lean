import Mathlib.Data.Nat.Digits.Lemmas

/-!
# Decimal text

The numbers the service keeps as text. `parseInt` is `strconv.ParseInt(s, 10, 64)`: a sign, then the
loop of `ParseUint` over the digits, which gives up at the first byte that is not a digit or at the
digit that takes the value past 64 bits, whichever comes first. Its callers drop the error, so what
it returns beside an error matters: zero for text that is not a number, the nearest bound for a
number out of range.

Main results: `parseInt_formatInt`, a number in range is read back from its text;
`BigintInput.read_formatInt`, and the database reads the same number there.
-/

namespace Strconv

open List

/-- A Go string: bytes, in no particular encoding. -/
abbrev Bytes := List UInt8

/-- Named, so that every membership test of strings carries the same proof. -/
instance : LawfulBEq Bytes := inferInstance

/-- `strconv.ErrSyntax` and `strconv.ErrRange`. -/
inductive NumError where
  | malformed
  | range
deriving DecidableEq, Repr

/-- The value of a decimal digit. -/
def digitValue (c : UInt8) : Option ℕ := if 48 ≤ c ∧ c ≤ 57 then some (c.toNat - 48) else none

/-- The loop of `ParseUint`, `n` being the value of the digits read so far. -/
def parseUintLoop : ℕ → Bytes → Except NumError ℕ
  | n, [] => .ok n
  | n, c :: s =>
    match digitValue c with
    | none => .error .malformed
    | some d => if 2 ^ 64 ≤ n * 10 + d then .error .range else parseUintLoop (n * 10 + d) s

def parseUint (s : Bytes) : Except NumError ℕ :=
  if s = [] then .error .malformed else parseUintLoop 0 s

/-- The sign in front of a number, and the rest of it. -/
def splitSign : Bytes → Bool × Bytes
  | 43 :: s => (false, s)
  | 45 :: s => (true, s)
  | s => (false, s)

/-- The end of `ParseInt`: the cutoff at `2 ^ 63`, and the sign. -/
def cutoff (neg : Bool) (un : ℕ) : ℤ × Option NumError :=
  if !neg ∧ 2 ^ 63 ≤ un then (2 ^ 63 - 1, some .range)
  else if neg ∧ 2 ^ 63 < un then (-2 ^ 63, some .range)
  else (if neg then -(un : ℤ) else un, none)

def parseInt (s : Bytes) : ℤ × Option NumError :=
  match parseUint (splitSign s).2 with
  | .error .malformed => (0, some .malformed)
  -- `ParseUint` gives the largest value beside its range error, and `ParseInt` goes on with it
  | .error .range => cutoff (splitSign s).1 (2 ^ 64 - 1)
  | .ok un => cutoff (splitSign s).1 un

/-- The digits of a natural number, the most significant first. -/
def decimal (n : ℕ) : Bytes :=
  if n = 0 then [48] else (Nat.digits 10 n).reverse.map fun d => UInt8.ofNat (d + 48)

/-- `strconv.FormatInt(n, 10)`, and the text of a `bigint`. -/
def formatInt (n : ℤ) : Bytes := if n < 0 then 45 :: decimal n.natAbs else decimal n.natAbs

/-! ### Reading back what was written -/

theorem digitValue_ofNat {d : ℕ} (hd : d < 10) : digitValue (UInt8.ofNat (d + 48)) = some d := by
  interval_cases d <;> rfl

/-- The loop over digits that stay below 64 bits gives their value. -/
theorem parseUintLoop_digits {ds : List ℕ} {n : ℕ} (hds : ∀ d ∈ ds, d < 10)
    (hfit : ds.foldl (fun a d => a * 10 + d) n < 2 ^ 64) :
    parseUintLoop n (ds.map fun d => UInt8.ofNat (d + 48)) =
      .ok (ds.foldl (fun a d => a * 10 + d) n) := by
  induction ds generalizing n with
  | nil => rfl
  | cons d ds ih =>
    -- the value only grows, so a step cannot leave the range if the end does not
    have hgrow : ∀ (es : List ℕ) (m : ℕ), m ≤ es.foldl (fun a d => a * 10 + d) m := by
      intro es
      induction es with
      | nil => exact fun m => le_rfl
      | cons e es ihes => exact fun m => le_trans (by omega) (ihes (m * 10 + e))
    have hstep : ¬ 2 ^ 64 ≤ n * 10 + d := not_le.mpr (lt_of_le_of_lt (hgrow ds _) hfit)
    rw [map_cons, parseUintLoop, digitValue_ofNat (hds d mem_cons_self)]
    simp only [hstep, if_false]
    exact ih (fun e he => hds e (mem_cons_of_mem _ he)) hfit

theorem foldl_digits (n : ℕ) :
    (Nat.digits 10 n).reverse.foldl (fun a d => a * 10 + d) 0 = n := by
  rw [foldl_reverse]
  calc (Nat.digits 10 n).foldr (fun d a => a * 10 + d) 0
      = (Nat.digits 10 n).foldr (fun d a => d + 10 * a) 0 := by
        congr 1
        funext d a
        omega
    _ = Nat.ofDigits 10 (Nat.digits 10 n) := (Nat.ofDigits_eq_foldr 10 _).symm
    _ = n := Nat.ofDigits_digits 10 n

theorem parseUint_decimal {n : ℕ} (hn : n < 2 ^ 64) : parseUint (decimal n) = .ok n := by
  unfold decimal
  by_cases h0 : n = 0
  · subst h0
    rfl
  rw [if_neg h0, parseUint, if_neg]
  · rw [parseUintLoop_digits _ (by rwa [foldl_digits]), foldl_digits]
    intro d hd
    exact Nat.digits_lt_base (by omega) (mem_reverse.mp hd)
  · rw [map_eq_nil_iff, reverse_eq_nil_iff, Nat.digits_eq_nil_iff_eq_zero]
    exact h0

/-- The text of a natural number starts with a digit, so it carries no sign. -/
theorem splitSign_decimal (n : ℕ) : splitSign (decimal n) = (false, decimal n) := by
  have hdigit : ∀ c ∈ decimal n, 48 ≤ c := by
    intro c hc
    unfold decimal at hc
    split at hc
    · rw [mem_singleton.mp hc]
      decide
    · obtain ⟨d, hd, rfl⟩ := mem_map.mp hc
      have hlt : d < 10 := Nat.digits_lt_base (by omega) (mem_reverse.mp hd)
      interval_cases d <;> decide
  unfold splitSign
  split
  next s heq => exact absurd (hdigit 43 (heq ▸ mem_cons_self)) (by decide)
  next s heq => exact absurd (hdigit 45 (heq ▸ mem_cons_self)) (by decide)
  next => rfl

/-- **A number in range is read back from its text.** -/
theorem parseInt_formatInt {n : ℤ} (hlo : -2 ^ 63 ≤ n) (hhi : n < 2 ^ 63) :
    parseInt (formatInt n) = (n, none) := by
  unfold formatInt parseInt
  by_cases hneg : n < 0
  · have hsign : splitSign (45 :: decimal n.natAbs) = (true, decimal n.natAbs) := rfl
    rw [if_pos hneg, hsign, parseUint_decimal (by omega)]
    have hcut : ¬ 2 ^ 63 < n.natAbs := by omega
    simp only [cutoff, Bool.not_true, Bool.false_eq_true, false_and, hcut, and_false, if_false,
      if_true]
    exact Prod.ext (by show -(n.natAbs : ℤ) = n; omega) rfl
  · rw [if_neg hneg, splitSign_decimal, parseUint_decimal (by omega)]
    have hcut : ¬ 2 ^ 63 ≤ n.natAbs := by omega
    simp only [cutoff, Bool.not_false, hcut, and_false, Bool.false_eq_true, false_and, if_false]
    exact Prod.ext (by show (n.natAbs : ℤ) = n; omega) rfl

theorem range_of_parseInt {s : Bytes} {n : ℤ} (h : parseInt s = (n, none)) :
    -2 ^ 63 ≤ n ∧ n < 2 ^ 63 := by
  have hcut : ∀ {neg un}, cutoff neg un = (n, none) → -2 ^ 63 ≤ n ∧ n < 2 ^ 63 := by
    intro neg un h
    unfold cutoff at h
    split at h
    · cases h
    split at h
    · cases h
    rename_i hpos hneg
    obtain rfl : (if neg then -(un : ℤ) else un) = n := congrArg Prod.fst h
    cases neg with
    | false =>
      have hlt : un < 2 ^ 63 := by simpa using hpos
      exact ⟨by simp only [Bool.false_eq_true, if_false]; omega,
        by simp only [Bool.false_eq_true, if_false]; omega⟩
    | true =>
      have hle : un ≤ 2 ^ 63 := by simpa using hneg
      exact ⟨by simp only [if_true]; omega, by simp only [if_true]; omega⟩
  unfold parseInt at h
  split at h
  · cases h
  · exact hcut h
  · exact hcut h

/-! ### The database -/

/-- **The cast of text to `bigint`**, the server's: which spellings it takes beside plain decimals
(blanks around them, other bases) differs between its versions. -/
structure BigintInput where
  read : Bytes → Option ℤ
  /-- A sign and decimal digits, in range, are read as what they say. -/
  reads_decimal : ∀ s n, parseInt s = (n, none) → read s = some n

/-- The cast that takes plain decimals and nothing else. -/
def BigintInput.plain : BigintInput where
  read s :=
    match parseInt s with
    | (n, none) => some n
    | (_, some _) => none
  reads_decimal s n h := by simp only [h]

theorem BigintInput.read_formatInt (B : BigintInput) {n : ℤ} (hlo : -2 ^ 63 ≤ n)
    (hhi : n < 2 ^ 63) :
    B.read (formatInt n) = some n :=
  B.reads_decimal _ _ (parseInt_formatInt hlo hhi)

end Strconv
