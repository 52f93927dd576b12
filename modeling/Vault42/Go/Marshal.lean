import Vault42.Go.Quote

/-!
# Writing JSON

`json.Marshal` of a value, and that it is the inverse of the reader up to the repair of its strings
(`parse_marshal`). Every step of the reader that the written text drives is followed once: a string,
a number, the elements of an array, the members of an object. The reader counts its steps down, and
a text is always long enough for the steps it takes.
-/

namespace Go.Json

open List Option

open Strconv (Bytes)

/-! ### Values -/

mutual

/-- `json.Marshal` of a value. A number is its text. -/
def marshal : Json → Bytes
  | .null => [110, 117, 108, 108]
  | .bool true => [116, 114, 117, 101]
  | .bool false => [102, 97, 108, 115, 101]
  | .number s => s
  | .string s => quote s
  | .array xs => 91 :: (marshalElements xs ++ [93])
  | .object ms => 123 :: (marshalMembers ms ++ [125])

/-- The elements of an array, with commas between them. -/
def marshalElements : List Json → Bytes
  | [] => []
  | [x] => marshal x
  | x :: xs => marshal x ++ 44 :: marshalElements xs

/-- The members of an object, with commas between them. -/
def marshalMembers : List (Bytes × Json) → Bytes
  | [] => []
  | [(name, x)] => quote name ++ 58 :: marshal x
  | (name, x) :: ms => quote name ++ 58 :: (marshal x ++ 44 :: marshalMembers ms)

end

mutual

/-- What is read back of a value. -/
def repaired : Json → Json
  | .null => .null
  | .bool b => .bool b
  | .number s => .number s
  | .string s => .string (repair s)
  | .array xs => .array (repairedElements xs)
  | .object ms => .object (repairedMembers ms)

def repairedElements : List Json → List Json
  | [] => []
  | x :: xs => repaired x :: repairedElements xs

def repairedMembers : List (Bytes × Json) → List (Bytes × Json)
  | [] => []
  | (name, x) :: ms => (repair name, repaired x) :: repairedMembers ms

end

/-- What may follow a number inside a value. -/
def Ends (rest : Bytes) : Prop := ∀ b ∈ rest.head?, b = 44 ∨ b = 93 ∨ b = 125

/-- The text of a number: the scan takes all of it, and no more. -/
structure Numeral (s : Bytes) : Prop where
  scan : ∀ rest, Ends rest → scanNumber (s ++ rest) = some (s, rest)
  head : ∃ b t, s = b :: t ∧ (b = 45 ∨ digit b)

mutual

/-- Every number of the value is the text of one. -/
def Sound : Json → Prop
  | .number s => Numeral s
  | .array xs => SoundElements xs
  | .object ms => SoundMembers ms
  | _ => True

def SoundElements : List Json → Prop
  | [] => True
  | x :: xs => Sound x ∧ SoundElements xs

def SoundMembers : List (Bytes × Json) → Prop
  | [] => True
  | (_, x) :: ms => Sound x ∧ SoundMembers ms

end

variable {b : UInt8}

theorem skipSpace_cons (hb : space b = false) (s : Bytes) : skipSpace (b :: s) = b :: s := by
  rw [skipSpace, dropWhile_cons_of_neg (by simp [hb])]

theorem digit_range (h : digit b) : 48 ≤ b.toNat ∧ b.toNat ≤ 57 := by
  rw [digit, Bool.and_eq_true, decide_eq_true_eq, decide_eq_true_eq] at h
  exact ⟨UInt8.le_iff_toNat_le.mp h.1, UInt8.le_iff_toNat_le.mp h.2⟩

/-- What a number starts with is nothing else's first byte. -/
theorem numeralHead_ne {c : UInt8} (hb : b = 45 ∨ digit b) (hsign : c.toNat ≠ 45)
    (hrange : c.toNat < 48 ∨ 57 < c.toNat) : b ≠ c := by
  rintro rfl
  rcases hb with rfl | hdigit
  · exact hsign rfl
  · have := digit_range hdigit
    omega

theorem numeralHead_space (hb : b = 45 ∨ digit b) : space b = false := by
  simp only [space, Bool.or_eq_false_iff, beq_eq_false_iff_ne]
  exact ⟨⟨⟨numeralHead_ne hb (by decide) (by decide), numeralHead_ne hb (by decide) (by decide)⟩,
    numeralHead_ne hb (by decide) (by decide)⟩, numeralHead_ne hb (by decide) (by decide)⟩

variable {rest : Bytes}

theorem value_numeral {s : Bytes} (h : Numeral s) (hrest : Ends rest) (n : ℕ) :
    value (n + 1) (s ++ rest) = some (.number s, rest) := by
  obtain ⟨b, t, rfl, hb⟩ := h.head
  have hscan := h.scan rest hrest
  have hne : ∀ c, c.toNat ≠ 45 → (c.toNat < 48 ∨ 57 < c.toNat) → b ≠ c :=
    fun c => numeralHead_ne hb
  rw [cons_append] at hscan ⊢
  rw [value, skipSpace_cons (numeralHead_space hb)]
  simp only [if_neg (hne 123 (by decide) (by decide)), if_neg (hne 91 (by decide) (by decide)),
    if_neg (hne 34 (by decide) (by decide)), if_neg (hne 116 (by decide) (by decide)),
    if_neg (hne 102 (by decide) (by decide)), if_neg (hne 110 (by decide) (by decide)), hscan]
  rfl

theorem marshal_head {j : Json} (hj : Sound j) :
    ∃ b t, marshal j = b :: t ∧ space b = false ∧ b ≠ 93 := by
  cases j with
  | null | string | array | object => exact ⟨_, _, rfl, rfl, by decide⟩
  | bool b => cases b <;> exact ⟨_, _, rfl, rfl, by decide⟩
  | number =>
    obtain ⟨b, t, hs, hb⟩ := Numeral.head hj
    exact ⟨b, t, hs, numeralHead_space hb, numeralHead_ne hb (by decide) (by decide)⟩

theorem value_quote (s rest : Bytes) (n : ℕ) :
    value (n + 1) (quote s ++ rest) = some (.string (repair s), rest) := by
  rw [quote, cons_append, append_assoc, singleton_append, value,
    skipSpace_cons (by decide)]
  simp only [if_neg (show (34 : UInt8) ≠ 123 by decide), if_neg (show (34 : UInt8) ≠ 91 by decide),
    if_true]
  rw [scanString_quote s rest (by omega)]
  rfl

theorem marshalElements_head {xs : List Json} (hne : xs ≠ []) (hxs : SoundElements xs)
    (rest : Bytes) :
    ∃ b t, marshalElements xs ++ rest = b :: t ∧ space b = false ∧ b ≠ 93 := by
  match xs with
  | [x] =>
    obtain ⟨b, t, hx, hb⟩ := marshal_head hxs.1
    exact ⟨b, t ++ rest, by rw [marshalElements, hx]; rfl, hb⟩
  | x :: y :: ys =>
    obtain ⟨b, t, hx, hb⟩ := marshal_head hxs.1
    refine ⟨b, t ++ 44 :: marshalElements (y :: ys) ++ rest, ?_, hb⟩
    rw [marshalElements, hx]
    · rfl
    · exact cons_ne_nil _ _

theorem marshalMembers_head {ms : List (Bytes × Json)} (hne : ms ≠ []) (rest : Bytes) :
    ∃ t, marshalMembers ms ++ rest = 34 :: t := by
  match ms with
  | [(_, _)] | (_, _) :: _ :: _ => exact ⟨_, rfl⟩

theorem ends_comma : Ends (44 :: rest) := by
  rintro b ⟨⟩
  exact .inl rfl

theorem ends_bracket : Ends (93 :: rest) := by
  rintro b ⟨⟩
  exact .inr (.inl rfl)

theorem ends_brace : Ends (125 :: rest) := by
  rintro b ⟨⟩
  exact .inr (.inr rfl)

/-- The name of a member and its colon. -/
theorem members_name (name s : Bytes) (n : ℕ) :
    members (n + 1) (quote name ++ 58 :: s) = (value n s).bind fun (x, s) =>
      match skipSpace s with
      | 44 :: s => (members n s).bind fun (ms, rest) => some ((repair name, x) :: ms, rest)
      | 125 :: s => some ([(repair name, x)], s)
      | _ => none := by
  rw [quote, cons_append, append_assoc, singleton_append, members,
    skipSpace_cons (by decide)]
  simp only [scanString_quote name (58 :: s) (Nat.lt_succ_self _), bind_eq_bind, bind_some,
    skipSpace_cons (show space 58 = false by decide)]
  rfl

mutual

/-- A value is read back, whatever follows it. -/
theorem value_marshal : ∀ j, Sound j → ∀ {rest : Bytes}, Ends rest → ∀ {n : ℕ},
    2 * (marshal j).length + 1 ≤ n → value n (marshal j ++ rest) = some (repaired j, rest)
  | .null, _, rest, _, n + 1, _ => by simp [marshal, value, skipSpace, space, repaired]
  | .bool true, _, rest, _, n + 1, _ => by simp [marshal, value, skipSpace, space, repaired]
  | .bool false, _, rest, _, n + 1, _ => by simp [marshal, value, skipSpace, space, repaired]
  | .number s, hj, rest, hrest, n + 1, _ => by
    rw [marshal, repaired]
    exact value_numeral hj hrest n
  | .string s, _, rest, _, n + 1, _ => by
    rw [marshal, repaired]
    exact value_quote s rest n
  | .array xs, hj, rest, _, n + 1, hn => by
    rw [marshal, repaired, cons_append, append_assoc, singleton_append, value,
      skipSpace_cons (by decide)]
    simp only [if_neg (show (91 : UInt8) ≠ 123 by decide), if_true]
    rw [marshal, length_cons, length_append] at hn
    by_cases hnil : xs = []
    · subst hnil
      rfl
    · obtain ⟨b, t, heq, hspace, hclose⟩ := marshalElements_head hnil hj (93 :: rest)
      have hread := elements_marshal xs hnil hj rest (n := n) (by omega)
      rw [heq] at hread ⊢
      rw [skipSpace_cons hspace]
      split
      next heq' => exact absurd (cons.inj heq').1 hclose
      next => rw [hread, map_some]
  | .object ms, hj, rest, _, n + 1, hn => by
    rw [marshal, repaired, cons_append, append_assoc, singleton_append, value,
      skipSpace_cons (by decide)]
    simp only [if_true]
    rw [marshal, length_cons, length_append] at hn
    by_cases hnil : ms = []
    · subst hnil
      rfl
    · obtain ⟨t, heq⟩ := marshalMembers_head hnil (125 :: rest)
      have hread := members_marshal ms hnil hj rest (n := n) (by omega)
      rw [heq] at hread ⊢
      rw [skipSpace_cons (by decide)]
      split
      next heq' => exact absurd (cons.inj heq').1 (by decide)
      next => rw [hread, map_some]

theorem elements_marshal : ∀ xs, xs ≠ [] → SoundElements xs → ∀ rest {n : ℕ},
    2 * (marshalElements xs).length + 2 ≤ n →
    elements n (marshalElements xs ++ 93 :: rest) = some (repairedElements xs, rest)
  | [x], _, hxs, rest, n + 1, hn => by
    rw [marshalElements] at hn ⊢
    rw [elements, value_marshal x hxs.1 ends_bracket (by omega)]
    rfl
  | x :: y :: ys, _, hxs, rest, n + 1, hn => by
    rw [marshalElements] at hn ⊢
    · rw [length_append, length_cons] at hn
      rw [append_assoc, cons_append, elements,
        value_marshal x hxs.1 ends_comma (by omega)]
      simp only [bind_eq_bind, bind_some, skipSpace_cons (show space 44 = false by decide)]
      rw [elements_marshal (y :: ys) (cons_ne_nil _ _) hxs.2 rest (by omega)]
      rfl
    all_goals exact cons_ne_nil _ _

theorem members_marshal : ∀ ms, ms ≠ [] → SoundMembers ms →
    ∀ rest {n : ℕ}, 2 * (marshalMembers ms).length + 2 ≤ n →
    members n (marshalMembers ms ++ 125 :: rest) = some (repairedMembers ms, rest)
  | [(name, x)], _, hms, rest, n + 1, hn => by
    rw [marshalMembers] at hn ⊢
    rw [length_append, length_cons] at hn
    rw [append_assoc, cons_append, members_name,
      value_marshal x hms.1 ends_brace (by omega)]
    rfl
  | (name, x) :: m :: ms, _, hms, rest, n + 1, hn => by
    rw [marshalMembers] at hn ⊢
    · rw [length_append, length_cons, length_append, length_cons] at hn
      rw [append_assoc, cons_append, append_assoc, cons_append, members_name,
        value_marshal x hms.1 ends_comma (by omega)]
      simp only [bind_some, skipSpace_cons (show space 44 = false by decide)]
      rw [members_marshal (m :: ms) (cons_ne_nil _ _) hms.2 rest (by omega)]
      rfl
    all_goals exact cons_ne_nil _ _

end

/-- **Of a value its repair is read back.** -/
theorem parse_marshal {j : Json} (hj : Sound j) : parse (marshal j) = some (repaired j) := by
  have hend : Ends [] := nofun
  have hread := value_marshal j hj hend (n := 2 * (marshal j).length + 2) (by omega)
  rw [append_nil] at hread
  rw [parse, hread]
  rfl

/-! ### Numbers -/

theorem digit_of_mem_decimal {n : ℕ} {c : UInt8} (hc : c ∈ Strconv.decimal n) : digit c := by
  unfold Strconv.decimal at hc
  split at hc
  · rw [mem_singleton.mp hc]
    rfl
  · obtain ⟨d, hd, rfl⟩ := mem_map.mp hc
    have hlt : d < 10 := Nat.digits_lt_base (by omega) (mem_reverse.mp hd)
    interval_cases d <;> rfl

theorem decimal_head (n : ℕ) : ∃ b t, Strconv.decimal n = b :: t ∧ digit b := by
  have hne : Strconv.decimal n ≠ [] := by
    unfold Strconv.decimal
    split
    · exact cons_ne_nil _ _
    next h0 => simpa [Nat.digits_eq_nil_iff_eq_zero] using h0
  obtain ⟨b, t, hb⟩ := exists_cons_of_ne_nil hne
  exact ⟨b, t, hb, digit_of_mem_decimal (hb ▸ mem_cons_self)⟩

theorem Ends.not_digit (h : Ends rest) : rest.takeWhile digit = [] := by
  cases rest with
  | nil => rfl
  | cons b =>
    rcases h b rfl with rfl | rfl | rfl <;> rfl

theorem digits_append {ds : Bytes} (hne : ds ≠ []) (hds : ∀ c ∈ ds, digit c)
    (hrest : Ends rest) : digits (ds ++ rest) = some (ds, rest) := by
  have htake : (ds ++ rest).takeWhile digit = ds := by
    rw [takeWhile_append_of_pos hds, hrest.not_digit, append_nil]
  have hdrop : (ds ++ rest).dropWhile digit = rest := by
    have hall := takeWhile_append_dropWhile (p := digit) (l := ds ++ rest)
    rw [htake] at hall
    exact append_cancel_left hall
  rw [digits, htake, hdrop, if_neg (by simpa using hne)]

/-- A number that is not zero does not start with a zero. -/
theorem integer_decimal {n : ℕ} (hrest : Ends rest) :
    integer (Strconv.decimal n ++ rest) = some (Strconv.decimal n, rest) := by
  have hdigits : ∀ c ∈ Strconv.decimal n, digit c := fun c => digit_of_mem_decimal
  by_cases h0 : n = 0
  · subst h0
    rfl
  have hlead : ∀ t, Strconv.decimal n ≠ 48 :: t := by
    intro t heq
    rw [Strconv.decimal, if_neg h0] at heq
    have hdne : (Nat.digits 10 n).reverse ≠ [] := by
      rw [Ne, reverse_eq_nil_iff, Nat.digits_eq_nil_iff_eq_zero]
      exact h0
    obtain ⟨d, ds, hd⟩ := exists_cons_of_ne_nil hdne
    have hmem : d ∈ Nat.digits 10 n := mem_reverse.mp (hd ▸ mem_cons_self)
    have hlast : d ≠ 0 := by
      have hget := Nat.getLast_digit_ne_zero 10 h0
      have hhead : (Nat.digits 10 n).getLast (Nat.digits_ne_nil_iff_ne_zero.mpr h0) = d := by
        rw [getLast_eq_head_reverse]
        simp [hd]
      rwa [hhead] at hget
    rw [hd, map_cons] at heq
    have hlt : d < 10 := Nat.digits_lt_base (by omega) hmem
    have hzero := (cons.inj heq).1
    interval_cases d
    · exact hlast rfl
    all_goals exact absurd hzero (by decide)
  obtain ⟨c, t, hc, -⟩ := decimal_head n
  unfold integer
  split
  next s heq =>
    rw [hc, cons_append] at heq
    exact absurd hc ((cons.inj heq).1 ▸ hlead t)
  next => exact digits_append (hc ▸ cons_ne_nil _ _) hdigits hrest

theorem Ends.fraction (h : Ends rest) : fraction rest = some ([], rest) := by
  cases rest with
  | nil => rfl
  | cons b => rcases h b rfl with rfl | rfl | rfl <;> rfl

theorem Ends.exponent (h : Ends rest) : exponent rest = some ([], rest) := by
  cases rest with
  | nil => rfl
  | cons b => rcases h b rfl with rfl | rfl | rfl <;> rfl

/-- **An integer is written as a number.** -/
theorem numeral_formatInt {n : ℤ} : Numeral (Strconv.formatInt n) := by
  obtain ⟨b, t, hb, hdigit⟩ := decimal_head n.natAbs
  unfold Strconv.formatInt
  split_ifs with hneg
  · refine ⟨fun rest hrest => ?_, ⟨45, _, rfl, .inl rfl⟩⟩
    rw [cons_append, scanNumber]
    simp only [integer_decimal hrest, hrest.fraction, hrest.exponent, bind_eq_bind,
      bind_some, append_nil]
    rfl
  · refine ⟨fun rest hrest => ?_, ⟨b, t, hb, .inr hdigit⟩⟩
    rw [scanNumber]
    · simp only [integer_decimal hrest, hrest.fraction, hrest.exponent, bind_eq_bind,
        bind_some, append_nil]
      rfl
    · intro s heq
      rw [hb, cons_append] at heq
      rw [(cons.inj heq).1] at hdigit
      cases hdigit

end Go.Json
