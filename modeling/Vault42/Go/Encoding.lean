import Vault42.Cache.Decimal

/-!
# Texts of the Go standard library

A Go string is a sequence of bytes. Here are the functions of `strings`, `encoding/base64` and
`encoding/json` that the token gate reads a request with: cutting at a byte, the strict unpadded URL
alphabet of base64, and JSON as `encoding/json` scans and unquotes it. Bytes that are not UTF-8 are
replaced inside a JSON string, a lone surrogate escape is too, and of two members of one name both
are kept: which one counts is for the reader of the value to say.

`encoding/json` gives up on a value nested ten thousand deep; no text short enough for the gate is.
-/

namespace Go

open Strconv (Bytes)

/-- The bytes of a literal. -/
def text (s : String) : Bytes := s.toList.flatMap String.utf8EncodeChar

/-! ### Cutting -/

/-- `strings.Cut` at a byte: what is before the first one, and what is after it. -/
def cut (sep : UInt8) : Bytes → Option (Bytes × Bytes)
  | [] => none
  | b :: s => if b = sep then some ([], s) else (cut sep s).map fun (x, y) => (b :: x, y)

theorem cut_eq_some {sep : UInt8} {s x y : Bytes} (h : cut sep s = some (x, y)) :
    s = x ++ sep :: y ∧ sep ∉ x := by
  induction s generalizing x with
  | nil => cases h
  | cons b s ih =>
    rw [cut] at h
    split at h
    next hb =>
      cases h
      exact ⟨by rw [hb, List.nil_append], List.not_mem_nil⟩
    next hb =>
      obtain ⟨⟨x', y'⟩, hcut, heq⟩ := Option.map_eq_some_iff.mp h
      cases heq
      obtain ⟨rfl, hx⟩ := ih hcut
      exact ⟨rfl, fun hmem => (List.mem_cons.mp hmem).elim (fun heq => hb heq.symm) hx⟩

theorem cut_eq_none {sep : UInt8} {s : Bytes} (h : cut sep s = none) : sep ∉ s := by
  induction s with
  | nil => exact List.not_mem_nil
  | cons b s ih =>
    rw [cut] at h
    split at h
    · cases h
    next hb =>
      have hs := ih (Option.map_eq_none_iff.mp h)
      exact fun hmem => (List.mem_cons.mp hmem).elim (fun heq => hb heq.symm) hs

/-! ### Base64 -/

/-- The value of a character of the URL alphabet. -/
def base64Value (c : UInt8) : Option ℕ :=
  if 65 ≤ c ∧ c ≤ 90 then some (c.toNat - 65)
  else if 97 ≤ c ∧ c ≤ 122 then some (c.toNat - 97 + 26)
  else if 48 ≤ c ∧ c ≤ 57 then some (c.toNat - 48 + 52)
  else if c = 45 then some 62
  else if c = 95 then some 63
  else none

/-- The bytes four characters at a time. The last group may be shorter, and its unused bits are zero
(`Strict`). -/
def base64Groups : List ℕ → Option Bytes
  | [] => some []
  | [_] => none
  | [a, b] => if b % 16 = 0 then some [UInt8.ofNat (a * 4 + b / 16)] else none
  | [a, b, c] =>
    if c % 4 = 0 then some [UInt8.ofNat (a * 4 + b / 16), UInt8.ofNat (b % 16 * 16 + c / 4)]
    else none
  | a :: b :: c :: d :: rest =>
    (base64Groups rest).map fun bytes =>
      UInt8.ofNat (a * 4 + b / 16) :: UInt8.ofNat (b % 16 * 16 + c / 4) ::
        UInt8.ofNat (c % 4 * 64 + d) :: bytes

/-- `base64.RawURLEncoding.Strict().DecodeString`, on a text without line breaks. -/
def base64Decode (s : Bytes) : Option Bytes := (s.mapM base64Value).bind base64Groups

/-- The unused bits of the last group are cleared. -/
def base64Trim : List ℕ → List ℕ
  | [a, b] => [a, b / 16 * 16]
  | [a, b, c] => [a, b, c / 4 * 4]
  | a :: b :: c :: d :: rest => a :: b :: c :: d :: base64Trim rest
  | vs => vs

/-- `base64.RawURLEncoding.DecodeString`: line breaks are passed over, unused bits ignored. -/
def base64DecodeLax (s : Bytes) : Option Bytes :=
  ((s.filter fun b => b != 13 && b != 10).mapM base64Value).bind fun vs =>
    base64Groups (base64Trim vs)

/-! ### UTF-8 -/

def continuation (b : UInt8) : Bool := 128 ≤ b && b ≤ 191

/-- The second byte of a sequence, by the first one: `utf8.acceptRanges`. -/
def acceptsSecond (b c : UInt8) : Bool :=
  if b = 224 then 160 ≤ c && c ≤ 191
  else if b = 237 then 128 ≤ c && c ≤ 159
  else if b = 240 then 144 ≤ c && c ≤ 191
  else if b = 244 then 128 ≤ c && c ≤ 143
  else continuation c

/-- `utf8.DecodeRune`: how many bytes the first character has, none if they are no character. -/
def runeLength : Bytes → Option ℕ
  | [] => none
  | b :: s =>
    if b < 128 then some 1
    else if 194 ≤ b && b ≤ 223 then
      match s with
      | c :: _ => if continuation c then some 2 else none
      | _ => none
    else if 224 ≤ b && b ≤ 239 then
      match s with
      | c :: d :: _ => if acceptsSecond b c && continuation d then some 3 else none
      | _ => none
    else if 240 ≤ b && b ≤ 244 then
      match s with
      | c :: d :: e :: _ =>
        if acceptsSecond b c && continuation d && continuation e then some 4 else none
      | _ => none
    else none

/-- The bytes of `U+FFFD`. -/
def replacement : Bytes := [239, 191, 189]

/-! ### JSON -/

/-- A JSON value. A number keeps its text, an object its members in order. -/
inductive Json where
  | null
  | bool (b : Bool)
  | number (s : Bytes)
  | string (s : Bytes)
  | array (elements : List Json)
  | object (members : List (Bytes × Json))

namespace Json

/-- The value of a member: of two of one name, the last one. -/
def lookup (members : List (Bytes × Json)) (name : Bytes) : Option Json :=
  (members.reverse.find? fun m => m.1 == name).map Prod.snd

def space (b : UInt8) : Bool := b == 32 || b == 9 || b == 13 || b == 10

def skipSpace (s : Bytes) : Bytes := s.dropWhile space

def digit (b : UInt8) : Bool := 48 ≤ b && b ≤ 57

/-- A run of digits, at least one. -/
def digits (s : Bytes) : Option (Bytes × Bytes) :=
  if (s.takeWhile digit).isEmpty then none else some (s.takeWhile digit, s.dropWhile digit)

/-- The integer part: zero, or a run of digits that does not start with one. -/
def integer : Bytes → Option (Bytes × Bytes)
  | 48 :: s => some ([48], s)
  | s => digits s

def fraction : Bytes → Option (Bytes × Bytes)
  | 46 :: s => (digits s).map fun (ds, rest) => (46 :: ds, rest)
  | s => some ([], s)

def exponent : Bytes → Option (Bytes × Bytes)
  | e :: s =>
    if e = 101 || e = 69 then
      match s with
      | sign :: s' =>
        if sign = 43 || sign = 45 then (digits s').map fun (ds, rest) => (e :: sign :: ds, rest)
        else (digits s).map fun (ds, rest) => (e :: ds, rest)
      | [] => none
    else some ([], e :: s)
  | [] => some ([], [])

/-- A number, and what follows it. -/
def scanNumber (s : Bytes) : Option (Bytes × Bytes) := do
  let (sign, s) : Bytes × Bytes := match s with
    | 45 :: s => ([45], s)
    | s => ([], s)
  let (int, s) ← integer s
  let (frac, s) ← fraction s
  let (exp, s) ← exponent s
  pure (sign ++ int ++ frac ++ exp, s)

def isValidNumber (s : Bytes) : Bool :=
  match scanNumber s with
  | some (_, []) => true
  | _ => false

def hexValue (c : UInt8) : Option ℕ :=
  if 48 ≤ c ∧ c ≤ 57 then some (c.toNat - 48)
  else if 97 ≤ c ∧ c ≤ 102 then some (c.toNat - 97 + 10)
  else if 65 ≤ c ∧ c ≤ 70 then some (c.toNat - 65 + 10)
  else none

/-- The four digits of a `\u` escape. -/
def hex4 : Bytes → Option (ℕ × Bytes)
  | a :: b :: c :: d :: s => do
    pure ((((← hexValue a) * 16 + (← hexValue b)) * 16 + (← hexValue c)) * 16 + (← hexValue d), s)
  | _ => none

/-- The second half of a surrogate pair, when one follows. -/
def lowSurrogate : Bytes → Option (ℕ × Bytes)
  | 92 :: 117 :: s => do
    let (n, s) ← hex4 s
    if 0xDC00 ≤ n ∧ n < 0xE000 then pure (n, s) else none
  | _ => none

/-- The character of a `\u` escape and what follows it. A surrogate without its other half is
replaced. -/
def escaped (n : ℕ) (s : Bytes) : Bytes × Bytes :=
  if 0xD800 ≤ n ∧ n < 0xDC00 then
    match lowSurrogate s with
    | some (m, s) =>
      (String.utf8EncodeChar (Char.ofNat (0x10000 + (n - 0xD800) * 0x400 + (m - 0xDC00))), s)
    | none => (replacement, s)
  else if 0xDC00 ≤ n ∧ n < 0xE000 then (replacement, s)
  else (String.utf8EncodeChar (Char.ofNat n), s)

/-- What a one-letter escape stands for. -/
def unescape (c : UInt8) : Option UInt8 :=
  if c = 34 || c = 92 || c = 47 then some c
  else if c = 98 then some 8
  else if c = 102 then some 12
  else if c = 110 then some 10
  else if c = 114 then some 13
  else if c = 116 then some 9
  else none

/-- The rest of a string up to its closing quote, unquoted, and what follows it. -/
def scanString : ℕ → Bytes → Option (Bytes × Bytes)
  | 0, _ => none
  | _ + 1, [] => none
  | n + 1, b :: s =>
    if b = 34 then some ([], s)
    else if b < 32 then none
    else if b = 92 then
      match s with
      | 117 :: s => do
        let (code, s) ← hex4 s
        let (bytes, rest) ← scanString n (escaped code s).2
        pure ((escaped code s).1 ++ bytes, rest)
      | c :: s => do
        let (bytes, rest) ← scanString n s
        pure ((← unescape c) :: bytes, rest)
      | [] => none
    else
      match runeLength (b :: s) with
      | none => (scanString n s).map fun (bytes, rest) => (replacement ++ bytes, rest)
      | some k => (scanString n ((b :: s).drop k)).map fun (bytes, rest) =>
          ((b :: s).take k ++ bytes, rest)

mutual

/-- A value, and what follows it. -/
def value : ℕ → Bytes → Option (Json × Bytes)
  | 0, _ => none
  | n + 1, s =>
    match skipSpace s with
    | [] => none
    | b :: s =>
      if b = 123 then
        match skipSpace s with
        | 125 :: s => some (.object [], s)
        | s => (members n s).map fun (ms, rest) => (.object ms, rest)
      else if b = 91 then
        match skipSpace s with
        | 93 :: s => some (.array [], s)
        | s => (elements n s).map fun (xs, rest) => (.array xs, rest)
      else if b = 34 then
        (scanString (s.length + 1) s).map fun (bytes, rest) => (.string bytes, rest)
      else if b = 116 then
        match s with
        | 114 :: 117 :: 101 :: s => some (.bool true, s)
        | _ => none
      else if b = 102 then
        match s with
        | 97 :: 108 :: 115 :: 101 :: s => some (.bool false, s)
        | _ => none
      else if b = 110 then
        match s with
        | 117 :: 108 :: 108 :: s => some (.null, s)
        | _ => none
      else (scanNumber (b :: s)).map fun (bytes, rest) => (.number bytes, rest)

/-- The elements of an array, up to its closing bracket. -/
def elements : ℕ → Bytes → Option (List Json × Bytes)
  | 0, _ => none
  | n + 1, s => do
    let (x, s) ← value n s
    match skipSpace s with
    | 44 :: s =>
      let (xs, rest) ← elements n s
      pure (x :: xs, rest)
    | 93 :: s => pure ([x], s)
    | _ => none

/-- The members of an object, up to its closing brace. -/
def members : ℕ → Bytes → Option (List (Bytes × Json) × Bytes)
  | 0, _ => none
  | n + 1, s =>
    match skipSpace s with
    | 34 :: s => do
      let (name, s) ← scanString (s.length + 1) s
      match skipSpace s with
      | 58 :: s =>
        let (x, s) ← value n s
        match skipSpace s with
        | 44 :: s =>
          let (ms, rest) ← members n s
          pure ((name, x) :: ms, rest)
        | 125 :: s => pure ([(name, x)], s)
        | _ => none
      | _ => none
    | _ => none

end

/-- The one value a text is, with nothing but white space around it. -/
def parse (s : Bytes) : Option Json := do
  let (x, rest) ← value (2 * s.length + 2) s
  if (skipSpace rest).isEmpty then pure x else none

end Json

end Go
