import Vault42.Go.Text

/-!
# Addresses of the Go standard library

The functions of `net` with which a request's addresses are read: `SplitHostPort`, `ParseIP` as
`netip.ParseAddr` does it, `IP.String`, and membership in a network. An address is its sixteen
bytes, an IPv4 address in its mapped form, as `ParseIP` returns it.

`ParseIP` refuses an address with a zone, and `ParseAddr` reads everything after the first `%` as
one, so a text with a `%` is no address whatever else it holds.
-/

namespace Go

open List

open Strconv (Bytes)

/-! ### Hosts and ports -/

/-- What is before the last occurrence of a byte, and what is after it. -/
def cutLast (sep : UInt8) (s : Bytes) : Option (Bytes × Bytes) :=
  (cut sep s.reverse).map fun (x, y) => (y.reverse, x.reverse)

/-- `net.SplitHostPort`; `none` is an error. The bytes are `[`, `]` and `:`. -/
def splitHostPort (hostport : Bytes) : Option (Bytes × Bytes) := do
  let (before, port) ← cutLast 58 hostport
  if hostport.head? = some 91 then
    let (host, rest) ← cut 93 hostport.tail
    -- the first `]` stands just before the last colon
    if rest = 58 :: port ∧ 91 ∉ hostport.tail ∧ 93 ∉ rest then some (host, port) else none
  else if 58 ∉ before ∧ 91 ∉ hostport ∧ 93 ∉ hostport then some (before, port)
  else none

/-! ### Addresses -/

/-- `net.IP`: sixteen bytes where it comes from `ParseIP`. -/
abbrev IP := Bytes

/-- The first twelve bytes of a mapped address. -/
def v4InV6Prefix : Bytes := [0, 0, 0, 0, 0, 0, 0, 0, 0, 0, 255, 255]

def IP.to4 (ip : IP) : Option Bytes :=
  if ip.length = 4 then some ip
  else if ip.length = 16 ∧ ip.take 12 = v4InV6Prefix then some (ip.drop 12)
  else none

/-- The value of a decimal number, digit by digit. -/
def decimalValue (s : Bytes) : ℕ := s.foldl (fun n b => n * 10 + (b.toNat - 48)) 0

/-- One field of a dotted address: no leading zero, and at most 255. -/
def octet (s : Bytes) : Option UInt8 :=
  if s ≠ [] ∧ s.all Json.digit ∧ (s.head? = some 48 → s.length = 1) ∧ s.length ≤ 3 ∧
    decimalValue s ≤ 255
  then some (decimalValue s).toUInt8 else none

def parseIPv4Fields (s : Bytes) : Option Bytes :=
  match s.splitOn 46 with
  | [a, b, c, d] => do some [← octet a, ← octet b, ← octet c, ← octet d]
  | _ => none

/-- The hexadecimal digits a text starts with, and what is after them. -/
def hexDigits (s : Bytes) : List ℕ × Bytes :=
  ((s.takeWhile fun b => (Json.hexValue b).isSome).filterMap Json.hexValue,
    s.dropWhile fun b => (Json.hexValue b).isSome)

/-- The loop of `parseIPv6`: `ip` holds the bytes read so far and `ellipsis` how many there were at
the `::`. Each round but the last adds two bytes, so eight rounds fill the address. -/
def parseIPv6Groups : ℕ → Bytes → Option ℕ → Bytes → Option (Bytes × Option ℕ)
  | 0, ip, ellipsis, s => if s = [] then some (ip, ellipsis) else none
  | fuel + 1, ip, ellipsis, s =>
    match hexDigits s with
    | ([], _) => none
    | (group, rest) =>
      if group.length > 4 then none
      else if rest.head? = some 46 then
        -- an IPv4 address in the last four bytes
        if (ellipsis = none ∧ ip.length ≠ 12) ∨ 16 < ip.length + 4 then none
        else (parseIPv4Fields s).map fun v4 => (ip ++ v4, ellipsis)
      else
        let acc := group.foldl (fun n d => n * 16 + d) 0
        let ip := ip ++ [(acc / 256).toUInt8, acc.toUInt8]
        match rest with
        | [] => some (ip, ellipsis)
        | 58 :: 58 :: rest =>
          if ellipsis.isSome then none
          else if rest = [] then some (ip, some ip.length)
          else parseIPv6Groups fuel ip (some ip.length) rest
        | [58] => none
        | 58 :: rest => parseIPv6Groups fuel ip ellipsis rest
        | _ => none

/-- The bytes of a text without a zone, which may start with the ellipsis. -/
def parseIPv6Fields : Bytes → Option (Bytes × Option ℕ)
  | [58, 58] => some ([], some 0)
  | 58 :: 58 :: rest => parseIPv6Groups 8 [] (some 0) rest
  | s => parseIPv6Groups 8 [] none s

/-- The end of `parseIPv6`: the ellipsis stands for at least one group of zeros. -/
def expandEllipsis : Bytes × Option ℕ → Option IP
  | (ip, none) => if ip.length = 16 then some ip else none
  | (ip, some n) =>
    if ip.length < 16 then some (ip.take n ++ List.replicate (16 - ip.length) 0 ++ ip.drop n)
    else none

/-- `parseIPv6`, of a text without a zone. -/
def parseIPv6 (s : Bytes) : Option IP := (parseIPv6Fields s).bind expandEllipsis

/-- `net.ParseIP`; `none` is `nil`. Which of `.` and `:` comes first says what the text is read
as. -/
def parseIP (s : Bytes) : Option IP :=
  if 37 ∈ s then none
  else
    match s.find? fun b => b == 46 || b == 58 with
    | some 46 => (parseIPv4Fields s).map (v4InV6Prefix ++ ·)
    | some _ => parseIPv6 s
    | none => none

/-! ### What an address is written with -/

/-- A byte of an address: a hexadecimal digit, a dot or a colon. -/
def addressByte (b : UInt8) : Bool := (Json.hexValue b).isSome || b == 46 || b == 58

theorem addressByte_of_digit {b : UInt8} (h : Json.digit b) : addressByte b := by
  simp only [Json.digit, Bool.and_eq_true, decide_eq_true_eq] at h
  rw [addressByte, Json.hexValue, if_pos h]
  rfl

/-- They lie between the dot and the letter `f`, above every space and the comma. -/
theorem addressByte_range {b : UInt8} (h : addressByte b) : 46 ≤ b.toNat ∧ b.toNat ≤ 102 := by
  simp only [addressByte, Bool.or_eq_true, beq_iff_eq] at h
  rcases h with (h | rfl) | rfl
  · unfold Json.hexValue at h
    split at h
    · next hd => simp only [UInt8.le_iff_toNat_le, UInt8.reduceToNat] at hd; lia
    · split at h
      · next hd => simp only [UInt8.le_iff_toNat_le, UInt8.reduceToNat] at hd; lia
      · split at h
        · next hd => simp only [UInt8.le_iff_toNat_le, UInt8.reduceToNat] at hd; lia
        · cases h
  · decide
  · decide

variable {s : Bytes}

theorem octet_digits {x : UInt8} (h : octet s = some x) : s.all Json.digit := by
  unfold octet at h
  split at h
  · next hs => exact hs.2.1
  · cases h

theorem parseIPv4Fields_bytes {v4 : Bytes} (h : parseIPv4Fields s = some v4) :
    ∀ b ∈ s, addressByte b := by
  unfold parseIPv4Fields at h
  split at h
  · next x y z w hsplit =>
    have hs : s = [46].intercalate [x, y, z, w] := by
      rw [← hsplit]
      exact (intercalate_splitOn 46).symm
    simp only [Option.bind_eq_bind, Option.bind_eq_some_iff] at h
    obtain ⟨a, ha, b, hb, c, hc, d, hd, -⟩ := h
    have hoctet : ∀ {t : Bytes} {x : UInt8}, octet t = some x → ∀ b ∈ t, addressByte b :=
      fun ht b hb => addressByte_of_digit (all_eq_true.mp (octet_digits ht) b hb)
    intro e he
    rw [hs] at he
    simp only [intercalate, intersperse, flatten_cons, flatten_nil, append_nil,
      mem_append, mem_singleton] at he
    rcases he with he | rfl | he | rfl | he | rfl | he
    · exact hoctet ha e he
    · rfl
    · exact hoctet hb e he
    · rfl
    · exact hoctet hc e he
    · rfl
    · exact hoctet hd e he
  · cases h

theorem hexDigits_bytes {rest : Bytes} {group : List ℕ} (h : hexDigits s = (group, rest))
    (hrest : ∀ b ∈ rest, addressByte b) : ∀ b ∈ s, addressByte b := by
  intro b hb
  have hs : s = (s.takeWhile fun b => (Json.hexValue b).isSome) ++ rest := by
    have hdrop : (s.dropWhile fun b => (Json.hexValue b).isSome) = rest := congrArg Prod.snd h
    rw [← hdrop, takeWhile_append_dropWhile]
  rw [hs] at hb
  rcases mem_append.mp hb with hb | hb
  · have hhex : (Json.hexValue b).isSome := all_eq_true.mp all_takeWhile b hb
    rw [addressByte, hhex, Bool.true_or, Bool.true_or]
  · exact hrest b hb

theorem parseIPv6Groups_bytes {fuel : ℕ} {ip : Bytes} {ellipsis : Option ℕ} {out : Bytes × Option ℕ}
    (h : parseIPv6Groups fuel ip ellipsis s = some out) : ∀ b ∈ s, addressByte b := by
  induction fuel generalizing ip ellipsis s with
  | zero =>
    rw [parseIPv6Groups] at h
    split at h
    · next hs =>
      rw [hs]
      exact nofun
    · cases h
  | succ fuel ih =>
    rw [parseIPv6Groups] at h
    split at h
    · cases h
    · next group rest _ hex =>
      have hcolon : ∀ {t : Bytes}, (∀ b ∈ t, addressByte b) →
          ∀ b ∈ 58 :: t, addressByte b := fun ht b hb =>
        (mem_cons.mp hb).elim (fun heq => heq ▸ rfl) (ht b)
      split at h
      · cases h
      · split at h
        · split at h
          · cases h
          · obtain ⟨v4, hv4, -⟩ := Option.map_eq_some_iff.mp h
            exact parseIPv4Fields_bytes hv4
        · refine hexDigits_bytes hex ?_
          simp only at h
          split at h
          · exact nofun
          · split at h
            · cases h
            · split at h
              · next hrest =>
                rw [hrest]
                exact hcolon (hcolon nofun)
              · exact hcolon (hcolon (ih h))
          · cases h
          · exact hcolon (ih h)
          · cases h

/-- Only such bytes stand in what `ParseIP` accepts. -/
theorem parseIP_bytes {ip : IP} (h : parseIP s = some ip) : ∀ b ∈ s, addressByte b := by
  have hcolon : ∀ {t : Bytes}, (∀ b ∈ t, addressByte b) →
      ∀ b ∈ 58 :: t, addressByte b := fun ht b hb =>
    (mem_cons.mp hb).elim (fun heq => heq ▸ rfl) (ht b)
  unfold parseIP at h
  split at h
  · cases h
  · split at h
    · obtain ⟨v4, hv4, -⟩ := Option.map_eq_some_iff.mp h
      exact parseIPv4Fields_bytes hv4
    · obtain ⟨out, hout, -⟩ := Option.bind_eq_some_iff.mp h
      unfold parseIPv6Fields at hout
      split at hout
      · exact hcolon (hcolon nofun)
      · exact hcolon (hcolon (parseIPv6Groups_bytes hout))
      · exact parseIPv6Groups_bytes hout
    · cases h

theorem plainByte_of_address {b : UInt8} (h : addressByte b) : plainByte b := by
  have hb := addressByte_range h
  simp only [plainByte, Bool.and_eq_true, decide_eq_true_eq, UInt8.lt_iff_toNat_lt,
    UInt8.reduceToNat]
  lia

/-- An address has no space around it to trim. -/
theorem trimSpace_address (h : ∀ b ∈ s, addressByte b) : trimSpace s = s := by
  have := trimSpace_white white_nil (fun b hb => plainByte_of_address (h b hb)) white_nil
  rwa [nil_append, append_nil] at this

theorem comma_notMem_address (h : ∀ b ∈ s, addressByte b) : comma ∉ s := fun hc => by
  have hrange := addressByte_range (h comma hc)
  have hval : comma.toNat = 44 := rfl
  lia

/-! ### Texts of addresses -/

/-- A digit of base ten or sixteen. -/
def digitByte (n : ℕ) : UInt8 := if n < 10 then (48 + n).toUInt8 else (87 + n).toUInt8

/-- A number in a base, without leading zeros. -/
def numeral (base n : ℕ) : Bytes := if n = 0 then [48] else ((base.digits n).map digitByte).reverse

def groups : Bytes → List ℕ
  | b :: c :: s => (b.toNat * 256 + c.toNat) :: groups s
  | _ => []

/-- The first longest run of at least two zero groups, as its start and end. -/
def zeroRun (gs : List ℕ) : Option (ℕ × ℕ) :=
  (List.range 8).foldl (fun best i =>
    let l := ((gs.drop i).takeWhile (· = 0)).length
    if 2 ≤ l ∧ (best.map fun (a, b) => b - a).getD 0 < l then some (i, i + l) else best) none

def joinGroups (gs : List ℕ) : Bytes := [58].intercalate (gs.map (numeral 16))

/-- `IP.String`, of an address that has four or sixteen bytes. -/
def IP.string (ip : IP) : Bytes :=
  match ip.to4 with
  | some v4 => [46].intercalate (v4.map fun b => numeral 10 b.toNat)
  | none =>
    match zeroRun (groups ip) with
    | some (a, b) => joinGroups ((groups ip).take a) ++ [58, 58] ++ joinGroups ((groups ip).drop b)
    | none => joinGroups (groups ip)

/-! ### Networks -/

structure IPNet where
  ip : Bytes
  mask : Bytes
deriving DecidableEq, Repr

/-- `networkNumberAndMask`. -/
def IPNet.numberAndMask (n : IPNet) : Option (Bytes × Bytes) :=
  let ip := (IP.to4 n.ip).getD n.ip
  if ip.length = 4 ∧ n.mask.length = 4 then some (ip, n.mask)
  else if ip.length = 4 ∧ n.mask.length = 16 then some (ip, n.mask.drop 12)
  else if ip.length = 16 ∧ n.mask.length = 16 then some (ip, n.mask)
  else none

def IPNet.contains (n : IPNet) (ip : IP) : Bool :=
  match n.numberAndMask with
  | none => false
  | some (number, mask) =>
    let ip := ip.to4.getD ip
    decide (ip.length = number.length) &&
      ((number.zip ip).zip mask).all fun ((x, y), m) => x &&& m == y &&& m

end Go
