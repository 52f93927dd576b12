import Vault42.Go.Net

/-!
# Headers of `net/http`

`http.Header` is a map from canonical names to field lines. Every access canonicalises the name it
is given: a name made of token bytes gets its words capitalised, and any other name is taken as it
is. The server builds the map of a request by adding one line after the other (`Header.ofLines`).
-/

namespace Go

open Strconv (Bytes)

/-- `validHeaderFieldByte`: the token bytes of RFC 7230. -/
def tokenByte (b : UInt8) : Bool :=
  (48 ≤ b && b ≤ 57) || (65 ≤ b && b ≤ 90) || (97 ≤ b && b ≤ 122) ||
    (text "!#$%&'*+-.^_|~").contains b || b == 96

/-- The letters of a name, the first of each word as a capital and the others small. -/
def capitalise : Bool → Bytes → Bytes
  | _, [] => []
  | upper, b :: s =>
    let c :=
      if upper && 97 ≤ b && b ≤ 122 then b - 32
      else if !upper && 65 ≤ b && b ≤ 90 then b + 32
      else b
    c :: capitalise (c == 45) s

def canonicalKey (s : Bytes) : Bytes := if s.all tokenByte then capitalise true s else s

abbrev Header := Bytes → Option (List Bytes)

namespace Header

def values (h : Header) (name : Bytes) : List Bytes := (h (canonicalKey name)).getD []

/-- `Header.Get`: the first line, or the empty text. -/
def get (h : Header) (name : Bytes) : Bytes := (h.values name).headD []

def del (h : Header) (name : Bytes) : Header := fun k => if k = canonicalKey name then none else h k

def set (h : Header) (name value : Bytes) : Header :=
  fun k => if k = canonicalKey name then some [value] else h k

def add (h : Header) (name value : Bytes) : Header :=
  fun k => if k = canonicalKey name then some (h.values name ++ [value]) else h k

/-- The headers of a request, from its field lines. -/
def ofLines (lines : List (Bytes × Bytes)) : Header :=
  lines.foldl (fun h line => h.add line.1 line.2) fun _ => none

variable {h : Header} {name value k : Bytes}

theorem set_apply : h.set name value k = if k = canonicalKey name then some [value] else h k := rfl

theorem del_apply : h.del name k = if k = canonicalKey name then none else h k := rfl

theorem foldl_del_apply (names : List Bytes) :
    names.foldl del h k = if k ∈ names.map canonicalKey then none else h k := by
  induction names generalizing h with
  | nil => rw [List.foldl_nil, List.map_nil, if_neg List.not_mem_nil]
  | cons n names ih =>
    rw [List.foldl_cons, ih, List.map_cons, del_apply]
    by_cases hk : k ∈ names.map canonicalKey
    · rw [if_pos hk, if_pos (List.mem_cons_of_mem _ hk)]
    · rw [if_neg hk]
      by_cases hn : k = canonicalKey n
      · rw [if_pos hn, if_pos (hn ▸ List.mem_cons_self ..)]
      · rw [if_neg hn, if_neg fun hmem => (List.mem_cons.mp hmem).elim hn hk]

end Header

/-- What is read of an `http.Request`: who sent it, and its headers. -/
structure Request where
  remoteAddr : Bytes
  header : Header

end Go
