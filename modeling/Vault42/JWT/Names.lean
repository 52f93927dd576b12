import Vault42.Go.Text
import Vault42.JWT.Sign

/-!
# One reading of a payload

`encoding/json` fills a field from every member whose name folds to the field's; another verifier
takes the last member of exactly that name. `refuseAmbiguousClaimNames` stands in front so that the
two cannot differ, but compares lower-cased names, which is not the folding of the decoder.

* `one_reading_iff`: of a payload that was let through, the two readings agree exactly if every
  member that a field is filled from bears the field's name as it is written.
* `Sample.two_subjects`: a payload with two subjects that is let through.
-/

namespace Vault42.JWT

open Go List
open Strconv (Bytes)

section Names

variable {PK EK : Type} (std : Platform PK EK)

/-- The members that `encoding/json` fills a field from, in the order of the payload. -/
def matched (ms : List (Bytes × Json)) (f : Field) : List (Bytes × Json) :=
  ms.filter fun m => fieldOf std fieldNames m.1 = some f

/-- The members of exactly a name. -/
def named (ms : List (Bytes × Json)) (name : Bytes) : List (Bytes × Json) :=
  ms.filter fun m => m.1 = name

/-- **One reading**: one member at most decides a claim, and it is the one that a case-sensitive
reader takes, for whom the last of a name wins. -/
def OneReading (ms : List (Bytes × Json)) : Prop :=
  ∀ e ∈ fieldNames, (matched std ms e.2).length ≤ 1 ∧
    (matched std ms e.2).getLast? = (named ms e.1).getLast?

/-- Every member that a field is filled from bears the field's name as it is written. -/
def SpelledOut (ms : List (Bytes × Json)) : Prop :=
  ∀ e ∈ fieldNames, ∀ m ∈ matched std ms e.2, m.1 = e.1

variable {std}

/-- What the loop lets through has no name twice, nor one that was seen, up to case. -/
theorem nodup_of_ambiguousNames {seen : List (Bytes × Bytes)} {names : List Bytes}
    (h : ambiguousNames std seen names = none) :
    (names.map std.toLower).Nodup ∧ ∀ n ∈ names, seen.lookup (std.toLower n) = none := by
  induction names generalizing seen with
  | nil => exact ⟨nodup_nil, nofun⟩
  | cons name names ih =>
    rw [ambiguousNames] at h
    split at h
    · cases h
    next hnew =>
      obtain ⟨hnodup, hseen⟩ := ih h
      -- the name is among those seen by the rest of the loop
      have hout : ∀ n ∈ names, std.toLower n ≠ std.toLower name ∧
          seen.lookup (std.toLower n) = none := by
        intro n hn
        have hlookup := hseen n hn
        rw [lookup_cons] at hlookup
        split at hlookup
        · cases hlookup
        next hne => exact ⟨fun heq => by simp [heq] at hne, hlookup⟩
      refine ⟨nodup_cons.mpr ⟨fun hmem => ?_, hnodup⟩, ?_⟩
      · obtain ⟨n, hn, heq⟩ := mem_map.mp hmem
        exact (hout n hn).1 heq
      · intro n hn
        rcases mem_cons.mp hn with rfl | hn
        · exact hnew
        · exact (hout n hn).2

theorem named_length_le {ms : List (Bytes × Json)}
    (h : refuseAmbiguousClaimNames std (.object ms) = .ok ()) (name : Bytes) :
    (named ms name).length ≤ 1 := by
  have hnone : ambiguousNames std [] (ms.map Prod.fst) = none := by
    rw [refuseAmbiguousClaimNames] at h
    split at h
    · cases h
    next hnone => exact hnone
  have hnodup : (ms.map Prod.fst).Nodup := (nodup_of_ambiguousNames hnone).1.of_map _
  have hcount : (named ms name).length = (ms.map Prod.fst).count name := by
    rw [named, ← countP_eq_length_filter, count, countP_map]
    exact countP_congr fun m _ => by simp
  rw [hcount]
  exact nodup_iff_count_le_one.mp hnodup name

/-- **When a payload that was let through has one reading**: exactly if every member that a field is
filled from is spelled out. -/
theorem one_reading_iff {ms : List (Bytes × Json)}
    (h : refuseAmbiguousClaimNames std (.object ms) = .ok ()) :
    OneReading std ms ↔ SpelledOut std ms := by
  constructor
  · intro hone e he m hm
    obtain ⟨hlen, hlast⟩ := hone e he
    -- the one member is the one the other reader takes
    obtain ⟨m', hsingle⟩ := List.length_eq_one_iff.mp
      (le_antisymm hlen (List.length_pos_of_mem hm))
    obtain rfl : m = m' := by simpa [hsingle] using hm
    rw [hsingle] at hlast
    have hmem : m ∈ named ms e.1 := List.mem_of_getLast? hlast.symm
    simpa [named] using (List.mem_filter.mp hmem).2
  · intro hspelled e he
    have hsame : matched std ms e.2 = named ms e.1 := by
      refine List.filter_congr fun m hm => decide_eq_decide.mpr ⟨fun hfield => ?_, ?_⟩
      · exact hspelled e he m (List.mem_filter.mpr ⟨hm, decide_eq_true hfield⟩)
      · intro hname
        rw [hname, fieldOf, lookup_fieldName e he]
        rfl
    rw [hsame]
    exact ⟨named_length_le h e.1, rfl⟩

end Names

namespace Sample

/-- `foldName` on ASCII and on the long s, which folds to `S`. -/
def foldName : Bytes → Bytes
  | 0xC5 :: 0xBF :: s => 83 :: foldName s
  | b :: s => (if 97 ≤ b && b ≤ 122 then b - 32 else b) :: foldName s
  | [] => []

/-- The long s is a small letter, which `ToLower` leaves as it is. -/
def goPlatform : Platform Unit Unit :=
  { platform with toLower := Go.toLower id, foldName := foldName }

def ada : List (Bytes × Json) := [(text "sub", .string (text "ada")), (text "kid", .null)]

/-- A second `sub`, with a long s. -/
def adaOrBea : List (Bytes × Json) := ada ++ [([0xC5, 0xBF] ++ text "ub", .string (text "bea"))]

theorem one_reading_ada : refuseAmbiguousClaimNames goPlatform (.object ada) = .ok () ∧
    (OneReading goPlatform ada ↔ SpelledOut goPlatform ada) ∧ OneReading goPlatform ada :=
  have hlet : refuseAmbiguousClaimNames goPlatform (.object ada) = .ok () := by rfl
  have hiff := one_reading_iff hlet
  ⟨hlet, hiff, hiff.mpr (by unfold SpelledOut; decide +kernel)⟩

/-- **Two subjects**: `sub` and a `sub` with a long s are two names to the check and one field to
the decoder, which takes the latter. -/
theorem two_subjects : refuseAmbiguousClaimNames goPlatform (.object adaOrBea) = .ok () ∧
    (matched goPlatform adaOrBea .sub).length = 2 ∧
    (decodeClaims goPlatform (.object adaOrBea)).map VaultClaims.subject = some (text "bea") ∧
    (named adaOrBea (text "sub")).getLast? = some (text "sub", .string (text "ada")) :=
  ⟨by rfl, by decide +kernel, by decide +kernel, by rfl⟩

end Sample

end Vault42.JWT
