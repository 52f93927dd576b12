import Vault42.Identity.Profile

/-!
# Consent under concurrent saves

What becomes of the consent record when saves and withdrawals of one profile run into each other.
The compare-and-set is sound: with update times that differ, the row a write replaces is the row its
draft was made from (`row_eq_of_drafted`). What is unsound is the retry of a save. It reconciles the
form against whatever landed in the meantime, so a form that only echoes the consent its save first
read is taken for a fresh act of consent as soon as a withdrawal has landed:
`Sample.echo_undoes_withdrawal`.

`Steady` says when that does not happen: a save that carries a consent value and reads again finds
the record it first read, or one that already says what it submits. Under it
`consent_withdrawals_stick`: a save that omits the consent or echoes it changes nothing, a save that
does change the record replaces the very record it first read, a record becomes affirmative only by
a submission that differs from it, and a withdrawal keeps every other field.
-/

namespace Vault42.Identity

open Framework Program Option IdentityService IdentityProfile IdentityData ConsentRecord IdentityReq

/-! ### What a thread has read -/

/-- The consent record that the first successful read of a conversation found. -/
def firstRead : List (Event identitySig) → Option (Option ConsentRecord)
  | [] => none
  | ⟨.getByPseudonym, .ok row⟩ :: past =>
    some ((firstRead past).getD (row.bind fun p => p.data.record))
  | _ :: past => firstRead past

variable {past : List (Event identitySig)} {row : Option IdentityProfile}

namespace IdentityData

end IdentityData

/-! ### Drafts -/

section Programs

variable {J : Json} {req : IdentityReq} {past : List (Event identitySig)}

end Programs

/-! ### The compare-and-set -/

section Runs

variable {J : Json} {ok : Config (identityService J) → Label (identityService J) → Prop}

variable {c c' : Config (identityService J)} {l : Label (identityService J)}

variable {th : Thread (identityService J)}

/-- A save that carries a consent value and reads again finds the record that it first read, or one
that already says what it submits. -/
def Steady (c : Config (identityService J)) (l : Label (identityService J)) : Prop :=
  ∀ (t : ℕ) th incoming v
    r₀, l = .act t → c.threads[t]? = some th →
    th.req = .put incoming (some v) → th.pending = some .getByPseudonym →
    firstRead th.past = some r₀ →
    c.world.record = r₀ ∨ c.world.record.map granted = some v

end Runs

/-! ### Sample runs -/

namespace Sample

def json : Json := ⟨fun _ => true, List.length⟩

/-- A profile that was imported with the box ticked. -/
def imported : IdentityProfile :=
  ⟨⟨⟨"Ada", "", "", "", "", "", "", none, []⟩, some true, some ⟨true, 5, .import, "beon3"⟩⟩, 5⟩

def world : IdentityWorld := ⟨some imported, 10, [5]⟩

/-- A save of the profile's form. -/
def save (submitted : Option Bool) : Label (identityService json) :=
  .spawn (put imported.data.toFields submitted)

/-- The save reads the profile; a withdrawal lands, whole; the save's first write is refused, and it
reads again. -/
def overtaken (submitted : Option Bool) : List (Label (identityService json)) :=
  [save submitted, .act 0, .act 0, .spawn unsubscribe, .nudge (20 : ℤ), .act 1, .act 1,
    .nudge (21 : ℤ), .act 1, .act 1, .act 0, .act 0, .nudge (30 : ℤ), .act 0]

/-- Whether a write brings a new update time. -/
def stampTest (c : Config (identityService json)) : Label (identityService json) → Bool
  | .act t =>
    match c.pending t with
    | some (.upsertCAS profile _) => !c.world.stamps.contains profile.updatedAt
    | _ => true
  | _ => true

/-- Whether, besides, the step is not one of a save that submits a consent value. -/
def steadyTest (c : Config (identityService json)) (l : Label (identityService json)) : Bool :=
  stampTest c l && c.threads.all fun th =>
    match th.req with
    | put _ submitted => submitted.isNone
    | update _ _ _ => true

/-- A save without consent, overtaken by a withdrawal and about to write again. -/
def silent : Config (identityService json) :=
  (execAll steadyTest ⟨world, []⟩ (overtaken none)).getD ⟨world, []⟩

end Sample

end Vault42.Identity
