import Vault42.Model
import Vault42.Framework.System

/-!
# Identity profiles

`internal/service/identity.go` over `internal/repository/postgres/identity.go`: a profile is one
encrypted document, so every change decrypts it, edits it and writes it back whole, by a
compare-and-set on the time of the last update. `PutProfile` replaces the profile and reconciles the
marketing consent in it with the one on record, `UpdateMarketingConsent` changes the consent and
nothing else. Both try three times.

The calls are the clock and the two statements of the repository on one profile. Encryption under
the master key and the pseudonym is exact: a document is read back as it was written.
`encoding/json` is a parameter, of which `Validate` needs to know whether a raw message is valid and
how long the dynamic part is.
-/

namespace Vault42.Identity

open Framework

/-- The sources of a consent record. -/
inductive ConsentSource where
  | registration
  | profile
  | unsubscribe
  | «import»
  | legacy
deriving DecidableEq, Repr

structure ConsentRecord where
  granted : Bool
  /-- `At`; `0` for a legacy record. -/
  recordedAt : Time
  source : ConsentSource
  origin : String
deriving DecidableEq, Repr

structure BillingInfo where
  addressLine1 : String
  addressLine2 : String
  city : String
  postalCode : String
  country : String
  vatID : String
deriving DecidableEq, Repr

/-- The fields of `IdentityData` other than the consent. -/
structure Fields where
  givenName : String
  familyName : String
  username : String
  country : String
  state : String
  dateOfBirth : String
  sex : String
  billing : Option BillingInfo
  /-- Raw JSON by namespace key. -/
  dynamic : List (String × String)
deriving DecidableEq, Repr

structure IdentityData extends Fields where
  marketingEmails : Option Bool
  marketingConsent : Option ConsentRecord
deriving DecidableEq, Repr

def IdentityData.empty : IdentityData :=
  ⟨⟨"", "", "", "", "", "", "", none, []⟩, none, none⟩

/-! ### Validation -/

/-- What `Validate` asks of `encoding/json`. -/
structure Json where
  valid : String → Bool
  /-- The length of `json.Marshal` of the dynamic map. -/
  encodedLen : List (String × String) → ℕ

def usernameMinLen : ℕ := 3

def usernameMaxLen : ℕ := 32

def stateMaxLen : ℕ := 3

def dynamicMaxBytes : ℕ := 64 * 1024

def dynamicMaxKeyLen : ℕ := 64

/-- `countryRe`: two ASCII letters. -/
def countryRe (s : String) : Bool := s.toList.length == 2 && s.toList.all Char.isAlpha

def isLeap (year : ℕ) : Bool := year % 4 == 0 && (year % 100 != 0 || year % 400 == 0)

def daysIn (year month : ℕ) : ℕ :=
  if month = 2 then (if isLeap year then 29 else 28)
  else if month = 4 ∨ month = 6 ∨ month = 9 ∨ month = 11 then 30
  else 31

/-- The number a run of digits spells. -/
def digits (s : List Char) : ℕ := s.foldl (fun n c => n * 10 + (c.toNat - 48)) 0

/-- `dateOnlyRe`: `dddd-dd-dd`. -/
def dateOnlyRe (s : String) : Bool :=
  match s.toList with
  | [a, b, c, d, x, e, f, y, g, h] =>
    [a, b, c, d, e, f, g, h].all Char.isDigit && x == '-' && y == '-'
  | _ => false

/-- `time.Parse("2006-01-02", s)` succeeds, for text of that shape. -/
def isDate (s : String) : Bool :=
  let year := digits (s.toList.take 4)
  let month := digits ((s.toList.drop 5).take 2)
  let day := digits (s.toList.drop 8)
  decide (1 ≤ month ∧ month ≤ 12 ∧ 1 ≤ day ∧ day ≤ daysIn year month)

/-- A non-empty run of lowercase letters and digits. -/
def isSegment (s : List Char) : Bool := !s.isEmpty && s.all fun c => c.isLower || c.isDigit

/-- `dynamicKeyRe`: segments joined by dots. -/
def dynamicKeyRe (k : String) : Bool := (k.toList.splitOn '.').all isSegment

/-- `Validate`: the message of the first check that fails. -/
def Fields.validate (J : Json) (d : Fields) : Option String :=
  if d.username ≠ "" ∧
      (d.username.length < usernameMinLen ∨ usernameMaxLen < d.username.length) then
    some "username must be 3-32 chars"
  else if d.country ≠ "" ∧ ¬ countryRe d.country then some "country must be a 2-letter code"
  else if stateMaxLen < d.state.length then some "state must be <= 3 chars"
  else if d.sex ≠ "" ∧ d.sex ≠ "male" ∧ d.sex ≠ "female" then
    some "sex must be male, female, or empty"
  else if d.dateOfBirth ≠ "" ∧ ¬ dateOnlyRe d.dateOfBirth then
    some "date_of_birth must be YYYY-MM-DD"
  else if d.dateOfBirth ≠ "" ∧ ¬ isDate d.dateOfBirth then some "date_of_birth is not a valid date"
  else
    match d.dynamic.findSome? fun kv =>
      if dynamicMaxKeyLen < kv.1.utf8ByteSize ∨ ¬ dynamicKeyRe kv.1 then
        some ("dynamic key " ++ kv.1.quote ++ " must be lowercase dotted segments")
      else if ¬ J.valid kv.2 then some ("dynamic[" ++ kv.1.quote ++ "] is not valid JSON")
      else none with
    | some msg => some msg
    | none =>
      if d.dynamic ≠ [] ∧ dynamicMaxBytes < J.encodedLen d.dynamic then
        some "dynamic exceeds 65536 bytes"
      else none

/-! ### Consent -/

namespace IdentityData

/-- `StampMarketingConsent`, at the instant it reads from the clock. -/
def stampMarketingConsent (d : IdentityData) (granted : Bool) (source : ConsentSource)
    (origin : String) (now : Time) : IdentityData :=
  { d with
    marketingEmails := some granted
    marketingConsent := some ⟨granted, now, source, origin⟩ }

/-- `normalizeConsent`: the record is authoritative, and a value without one is labelled legacy. -/
def normalizeConsent (d : IdentityData) : IdentityData :=
  match d.marketingConsent, d.marketingEmails with
  | some r, _ => { d with marketingEmails := some r.granted }
  | none, some granted => { d with marketingConsent := some ⟨granted, 0, .legacy, ""⟩ }
  | none, none => d

/-- The consent record of a profile, as every reader sees it. -/
def record (d : IdentityData) : Option ConsentRecord := d.normalizeConsent.marketingConsent

/-- The first two cases of `ReconcileMarketingConsent`: what is on record is kept. -/
def keepConsent (d : IdentityData) (prior : Option ConsentRecord) : IdentityData :=
  { d with
    marketingConsent := prior
    marketingEmails := (prior.map ConsentRecord.granted).or d.marketingEmails }

end IdentityData

/-! ### Calls -/

/-- `model.IdentityProfile` of one pseudonym: the document and the time of its last update. -/
structure IdentityProfile where
  data : IdentityData
  updatedAt : Time
deriving DecidableEq

/-- What `Get` makes of a row: the document with its consent normalised, and the time of the last
update. -/
def IdentityProfile.decoded (p : IdentityProfile) : IdentityData × Time :=
  (p.data.normalizeConsent, p.updatedAt)

inductive IdentityCall where
  | now
  | getByPseudonym
  | upsertCAS (profile : IdentityProfile) (expectedUpdatedAt : Time)

/-- The replies; a statement can fail. -/
def IdentityCall.Reply : IdentityCall → Type
  | .now => Time
  | .getByPseudonym => Except Unit (Option IdentityProfile)
  | .upsertCAS _ _ => Except Unit Bool

def identitySig : Signature := ⟨IdentityCall, IdentityCall.Reply⟩

abbrev IdentityProg := Program identitySig

inductive IdentityError where
  | store
  /-- `ErrInvalidProfile` and what it says. -/
  | invalidProfile (msg : String)
  | concurrentUpdate
deriving DecidableEq

inductive IdentityResult where
  | error (e : IdentityError)
  /-- `PutProfile`: the record as stored, and whether it changed. -/
  | saved (stored : Option ConsentRecord) (changed : Bool)
  | updated
deriving DecidableEq

namespace IdentityService

def consentUpdateAttempts : ℕ := 3

def clock : IdentityProg Time := Program.perform (S := identitySig) .now

def get : IdentityProg (Except Unit (Option (IdentityData × Time))) := do
  let r : Except Unit (Option IdentityProfile) ← Program.perform (S := identitySig) .getByPseudonym
  pure (r.map fun row => row.map IdentityProfile.decoded)

def reconcileMarketingConsent (d : IdentityData) (submitted : Option Bool)
    (prior : Option ConsentRecord) : IdentityProg (IdentityData × Bool) :=
  match submitted with
  | none => pure (d.keepConsent prior, false)
  | some v =>
    if prior.map ConsentRecord.granted = some v then pure (d.keepConsent prior, false)
    else do
      let now ← clock
      pure (d.stampMarketingConsent v .profile "" now, true)

/-- `upsertCAS` of the service: validate, normalise, stamp, write. -/
def upsertCAS (J : Json) (d : IdentityData) (expectedUpdatedAt : Time) :
    IdentityProg (Except IdentityError Bool) :=
  match d.toFields.validate J with
  | some msg => pure (.error (.invalidProfile msg))
  | none => do
    let now ← clock
    let r : Except Unit Bool ←
      Program.perform (S := identitySig) (.upsertCAS ⟨d.normalizeConsent, now⟩ expectedUpdatedAt)
    pure (r.mapError fun _ => .store)

/-- The end of a round: the write, and `result` if it landed, or `none` when the race was lost. -/
def conclude (J : Json) (d : IdentityData) (expectedUpdatedAt : Time) (result : IdentityResult) :
    IdentityProg (Option IdentityResult) := do
  match ← upsertCAS J d expectedUpdatedAt with
  | .error e => pure (some (.error e))
  | .ok true => pure (some result)
  | .ok false => pure none

/-- One round of `PutProfile`. -/
def putOnce (J : Json) (incoming : IdentityData) (submitted : Option Bool) :
    IdentityProg (Option IdentityResult) := do
  match ← get with
  | .error _ => pure (some (.error .store))
  | .ok existing =>
    let prior := existing.bind fun e => e.1.marketingConsent
    let updatedAt := (existing.map Prod.snd).getD 0
    let (data, didChange) ← reconcileMarketingConsent incoming submitted prior
    conclude J data updatedAt (.saved data.normalizeConsent.marketingConsent didChange)

/-- One round of `UpdateMarketingConsent`. -/
def updateOnce (J : Json) (granted : Bool) (source : ConsentSource) (origin : String) :
    IdentityProg (Option IdentityResult) := do
  match ← get with
  | .error _ => pure (some (.error .store))
  | .ok existing =>
    let data := (existing.map Prod.fst).getD .empty
    let updatedAt := (existing.map Prod.snd).getD 0
    let now ← clock
    conclude J (data.stampMarketingConsent granted source origin now) updatedAt .updated

/-- The loop of both: as many rounds as there are attempts, or `ErrConcurrentUpdate`. -/
def attempts (round : IdentityProg (Option IdentityResult)) : ℕ → IdentityProg IdentityResult
  | 0 => pure (.error .concurrentUpdate)
  | n + 1 => do
    match ← round with
    | some r => pure r
    | none => attempts round n

def putProfile (J : Json) (incoming : IdentityData) (submitted : Option Bool) :
    IdentityProg IdentityResult :=
  attempts (putOnce J incoming submitted) consentUpdateAttempts

def updateMarketingConsent (J : Json) (granted : Bool) (source : ConsentSource) (origin : String) :
    IdentityProg IdentityResult :=
  attempts (updateOnce J granted source origin) consentUpdateAttempts

end IdentityService

/-! ### Requests on one profile -/

/-- The requests of the identity handler that write consent. -/
inductive IdentityReq where
  /-- `PUT /user/identity`: the fields of the form, and the consent in it if it has one. -/
  | put (incoming : Fields) (submitted : Option Bool)
  /-- `UpdateMarketingConsent`. -/
  | update (granted : Bool) (source : ConsentSource) (origin : String)

/-- The one-click unsubscribe, where the handlers call `UpdateMarketingConsent`. -/
def IdentityReq.unsubscribe : IdentityReq := .update false .unsubscribe ""

/-- The program that serves a request. The form's consent is passed beside the profile, which
carries none itself. -/
def IdentityReq.program (J : Json) : IdentityReq → IdentityProg IdentityResult
  | .put incoming submitted => IdentityService.putProfile J ⟨incoming, none, none⟩ submitted
  | .update granted source origin =>
    IdentityService.updateMarketingConsent J granted source origin

/-- The stored profile, the clock, and the update times that were ever stored. -/
structure IdentityWorld where
  row : Option IdentityProfile
  clock : Time
  stamps : List Time

/-- The consent record that stands. -/
def IdentityWorld.record (w : IdentityWorld) : Option ConsentRecord :=
  w.row.bind fun p => p.data.record

/-- The compare-and-set of the repository: an insert that does nothing on a conflict where the
caller saw no profile, an update of the row with the expected time where it did. -/
def IdentityWorld.upsertCAS (w : IdentityWorld) (profile : IdentityProfile)
    (expectedUpdatedAt : Time) : Bool × IdentityWorld :=
  let stored := { w with row := some profile, stamps := profile.updatedAt :: w.stamps }
  match w.row with
  | none => if expectedUpdatedAt.isZero then (true, stored) else (false, w)
  | some p =>
    if !expectedUpdatedAt.isZero && p.updatedAt == expectedUpdatedAt then (true, stored)
    else (false, w)

/-- **How a call is answered.** -/
def identityAnswer (c : IdentityCall) (w : IdentityWorld) : c.Reply × IdentityWorld :=
  match c with
  | .now => (w.clock, w)
  | .getByPseudonym => (.ok w.row, w)
  | .upsertCAS profile expectedUpdatedAt =>
    ((.ok (w.upsertCAS profile expectedUpdatedAt).1), (w.upsertCAS profile expectedUpdatedAt).2)

def IdentityFault : (c : IdentityCall) → c.Reply → Prop
  | .now, _ => False
  | .getByPseudonym, r => r = .error ()
  | .upsertCAS _ _, r => r = .error ()

/-- **The identity service over one profile.** The clock moves by itself. -/
def identityService (J : Json) : System identitySig where
  World := IdentityWorld
  Req := IdentityReq
  Result := IdentityResult
  program := IdentityReq.program J
  answer _ := identityAnswer
  blocked _ _ _ := false
  Fault := IdentityFault
  Nudge := Time
  nudge now w := { w with clock := now }

end Vault42.Identity
