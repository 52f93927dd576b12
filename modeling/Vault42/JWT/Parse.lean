import Vault42.Go.Encoding
import Vault42.Model
import Mathlib.Data.Rat.Floor

/-!
# Reading an access token

`internal/jwt`, `ParseAndValidate` of `internal/crypto/jwt.go`, and the middleware `authWithTypes`
of `internal/middleware/auth.go`, from the text of the `Authorization` header to the claims a
handler is given. Strings are bytes, as they are in Go: a request can hold any.

`encoding/json` fills a struct member by member. A member belongs to the field of its name, or to
one whose name is the same after folding case, and a later member overwrites an earlier one; this is
why `refuseAmbiguousClaimNames` stands in front of it. A value of the wrong type makes the whole
decoding fail, so the model stops there.

`Platform` holds what is not code of the repository and not bytes either: the case tables of
Unicode, the rounding of a decimal to a `float64`, and the two signature schemes. Nothing is assumed
of it.
-/

namespace Vault42.JWT

open Go
open Strconv (Bytes)

/-- The parts of the platform that the gate only calls. `PK` and `EK` are RSA and ECDSA public
keys. -/
structure Platform (PK EK : Type) where
  toLower : Bytes → Bytes
  foldName : Bytes → Bytes
  /-- `json.Number.Float64`. -/
  parseFloat : Bytes → Option ℚ
  /-- `rsa.VerifyPKCS1v15` over the SHA-256 of a text: key, text, signature. -/
  verifyPKCS1v15 : PK → Bytes → Bytes → Bool
  /-- `VerifyES256`: key, text, signature. -/
  verifyES256 : EK → Bytes → Bytes → Bool

/-! ### Claims -/

/-- `VaultClaims`, with the fields of the embedded `RegisteredClaims`. -/
structure VaultClaims where
  issuer : Bytes := []
  subject : Bytes := []
  audience : List Bytes := []
  expiresAt : Option Time := none
  notBefore : Option Time := none
  issuedAt : Option Time := none
  id : Bytes := []
  roles : List Bytes := []
  scopes : List Bytes := []
  clientID : Bytes := []
  fingerprint : Bytes := []
  /-- `Confirmation.JKT`, when there is a confirmation. -/
  confirmation : Option Bytes := none
  tokenType : Bytes := []
  mintedBy : Bytes := []
  acr : Bytes := []
  amr : List Bytes := []
  authTime : ℤ := 0
  factors : List Bytes := []
  email : Bytes := []
deriving DecidableEq, Repr

/-- The members a payload can have. -/
inductive Field where
  | iss | sub | aud | exp | nbf | iat | jti | roles | scopes | clientID | fingerprint | cnf
  | tokenType | mintedBy | acr | amr | authTime | factors | email
deriving DecidableEq, Repr

/-- The struct tags, in the order of the fields. -/
def fieldNames : List (Bytes × Field) :=
  [(text "iss", .iss), (text "sub", .sub), (text "aud", .aud), (text "exp", .exp),
    (text "nbf", .nbf), (text "iat", .iat), (text "jti", .jti), (text "roles", .roles),
    (text "scopes", .scopes), (text "client_id", .clientID), (text "fingerprint", .fingerprint),
    (text "cnf", .cnf), (text "token_type", .tokenType), (text "minted_by", .mintedBy),
    (text "acr", .acr), (text "amr", .amr), (text "auth_time", .authTime),
    (text "factors", .factors), (text "email", .email)]

/-- A `string` field. `null` leaves it as it is. -/
def decodeString (old : Bytes) : Json → Option Bytes
  | .string s => some s
  | .null => some old
  | _ => none

/-- A `[]string` field. `null` empties it, and an element that is `null` stays what was there. -/
def decodeStrings (old : List Bytes) : Json → Option (List Bytes)
  | .array xs => xs.zipIdx.mapM fun (x, i) => decodeString (old.getD i []) x
  | .null => some []
  | _ => none

def decodeInt64 (old : ℤ) : Json → Option ℤ
  | .number s =>
    match Strconv.parseInt s with
    | (n, none) => some n
    | _ => none
  | .null => some old
  | _ => none

/-- `ClaimStrings.UnmarshalJSON`: one string, or an array of strings. -/
def decodeClaimStrings (old : List Bytes) : Json → Option (List Bytes)
  | .string s => some [s]
  | .array xs => xs.mapM fun x => match x with
    | .string s => some s
    | _ => none
  | .null => some old
  | _ => none

/-- `minNumericDate` and `maxNumericDate`, in seconds. -/
def minNumericDate : ℚ := -62135596800

def maxNumericDate : ℚ := 253402300799

section Decode

variable {PK EK : Type} (std : Platform PK EK)

/-- `NumericDate.UnmarshalJSON` on a number: whole seconds, within the years 1 to 9999. -/
def numericDate (s : Bytes) : Option Time :=
  match std.parseFloat s with
  | none => none
  | some f =>
    if minNumericDate ≤ f ∧ f ≤ maxNumericDate then some (⌊f⌋ * Duration.second) else none

/-- A `*NumericDate` field. A string that reads as a number is taken for one (`json.Number`). -/
def decodeNumericDate : Json → Option (Option Time)
  | .null => some none
  | .number s => (numericDate std s).map some
  | .string s => if Json.isValidNumber s then (numericDate std s).map some else none
  | _ => none

/-- The field a member belongs to. -/
def fieldOf {F : Type} (names : List (Bytes × F)) (name : Bytes) : Option F :=
  (names.lookup name).or
    ((names.find? fun f => std.foldName f.1 == std.foldName name).map Prod.snd)

/-- A `*Confirmation` field. -/
def decodeConfirmation (old : Option Bytes) : Json → Option (Option Bytes)
  | .null => some none
  | .object ms =>
    (ms.foldlM (fun jkt (name, x) => match fieldOf std [(text "jkt", ())] name with
      | some () => decodeString jkt x
      | none => some jkt) (old.getD [])).map some
  | _ => none

/-- One member of the payload. -/
def setField (c : VaultClaims) (x : Json) : Field → Option VaultClaims
  | .iss => (decodeString c.issuer x).map fun v => { c with issuer := v }
  | .sub => (decodeString c.subject x).map fun v => { c with subject := v }
  | .aud => (decodeClaimStrings c.audience x).map fun v => { c with audience := v }
  | .exp => (decodeNumericDate std x).map fun v => { c with expiresAt := v }
  | .nbf => (decodeNumericDate std x).map fun v => { c with notBefore := v }
  | .iat => (decodeNumericDate std x).map fun v => { c with issuedAt := v }
  | .jti => (decodeString c.id x).map fun v => { c with id := v }
  | .roles => (decodeStrings c.roles x).map fun v => { c with roles := v }
  | .scopes => (decodeStrings c.scopes x).map fun v => { c with scopes := v }
  | .clientID => (decodeString c.clientID x).map fun v => { c with clientID := v }
  | .fingerprint => (decodeString c.fingerprint x).map fun v => { c with fingerprint := v }
  | .cnf => (decodeConfirmation std c.confirmation x).map fun v => { c with confirmation := v }
  | .tokenType => (decodeString c.tokenType x).map fun v => { c with tokenType := v }
  | .mintedBy => (decodeString c.mintedBy x).map fun v => { c with mintedBy := v }
  | .acr => (decodeString c.acr x).map fun v => { c with acr := v }
  | .amr => (decodeStrings c.amr x).map fun v => { c with amr := v }
  | .authTime => (decodeInt64 c.authTime x).map fun v => { c with authTime := v }
  | .factors => (decodeStrings c.factors x).map fun v => { c with factors := v }
  | .email => (decodeString c.email x).map fun v => { c with email := v }

/-- `json.Unmarshal` into a `VaultClaims`. -/
def decodeClaims : Json → Option VaultClaims
  | .null => some {}
  | .object ms =>
    ms.foldlM (fun c (name, x) => match fieldOf std fieldNames name with
      | some f => setField std c x f
      | none => some c) {}
  | _ => none

/-- The loop of `refuseAmbiguousClaimNames`: two members whose names differ by case at most. -/
def ambiguousNames : List (Bytes × Bytes) → List Bytes → Option (Bytes × Bytes)
  | _, [] => none
  | seen, name :: names =>
    match seen.lookup (std.toLower name) with
    | some first => some (first, name)
    | none => ambiguousNames ((std.toLower name, name) :: seen) names

end Decode

/-! ### Errors -/

/-- Why a key was not handed out. -/
inductive KeyError where
  | rejectedHeader (name : String)
  | rejectedCrit
  | missingKid
  | invalidKid
  /-- `ErrTokenSignatureInvalid` of the middleware's lookup. -/
  | unknownKid
deriving DecidableEq, Repr

/-- What `validateClaims` finds wrong. -/
inductive ClaimError where
  | expRequired
  | expired
  | notValidYet
  | usedBeforeIssued
  | invalidIssuer
  | invalidAudience
deriving DecidableEq, Repr

inductive ParseError where
  | segmentCount
  | headerEncoding
  | headerJSON
  | missingAlg
  | algNotAllowed (alg : Bytes)
  | claimsEncoding
  | claimsJSON
  | ambiguousClaims (first name : Bytes)
  | signatureEncoding
  | keyfunc (e : KeyError)
  | invalidKeyType
  | signatureInvalid
  | unsupportedAlg (alg : Bytes)
  | claims (errs : List ClaimError)
deriving DecidableEq, Repr

inductive TokenError where
  | exceedsMaximumSize
  | parse (e : ParseError)
deriving DecidableEq, Repr

/-- A value that has to be there. -/
def need {ε α : Type} (e : ε) : Option α → Except ε α
  | none => .error e
  | some a => .ok a

/-- A condition that has to hold. -/
def ensure {ε : Type} (e : ε) (b : Bool) : Except ε Unit := if b then .ok () else .error e

/-! ### Parsing -/

/-- `decodeSegment`: the alphabet scan, then the strict decoder. -/
def decodeSegment (seg : Bytes) : Option Bytes := base64Decode seg

/-- `splitToken`: exactly three segments. -/
def splitToken (raw : Bytes) : Option (Bytes × Bytes × Bytes) :=
  match cut 46 raw with
  | none => none
  | some (h, rest) =>
    match cut 46 rest with
    | none => none
    | some (p, sig) => if (cut 46 sig).isSome then none else some (h, p, sig)

structure Token where
  header : List (Bytes × Json)
  claims : VaultClaims
  signature : Bytes
  raw : Bytes

/-- `json.Unmarshal` into a `map[string]any`. -/
def headerMap : Json → Option (List (Bytes × Json))
  | .object ms => some ms
  | .null => some []
  | _ => none

/-- A header parameter that is a string, and empty otherwise. -/
def headerString (header : List (Bytes × Json)) (name : String) : Bytes :=
  match Json.lookup header (text name) with
  | some (.string s) => s
  | _ => []

structure ValidationConfig where
  validMethods : List Bytes
  expectedIssuer : Bytes
  expectedAud : Bytes
  requireExp : Bool
  verifyIat : Bool
  skipValidation : Bool

/-- `validateClaims`, at one instant. -/
def validateClaims (cfg : ValidationConfig) (now : Time) (c : VaultClaims) : List ClaimError :=
  (match c.expiresAt with
    | none => if cfg.requireExp then [.expRequired] else []
    | some exp => if now < exp then [] else [.expired]) ++
  (match c.notBefore with
    | none => []
    | some nbf => if now < nbf then [.notValidYet] else []) ++
  (if cfg.verifyIat then
    match c.issuedAt with
    | none => []
    | some iat => if now < iat then [.usedBeforeIssued] else []
   else []) ++
  (if cfg.expectedIssuer ≠ [] ∧ c.issuer ≠ cfg.expectedIssuer then [.invalidIssuer] else []) ++
  (if cfg.expectedAud ≠ [] ∧ cfg.expectedAud ∉ c.audience then [.invalidAudience] else [])

/-- A verification key: the keys of a set may be nil pointers. -/
inductive Key (PK EK : Type) where
  | rsa (key : Option PK)
  | ecdsa (key : Option EK)

section Parse

variable {PK EK : Type} (std : Platform PK EK)

def refuseAmbiguousClaimNames : Json → Except ParseError Unit
  | .object ms =>
    match ambiguousNames std [] (ms.map Prod.fst) with
    | some (first, name) => .error (.ambiguousClaims first name)
    | none => .ok ()
  | _ => .ok ()

/-- The switch over the algorithm. `none` and the symmetric ones fall through. -/
def verifySignature (alg signingString sig : Bytes) (key : Key PK EK) : Except ParseError Unit :=
  if alg = text "RS256" then
    match key with
    | .rsa (some k) => ensure .signatureInvalid (std.verifyPKCS1v15 k signingString sig)
    | .rsa none => .error .signatureInvalid
    | .ecdsa _ => .error .invalidKeyType
  else if alg = text "ES256" then
    match key with
    | .ecdsa (some k) => ensure .signatureInvalid (std.verifyES256 k signingString sig)
    | .ecdsa none => .error .signatureInvalid
    | .rsa _ => .error .invalidKeyType
  else .error (.unsupportedAlg alg)

def parseWithClaims (cfg : ValidationConfig) (now : Time)
    (keyFunc : Token → Except KeyError (Key PK EK)) (tokenString : Bytes) :
    Except ParseError Token := do
  let (headerSeg, payloadSeg, sigSeg) ← need .segmentCount (splitToken tokenString)
  let headerBytes ← need .headerEncoding (decodeSegment headerSeg)
  let header ← need .headerJSON ((Json.parse headerBytes).bind headerMap)
  let alg := headerString header "alg"
  ensure .missingAlg (alg ≠ [])
  ensure (.algNotAllowed alg) (cfg.validMethods.isEmpty || cfg.validMethods.contains alg)
  let claimsBytes ← need .claimsEncoding (decodeSegment payloadSeg)
  let payload ← need .claimsJSON (Json.parse claimsBytes)
  refuseAmbiguousClaimNames std payload
  let claims ← need .claimsJSON (decodeClaims std payload)
  let sig ← need .signatureEncoding (decodeSegment sigSeg)
  let token : Token := ⟨header, claims, sig, tokenString⟩
  let key ← (keyFunc token).mapError .keyfunc
  verifySignature std alg (headerSeg ++ 46 :: payloadSeg) sig key
  ensure (.claims (validateClaims cfg now claims))
    (cfg.skipValidation || (validateClaims cfg now claims).isEmpty)
  pure token

def maxJWTSize : ℕ := 8 * 1024

/-- `isValidKID`: hexadecimal digits and dashes. -/
def isValidKID (kid : Bytes) : Bool :=
  !kid.isEmpty && kid.length ≤ 64 && kid.all fun c =>
    (48 ≤ c && c ≤ 57) || (97 ≤ c && c ≤ 102) || (65 ≤ c && c ≤ 70) || c = 45

/-- The headers that would have a verifier fetch or trust another key. -/
def dangerousHeaders : List String := ["jku", "x5u", "x5c", "jwk"]

/-- The key function of `ParseAndValidate`, around the caller's. -/
def screenHeader (keyFunc : Token → Except KeyError (Key PK EK)) (t : Token) :
    Except KeyError (Key PK EK) :=
  match dangerousHeaders.find? fun h => (Json.lookup t.header (text h)).isSome with
  | some h => .error (.rejectedHeader h)
  | none =>
    if (Json.lookup t.header (text "crit")).isSome then .error .rejectedCrit
    else if headerString t.header "kid" = [] then .error .missingKid
    else if !isValidKID (headerString t.header "kid") then .error .invalidKid
    else keyFunc t

def parseAndValidate (now : Time) (keyFunc : Token → Except KeyError (Key PK EK))
    (issuer audience tokenString : Bytes) : Except TokenError VaultClaims :=
  if maxJWTSize < tokenString.length then .error .exceedsMaximumSize
  else
    match parseWithClaims std ⟨[text "RS256"], issuer, audience, true, true, false⟩ now
      (screenHeader keyFunc) tokenString with
    | .error e => .error (.parse e)
    | .ok token => .ok token.claims

/-! ### The middleware -/

/-- What the middleware does with a request: it hands it on with claims, or answers 401. -/
inductive GateResult where
  | next (claims : VaultClaims)
  | refused (message : String)
deriving DecidableEq

def schemeAllowed (acceptDPoPScheme : Bool) (scheme : Bytes) : Bool :=
  scheme = text "Bearer" || (acceptDPoPScheme && scheme = text "DPoP")

/-- The key set, looked up by the token's `kid`. -/
def lookupKey (keys : List (Bytes × Option PK)) (t : Token) : Except KeyError (Key PK EK) :=
  match keys.lookup (headerString t.header "kid") with
  | none => .error .unknownKid
  | some key => .ok (.rsa key)

/-- **`authWithTypes`**, on the value of the `Authorization` header. -/
def authWithTypes (now : Time) (keys : List (Bytes × Option PK)) (issuer audience : Bytes)
    (acceptDPoPScheme : Bool) (allowedTypes : List String) (authHeader : Bytes) : GateResult :=
  if authHeader = [] then .refused "missing_authorization"
  else
    match cut 32 authHeader with
    | none => .refused "invalid_authorization"
    | some (scheme, tokenStr) =>
      if schemeAllowed acceptDPoPScheme scheme then
        match parseAndValidate std now (lookupKey keys) issuer audience tokenStr with
        | .error _ => .refused "invalid_token"
        | .ok claims =>
          -- an absent type reads as `Bearer`
          let tt := if claims.tokenType = [] then text "Bearer" else claims.tokenType
          if (allowedTypes.map text).contains tt then .next claims
          else .refused "invalid_token_type"
      else .refused "invalid_authorization"

/-- The two kinds of route. -/
inductive Route where
  /-- `Auth` and `AuthDynamic`. -/
  | auth
  /-- `AuthChallenge` and `AuthChallengeDynamic`. -/
  | authChallenge
deriving DecidableEq, Repr

/-- The token types a route admits. -/
def Route.allowedTypes : Route → List String
  | .auth => ["Bearer"]
  | .authChallenge => ["Bearer", "2fa_challenge"]

/-- The middleware in front of a route. -/
def gate (now : Time) (keys : List (Bytes × Option PK)) (issuer audience : Bytes)
    (acceptDPoPScheme : Bool) (route : Route) (authHeader : Bytes) : GateResult :=
  authWithTypes std now keys issuer audience acceptDPoPScheme route.allowedTypes authHeader

end Parse

end Vault42.JWT
