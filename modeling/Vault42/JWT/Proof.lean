import Mathlib.Data.Nat.Size
import Vault42.Go.Quote
import Vault42.JWT.Gate

/-!
# Reading a DPoP proof

`ValidateDPoPProof` of `internal/crypto/dpop.go`. A proof is a JWT that carries the key it is signed
with in its own header, so everything in it is chosen by the sender; what counts is that the same
key has signed it, that it names the request, and when it was issued. The proof is read twice, once
for its key and once under it.

What a proof says does not depend on when it is read (`proofClaims`); only whether it is accepted
does. `parseJWKHeader_eq_ok` has what is known of a key that is read, and `validateDPoPProof_eq_ok`
everything that acceptance implies. SHA-256 and the arithmetic of the curve are the platform's.
-/

namespace Vault42.JWT

open Go Option
open Strconv (Bytes)

structure RSAPublicKey where
  n : ℕ
  e : ℕ
deriving DecidableEq, Repr

/-- What reading a proof calls. -/
structure ProofPlatform (EK : Type) extends Platform RSAPublicKey EK where
  sha256 : Bytes → { h : Bytes // h.length = 32 }
  /-- `ecdsa.ParseUncompressedPublicKey` on P-256, which checks that the point is on the curve. -/
  parseP256 : Bytes → Option EK
  /-- The name of a key's curve, and its size in bits. -/
  curve : EK → Bytes × ℕ
  /-- The bytes of `key.ECDH()`. -/
  ecdh : EK → Option Bytes

/-- `DPoPClaims`; of the embedded `RegisteredClaims` the registered fields are used. -/
structure DPoPClaims where
  registered : VaultClaims := {}
  htm : Bytes := []
  htu : Bytes := []
  ath : Bytes := []
deriving DecidableEq, Repr

/-- The members a proof can have. -/
inductive DPoPField where
  | registered (f : Field)
  | htm
  | htu
  | ath
deriving DecidableEq, Repr

/-- The struct tags, in the order of the fields. -/
def dpopFieldNames : List (Bytes × DPoPField) :=
  [(text "iss", .registered .iss), (text "sub", .registered .sub), (text "aud", .registered .aud),
    (text "exp", .registered .exp), (text "nbf", .registered .nbf), (text "iat", .registered .iat),
    (text "jti", .registered .jti), (text "htm", .htm), (text "htu", .htu), (text "ath", .ath)]

/-- The members of a `jwk` that are read. -/
inductive JWKField where
  | kty
  | n
  | e
  | crv
  | x
  | y
deriving DecidableEq, Repr

def jwkFieldNames : List (Bytes × JWKField) :=
  [(text "kty", .kty), (text "n", .n), (text "e", .e), (text "crv", .crv), (text "x", .x),
    (text "y", .y)]

/-- Why `parseJWKHeader` finds no key. -/
inductive JWKError where
  | format
  | privateMember (name : String)
  | unmarshal
  | decode (f : JWKField)
  | rsaTooSmall
  | rsaTooLarge
  | rsaExponent
  | unsupportedCurve (crv : Bytes)
  | notOnCurve
  | unsupportedKeyType (kty : Bytes)
deriving DecidableEq, Repr

/-- Why a proof is not accepted. -/
inductive DPoPError where
  | exceedsMaximumSize
  | parse
  | invalidTyp
  | kidNotAllowed
  | rejectedCrit
  | missingJWK
  | invalidJWK (e : JWKError)
  | verify (e : ParseError)
  | htmMismatch
  | htuMismatch
  | missingIat
  | age
  | missingJti
  | athMismatch
  | thumbprint
deriving DecidableEq, Repr

def dpopPrivateJWKMembers : List String := ["d", "p", "q", "dp", "dq", "qi", "oth", "k"]

def minRSAModulusBits : ℕ := 2048

def maxRSAModulusBits : ℕ := 4096

def dpopMaxAge : Duration := 5 * Duration.minute

def dpopMaxSize : ℕ := 4 * 1024

/-! ### Numbers as bytes -/

/-- `big.Int.SetBytes`: the most significant byte is the first. -/
def setBytes (s : Bytes) : ℕ := Nat.ofDigits 256 (s.reverse.map UInt8.toNat)

def bigBytes (n : ℕ) : Bytes := ((Nat.digits 256 n).map UInt8.ofNat).reverse

/-- `big.Int.FillBytes` of a number that fits. -/
def fillBytes (width n : ℕ) : Bytes := ((Nat.digitsAppend 256 width n).map UInt8.ofNat).reverse

/-- The last bytes of a number. -/
def lowBytes (width n : ℕ) : Bytes :=
  (List.range width).reverse.map fun i => UInt8.ofNat (n / 256 ^ i)

def encodeRSAExponent (e : ℕ) : Bytes :=
  if e < 256 then lowBytes 1 e
  else if e < 65536 then lowBytes 2 e
  else if e < 2 ^ 24 then lowBytes 3 e
  else lowBytes 4 e

section Proof

variable {EK : Type} (std : ProofPlatform EK)

def sha256Base64URL (s : Bytes) : Bytes := base64Encode (std.sha256 s)

def sha256Hex (s : Bytes) : Bytes :=
  (std.sha256 s).1.flatMap fun b => [Json.hexDigit (b.toNat / 16), Json.hexDigit (b.toNat % 16)]

def setDPoPField (c : DPoPClaims) (x : Json) : DPoPField → Option DPoPClaims
  | .registered f =>
    (setField std.toPlatform c.registered x f).map fun v => { c with registered := v }
  | .htm => (decodeString c.htm x).map fun v => { c with htm := v }
  | .htu => (decodeString c.htu x).map fun v => { c with htu := v }
  | .ath => (decodeString c.ath x).map fun v => { c with ath := v }

/-- `json.Unmarshal` into a `DPoPClaims`. -/
def decodeDPoPClaims : Json → Option DPoPClaims
  | .null => some {}
  | .object ms =>
    ms.foldlM (fun c (name, x) => match fieldOf std.toPlatform dpopFieldNames name with
      | some f => setDPoPField std c x f
      | none => some c) {}
  | _ => none

/-- The header and the claims of a proof (`ParseUnverified`). -/
def parseUnverified (proof : Bytes) : Except ParseError (List (Bytes × Json) × DPoPClaims) := do
  let (headerSeg, payloadSeg, _) ← need .segmentCount (splitToken proof)
  let headerBytes ← need .headerEncoding (decodeSegment headerSeg)
  let header ← need .headerJSON ((Json.parse headerBytes).bind headerMap)
  let claimsBytes ← need .claimsEncoding (decodeSegment payloadSeg)
  let payload ← need .claimsJSON (Json.parse claimsBytes)
  refuseAmbiguousClaimNames std.toPlatform payload
  let claims ← need .claimsJSON (decodeDPoPClaims std payload)
  pure (header, claims)

/-- The options of the second reading: two algorithms, and no expected issuer or audience. -/
def proofValidation : ValidationConfig :=
  ⟨[text "RS256", text "ES256"], [], [], false, false, false⟩

/-- The proof under the key it carries (`ParseWithClaims`). -/
def parseProof (now : Time) (key : Key RSAPublicKey EK) (proof : Bytes) :
    Except ParseError DPoPClaims := do
  let (headerSeg, payloadSeg, sigSeg) ← need .segmentCount (splitToken proof)
  let (header, claims) ← parseUnverified std proof
  let alg := headerString header "alg"
  ensure .missingAlg (alg ≠ [])
  ensure (.algNotAllowed alg) (proofValidation.validMethods.contains alg)
  let sig ← need .signatureEncoding (decodeSegment sigSeg)
  verifySignature std.toPlatform alg (headerSeg ++ 46 :: payloadSeg) sig key
  ensure (.claims (validateClaims proofValidation now claims.registered))
    (validateClaims proofValidation now claims.registered).isEmpty
  pure claims

def jwkPrivateMember (ms : List (Bytes × Json)) : Option String :=
  dpopPrivateJWKMembers.find? fun name => (Json.lookup ms (text name)).isSome

/-- The `jwk` as `json.Marshal` writes a map: one member of a name, in the order of the names. -/
def jwkMembers (ms : List (Bytes × Json)) : List (Bytes × Json) :=
  ((ms.map Prod.fst).dedup.insertionSort (· ≤ ·)).filterMap fun name =>
    (Json.lookup ms name).map (name, ·)

/-- It is read back by `json.Unmarshal` into strings. -/
def decodeJWK (ms : List (Bytes × Json)) : Option (JWKField → Bytes) :=
  (jwkMembers ms).foldlM (fun jwk (name, v) => match fieldOf std.toPlatform jwkFieldNames name with
    | some f => (decodeString (jwk f) v).map (Function.update jwk f)
    | none => some jwk) fun _ => []

def parseJWKHeader : Json → Except JWKError (Key RSAPublicKey EK)
  | .object ms => do
    (jwkPrivateMember ms).forM fun name => .error (.privateMember name)
    let jwk ← need .unmarshal (decodeJWK std ms)
    let member f := need (.decode f) (base64DecodeLax (jwk f))
    if jwk .kty = text "RSA" then
      let n := setBytes (← member .n)
      let e := setBytes (← member .e)
      ensure .rsaTooSmall (minRSAModulusBits ≤ n.size)
      ensure .rsaTooLarge (n.size ≤ maxRSAModulusBits)
      ensure .rsaExponent (3 ≤ e ∧ e ≤ 2 ^ 31 - 1)
      pure (.rsa (some ⟨n, e⟩))
    else if jwk .kty = text "EC" then
      ensure (.unsupportedCurve (jwk .crv)) (jwk .crv = text "P-256")
      let x := setBytes (← member .x)
      let y := setBytes (← member .y)
      ensure .notOnCurve (x.size ≤ 256 ∧ y.size ≤ 256)
      let key ← need .notOnCurve (std.parseP256 (4 :: (fillBytes 32 x ++ fillBytes 32 y)))
      pure (.ecdsa (some key))
    else .error (.unsupportedKeyType (jwk .kty))
  | _ => .error .format

/-- The JSON text a thumbprint is taken of: the members in the order of their names. -/
def thumbprintInput : Key RSAPublicKey EK → Option Bytes
  | .rsa (some k) => some (text "\x7b\"e\":\"" ++ base64Encode (encodeRSAExponent k.e) ++
      text "\",\"kty\":\"RSA\",\"n\":\"" ++ base64Encode (bigBytes k.n) ++ text "\"\x7d")
  | .ecdsa (some k) => do
    let (crv, bitSize) := std.curve k
    let byteLen := (bitSize + 7) / 8
    let raw ← std.ecdh k
    guard (raw.length = 1 + 2 * byteLen ∧ raw.head? = some 4)
    let point := raw.drop 1
    some (text "\x7b\"crv\":\"" ++ crv ++ text "\",\"kty\":\"EC\",\"x\":\"" ++
      base64Encode (point.take byteLen) ++ text "\",\"y\":\"" ++
      base64Encode (point.drop byteLen) ++ text "\"\x7d")
  | _ => none

/-- `ComputeJWKThumbprint`; a parsed key is not nil. -/
def computeJWKThumbprint (key : Key RSAPublicKey EK) : Option Bytes :=
  (thumbprintInput std key).map (sha256Base64URL std)

/-- `rejectDPoPJOSEHeaders`, and the key of the `jwk` header. -/
def proofKey (header : List (Bytes × Json)) : Except DPoPError (Key RSAPublicKey EK) := do
  ensure .invalidTyp (headerString header "typ" = text "dpop+jwt")
  ensure .kidNotAllowed (Json.lookup header (text "kid")).isNone
  ensure .rejectedCrit (Json.lookup header (text "crit")).isNone
  let jwk ← need .missingJWK (Json.lookup header (text "jwk"))
  (parseJWKHeader std jwk).mapError .invalidJWK

/-- **`ValidateDPoPProof`**, at an instant: the thumbprint of the key and the identifier of the
proof. -/
def validateDPoPProof (now : Time) (proof httpMethod httpURI accessTokenHash : Bytes) :
    Except DPoPError (Bytes × Bytes) := do
  ensure .exceedsMaximumSize (proof.length ≤ dpopMaxSize)
  let (header, _) ← (parseUnverified std proof).mapError fun _ => .parse
  let key ← proofKey std header
  let claims ← (parseProof std now key proof).mapError .verify
  ensure .htmMismatch (claims.htm = httpMethod)
  ensure .htuMismatch (claims.htu = httpURI)
  let iat ← need .missingIat claims.registered.issuedAt
  ensure .age (now - iat ≤ dpopMaxAge ∧ -dpopMaxAge ≤ now - iat)
  ensure .missingJti (claims.registered.id ≠ [])
  ensure .athMismatch (accessTokenHash = [] ∨ claims.ath = accessTokenHash)
  let thumbprint ← need .thumbprint (computeJWKThumbprint std key)
  pure (thumbprint, claims.registered.id)

/-- What a proof says, whenever it is read. -/
def proofClaims (proof : Bytes) : Option DPoPClaims :=
  ((parseUnverified std proof).map Prod.snd).toOption

end Proof

section Accepted

variable {PK EK : Type} {std : ProofPlatform EK} {now : Time} {key : Key RSAPublicKey EK}
  {proof httpMethod httpURI accessTokenHash thumbprint jti : Bytes} {claims : DPoPClaims}

/-- The proof is signed by a key over exactly its first two segments. -/
def SignedBy (std : ProofPlatform EK) (proof : Bytes) (key : Key RSAPublicKey EK) : Prop :=
  ∃ h p s sig alg, splitToken proof = some (h, p, s) ∧ decodeSegment s = some sig ∧
    verifySignature std.toPlatform alg (h ++ 46 :: p) sig key = .ok ()

/-- The keys `parseJWKHeader` lets through. -/
inductive Admissible (std : ProofPlatform EK) : Key RSAPublicKey EK → Prop where
  | rsa {n e : ℕ} (hlow : 2 ^ (minRSAModulusBits - 1) ≤ n) (hhigh : n < 2 ^ maxRSAModulusBits)
    (he : 3 ≤ e) (he' : e < 2 ^ 31) : Admissible std (.rsa (some ⟨n, e⟩))
  | ec {x y : ℕ} {k : EK} (hx : x < 2 ^ 256) (hy : y < 2 ^ 256)
    (hpoint : std.parseP256 (4 :: (fillBytes 32 x ++ fillBytes 32 y)) = some k) :
    Admissible std (.ecdsa (some k))

/-- **A key that is read** is an RSA key of a size and with an exponent within the bounds, or a
point of P-256. -/
theorem parseJWKHeader_eq_ok {jwk : Json} (h : parseJWKHeader std jwk = .ok key) :
    Admissible std key := by
  unfold parseJWKHeader at h
  split at h
  next ms =>
    simp only [bind_eq_ok] at h
    obtain ⟨-, -, jwk, -, h⟩ := h
    split at h
    · simp only [bind_eq_ok, need_eq_ok, ensure_eq_ok, decide_eq_true_eq] at h
      obtain ⟨n, -, e, -, -, hlow, -, hhigh, -, ⟨he, he'⟩, hkey⟩ := h
      cases hkey
      exact .rsa (Nat.lt_size.mp (Nat.lt_of_lt_of_le (by decide) hlow)) (Nat.size_le.mp hhigh)
        he (by omega)
    split at h
    · simp only [bind_eq_ok, need_eq_ok, ensure_eq_ok, decide_eq_true_eq] at h
      obtain ⟨-, -, x, -, y, -, -, ⟨hx, hy⟩, k, hpoint, hkey⟩ := h
      cases hkey
      exact .ec (Nat.size_le.mp hx) (Nat.size_le.mp hy) hpoint
    · cases h
  · cases h

/-- A date that is read is one of whole seconds. -/
theorem numericDate_whole {std : Platform PK EK} {s : Bytes} {t : Time}
    (h : numericDate std s = some t) :
    ∃ n, t = n * Duration.second := by
  unfold numericDate at h
  split at h
  · cases h
  next f _ =>
    split_ifs at h
    cases h
    exact ⟨_, rfl⟩

/-- The issue time, if there is one, is of whole seconds. -/
def WholeIat (c : VaultClaims) : Prop :=
  ∀ iat, c.issuedAt = some iat → ∃ n, iat = n * Duration.second

theorem wholeIat_setField {std : Platform PK EK} {c c' : VaultClaims} {x : Json} {f : Field}
    (hc : WholeIat c) (h : setField std c x f = some c') : WholeIat c' := by
  cases f <;> obtain ⟨v, hv, rfl⟩ := map_eq_some_iff.mp h
  case iat =>
    intro iat hiat
    obtain rfl : v = some iat := hiat
    unfold decodeNumericDate at hv
    split at hv
    · cases hv
    · obtain ⟨t, ht, heq⟩ := map_eq_some_iff.mp hv
      exact numericDate_whole (some.inj heq ▸ ht)
    · split_ifs at hv
      obtain ⟨t, ht, heq⟩ := map_eq_some_iff.mp hv
      exact numericDate_whole (some.inj heq ▸ ht)
    · cases hv
  all_goals exact hc

theorem wholeIat_setDPoPField {c c' : DPoPClaims} {x : Json} {f : DPoPField}
    (hc : WholeIat c.registered) (h : setDPoPField std c x f = some c') :
    WholeIat c'.registered := by
  cases f with
  | registered =>
    obtain ⟨v, hv, rfl⟩ := map_eq_some_iff.mp h
    exact wholeIat_setField hc hv
  | htm | htu | ath =>
    obtain ⟨v, -, rfl⟩ := map_eq_some_iff.mp h
    exact hc

theorem wholeIat_decode {payload : Json} (h : decodeDPoPClaims std payload = some claims) :
    WholeIat claims.registered := by
  have hempty : WholeIat (({} : DPoPClaims).registered) := nofun
  unfold decodeDPoPClaims at h
  split at h
  · cases h
    exact hempty
  next ms =>
    -- one member after the other
    revert h hempty
    generalize ({} : DPoPClaims) = c
    intro hc h
    induction ms generalizing c with
    | nil =>
      cases h
      exact hc
    | cons m ms ih =>
      rw [List.foldlM_cons] at h
      obtain ⟨c', hstep, htail⟩ := bind_eq_some_iff.mp h
      refine ih c' ?_ htail
      dsimp only at hstep
      split at hstep
      · exact wholeIat_setDPoPField hc hstep
      · cases hstep
        exact hc
  · cases h

theorem wholeIat_proofClaims (h : proofClaims std proof = some claims) :
    WholeIat claims.registered := by
  cases hparse : parseUnverified std proof with
  | error =>
    rw [proofClaims, hparse] at h
    cases h
  | ok r =>
    rw [proofClaims, hparse] at h
    obtain rfl : r.2 = claims := some.inj h
    simp only [parseUnverified, bind_eq_ok, need_eq_ok] at hparse
    obtain ⟨-, -, -, -, header, -, -, -, payload, -, -, -, claims, hdecode, hr⟩ := hparse
    cases hr
    exact wholeIat_decode hdecode

theorem parseProof_eq_ok (h : parseProof std now key proof = .ok claims) :
    proofClaims std proof = some claims ∧ SignedBy std proof key := by
  simp only [parseProof, bind_eq_ok, need_eq_ok, ensure_eq_ok] at h
  obtain ⟨⟨h, p, s⟩, hsplit, ⟨header, claims'⟩, hparse, -, -, -, -, sig, hsig, ⟨⟩, hverify, -, -,
    hclaims⟩ := h
  cases hclaims
  refine ⟨?_, h, p, s, sig, _, hsplit, hsig, hverify⟩
  rw [proofClaims, hparse]
  rfl

/-- **A proof that is accepted** is signed by the key whose thumbprint is handed on, names the
method, the address and the access token, and is no more than five minutes off the clock either
way. -/
theorem validateDPoPProof_eq_ok
    (h : validateDPoPProof std now proof httpMethod httpURI accessTokenHash =
      .ok (thumbprint, jti)) :
    ∃ key claims iat, Admissible std key ∧ SignedBy std proof key ∧
      computeJWKThumbprint std key = some thumbprint ∧
      proofClaims std proof = some claims ∧ claims.htm = httpMethod ∧ claims.htu = httpURI ∧
      claims.registered.issuedAt = some iat ∧ iat - dpopMaxAge ≤ now ∧ now ≤ iat + dpopMaxAge ∧
      claims.registered.id = jti ∧ jti ≠ [] ∧
      (accessTokenHash = [] ∨ claims.ath = accessTokenHash) := by
  simp only [validateDPoPProof, bind_eq_ok, need_eq_ok, ensure_eq_ok, mapError_eq_ok,
    decide_eq_true_eq] at h
  obtain ⟨-, -, header, -, key, hkey, claims, hparse, -, hhtm, -, hhtu, iat, hiat, -,
    hage, -, hjti, -, hath, print, hprint, hresult⟩ := h
  cases hresult
  simp only [proofKey, bind_eq_ok, mapError_eq_ok] at hkey
  obtain ⟨-, -, -, -, -, -, jwk, -, hjwk⟩ := hkey
  obtain ⟨hclaims, hsigned⟩ := parseProof_eq_ok hparse
  exact ⟨key, claims, iat, parseJWKHeader_eq_ok hjwk, hsigned, hprint, hclaims, hhtm, hhtu,
    hiat, by lia, by lia, rfl, hjti, hath⟩

theorem sha256Base64URL_ne_nil (std : ProofPlatform EK) (s : Bytes) :
    sha256Base64URL std s ≠ [] := by
  have hlen := (std.sha256 s).2
  obtain ⟨b, rest, hb⟩ := List.exists_cons_of_length_pos (l := (std.sha256 s).1) (by omega)
  rw [sha256Base64URL, hb]
  match rest with
  | [] | [_] | _ :: _ :: _ => exact List.cons_ne_nil _ _

end Accepted

end Vault42.JWT
