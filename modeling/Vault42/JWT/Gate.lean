import Vault42.JWT.Parse

/-!
# The access-token gate

What every request that passes `Auth` or `AuthChallenge` has in common. The conditions are enforced
in four places, in this order: `parseWithClaims` reads the three segments and the header,
`screenHeader` and `lookupKey` choose the key, `verifySignature` and `validateClaims` check what the
key has signed, and `authWithTypes` checks the type against the route. Each has an inversion lemma
of its own here, and `access_token_gate` puts them together. A token that fails anywhere leaves no
claims behind.
-/

namespace Vault42.JWT

open Go
open Strconv (Bytes)

/-! ### Successful steps -/

section Except

variable {ε α β : Type}

theorem bind_eq_ok {x : Except ε α} {f : α → Except ε β} {b : β} :
    x >>= f = .ok b ↔ ∃ a, x = .ok a ∧ f a = .ok b := by
  cases x with
  | error =>
    constructor
    · rintro ⟨⟩
    · rintro ⟨a, h, -⟩
      cases h
  | ok a =>
    constructor
    · exact fun h => ⟨a, rfl, h⟩
    · rintro ⟨a', ⟨⟩, h⟩
      exact h

theorem need_eq_ok {e : ε} {o : Option α} {a : α} : need e o = .ok a ↔ o = some a := by
  cases o <;> simp [need]

theorem ensure_eq_ok {e : ε} {b : Bool} {u : Unit} : ensure e b = .ok u ↔ b := by
  cases b <;> simp [ensure]

theorem mapError_eq_ok {δ : Type} {f : ε → δ} {x : Except ε α} {a : α} :
    x.mapError f = .ok a ↔ x = .ok a := by
  cases x <;> simp [Except.mapError]

end Except

/-! ### What a token says -/

/-- The token is three segments: there is no further dot. -/
structure Segmented (raw h p s : Bytes) : Prop where
  raw_eq : raw = h ++ 46 :: (p ++ 46 :: s)
  header : 46 ∉ h
  payload : 46 ∉ p
  signature : 46 ∉ s

theorem segmented_of_splitToken {raw h p s : Bytes} (hsplit : splitToken raw = some (h, p, s)) :
    Segmented raw h p s := by
  unfold splitToken at hsplit
  split at hsplit
  · cases hsplit
  next h' rest hcut =>
    split at hsplit
    · cases hsplit
    next p' sig hcut' =>
      split at hsplit
      · cases hsplit
      next hnone =>
        cases hsplit
        obtain ⟨rfl, hh⟩ := cut_eq_some hcut
        obtain ⟨rfl, hp⟩ := cut_eq_some hcut'
        exact ⟨rfl, hh, hp, cut_eq_none (by simpa using hnone)⟩

/-- The header parameters no token may carry. -/
def forbiddenHeaders : List String := ["crit", "jku", "x5u", "x5c", "jwk"]

/-- The first segment is a JSON object that names RS256 and the key `kid`, and carries none of the
forbidden parameters. -/
def Names (h kid : Bytes) : Prop :=
  ∃ bytes header, decodeSegment h = some bytes ∧ Json.parse bytes = some (.object header) ∧
    Json.lookup header (text "alg") = some (.string (text "RS256")) ∧
    Json.lookup header (text "kid") = some (.string kid) ∧
    ∀ name ∈ forbiddenHeaders, Json.lookup header (text name) = none

section Gate

variable {PK EK : Type} {std : Platform PK EK} {keys : List (Bytes × Option PK)} {now : Time}
  {issuer audience : Bytes}

/-- The third segment is a signature, by the key of `kid` in the current set, of exactly the first
two segments as they were received. -/
def Signed (std : Platform PK EK) (keys : List (Bytes × Option PK)) (h p s kid : Bytes) : Prop :=
  ∃ key sig, keys.lookup kid = some (some key) ∧ decodeSegment s = some sig ∧
    std.verifyPKCS1v15 key (h ++ 46 :: p) sig

/-- The claims are what the second segment decodes to. -/
def Decodes (std : Platform PK EK) (p : Bytes) (claims : VaultClaims) : Prop :=
  ∃ bytes payload, decodeSegment p = some bytes ∧ Json.parse bytes = some payload ∧
    decodeClaims std payload = some claims

/-- The claims are for this vault and for now. -/
structure Current (now : Time) (issuer audience : Bytes) (claims : VaultClaims) : Prop where
  issuer_eq : claims.issuer = issuer
  audience_mem : audience ∈ claims.audience
  expiry : ∃ exp, claims.expiresAt = some exp ∧ now < exp
  notBefore : ∀ nbf, claims.notBefore = some nbf → nbf ≤ now
  issuedAt : ∀ iat, claims.issuedAt = some iat → iat ≤ now

/-- The type is one the route admits; no type is the type `Bearer`. -/
def Admitted (route : Route) (claims : VaultClaims) : Prop :=
  claims.tokenType = [] ∨ ∃ type ∈ route.allowedTypes, claims.tokenType = text type

/-! ### The four layers -/

variable {claims : VaultClaims}

/-- `validateClaims` has nothing to say about current claims only. -/
theorem current_of_validateClaims (hi : issuer ≠ []) (ha : audience ≠ []) {methods : List Bytes}
    (h : validateClaims ⟨methods, issuer, audience, true, true, false⟩ now claims = []) :
    Current now issuer audience claims := by
  simp only [validateClaims, List.append_eq_nil_iff] at h
  obtain ⟨⟨⟨⟨hexp, hnbf⟩, hiat⟩, hiss⟩, haud⟩ := h
  refine ⟨?_, ?_, ?_, ?_, ?_⟩
  · by_contra hne
    rw [if_pos ⟨hi, hne⟩] at hiss
    cases hiss
  · by_contra hne
    rw [if_pos ⟨ha, hne⟩] at haud
    cases haud
  · cases hc : claims.expiresAt with
    | none =>
      rw [hc] at hexp
      cases hexp
    | some exp =>
      rw [hc] at hexp
      refine ⟨exp, rfl, ?_⟩
      by_contra hle
      simp only [if_neg hle] at hexp
      cases hexp
  · intro nbf hc
    rw [hc] at hnbf
    by_contra hlt
    simp only [if_pos (not_le.mp hlt)] at hnbf
    cases hnbf
  · intro iat hc
    rw [if_pos trivial, hc] at hiat
    by_contra hlt
    simp only [if_pos (not_le.mp hlt)] at hiat
    cases hiat

/-- A header parameter that is not the empty string is a string in the header. -/
theorem lookup_of_headerString {header : List (Bytes × Json)} {name : String}
    (h : headerString header name ≠ []) :
    Json.lookup header (text name) = some (.string (headerString header name)) := by
  unfold headerString at h ⊢
  split at h
  next s hs => rw [hs]
  · exact absurd rfl h

/-- A key is handed out only for a header without a forbidden parameter, and it is the key of its
`kid`. -/
theorem screenHeader_eq_ok {t : Token} {key : Key PK EK}
    (h : screenHeader (lookupKey keys) t = .ok key) :
    (∀ name ∈ forbiddenHeaders, Json.lookup t.header (text name) = none) ∧
      Json.lookup t.header (text "kid") = some (.string (headerString t.header "kid")) ∧
      ∃ k, keys.lookup (headerString t.header "kid") = some k ∧ key = .rsa k := by
  unfold screenHeader at h
  split at h
  · cases h
  next hnone =>
    split_ifs at h with hcrit hkid hvalid
    refine ⟨fun name hname => ?_, lookup_of_headerString hkid, ?_⟩
    · rcases List.mem_cons.mp hname with rfl | hname
      · simpa using hcrit
      · have hsome := List.find?_eq_none.mp hnone name hname
        simpa using hsome
    · unfold lookupKey at h
      split at h
      · cases h
      next k hk => exact ⟨k, hk, (Except.ok.inj h).symm⟩

/-- A signature that verifies under `RS256` verifies under an RSA key. -/
theorem verifySignature_eq_ok {signingString sig : Bytes} {k : Option PK} {u : Unit}
    (h : verifySignature std (text "RS256") signingString sig (.rsa k) = .ok u) :
    ∃ key, k = some key ∧ std.verifyPKCS1v15 key signingString sig := by
  unfold verifySignature at h
  rw [if_pos rfl] at h
  cases k with
  | none => cases h
  | some key => exact ⟨key, rfl, ensure_eq_ok.mp h⟩

/-- **A token that parses.** -/
theorem parseWithClaims_eq_ok (hi : issuer ≠ []) (ha : audience ≠ []) {raw : Bytes} {token : Token}
    (h : parseWithClaims std ⟨[text "RS256"], issuer, audience, true, true, false⟩ now
      (screenHeader (lookupKey keys)) raw = .ok token) :
    ∃ h p s kid, Segmented raw h p s ∧ Names h kid ∧ Signed std keys h p s kid ∧
      Decodes std p token.claims ∧ Current now issuer audience token.claims := by
  simp only [parseWithClaims, bind_eq_ok, need_eq_ok, ensure_eq_ok, mapError_eq_ok] at h
  obtain ⟨⟨h, p, s⟩, hsplit, headerBytes, hheader, header, hjson, -, halg, -, hmethod, claimsBytes,
    hclaims, payload, hpayload, -, -, claims, hdecode, sig, hsig, key, hkey, u, hverify, -, hvalid,
    htoken⟩ := h
  obtain rfl := Except.ok.inj htoken
  obtain ⟨hforbidden, hkid, k, hk, rfl⟩ := screenHeader_eq_ok hkey
  -- the one method that is allowed
  have hrs : headerString header "alg" = text "RS256" := by simpa using hmethod
  rw [hrs] at hverify
  obtain ⟨pk, rfl, hsigned⟩ := verifySignature_eq_ok hverify
  have halg' : Json.lookup header (text "alg") = some (.string (text "RS256")) := by
    rw [lookup_of_headerString (by simpa using halg), hrs]
  obtain ⟨j, hj, hmap⟩ := Option.bind_eq_some_iff.mp hjson
  have hobject : j = .object header := by
    cases j with
    | object => exact congrArg _ (Option.some.inj hmap)
    | null =>
      obtain rfl : [] = header := Option.some.inj hmap
      cases hkid
    | _ => cases hmap
  rw [hobject] at hj
  refine ⟨h, p, s, _, segmented_of_splitToken hsplit, ⟨_, _, hheader, hj, halg', hkid, hforbidden⟩,
    ⟨pk, sig, hk, hsig, hsigned⟩, ⟨_, _, hclaims, hpayload, hdecode⟩, ?_⟩
  exact current_of_validateClaims hi ha (by simpa using hvalid)

theorem parseAndValidate_eq_ok {keyFunc : Token → Except KeyError (Key PK EK)} {raw : Bytes}
    (h : parseAndValidate std now keyFunc issuer audience raw = .ok claims) :
    ∃ token, parseWithClaims std ⟨[text "RS256"], issuer, audience, true, true, false⟩ now
      (screenHeader keyFunc) raw = .ok token ∧ claims = token.claims := by
  unfold parseAndValidate at h
  split at h
  · cases h
  split at h
  · cases h
  next token htoken => exact ⟨token, htoken, (Except.ok.inj h).symm⟩

/-- A request that passes was parsed, and its type is on the list. -/
theorem authWithTypes_eq_next {acceptDPoPScheme : Bool} {allowedTypes : List String}
    {authHeader : Bytes}
    (h : authWithTypes std now keys issuer audience acceptDPoPScheme allowedTypes authHeader =
      .next claims) :
    ∃ scheme raw, cut 32 authHeader = some (scheme, raw) ∧
      parseAndValidate std now (lookupKey keys) issuer audience raw = .ok claims ∧
      (claims.tokenType = [] ∨ ∃ type ∈ allowedTypes, claims.tokenType = text type) := by
  unfold authWithTypes at h
  split at h
  · cases h
  split at h
  · cases h
  next scheme raw hcut =>
    split at h
    swap
    · cases h
    split at h
    · cases h
    next claims' hparse =>
      dsimp only at h
      split_ifs at h with hnil hmem hmem
      · cases h
        exact ⟨scheme, raw, hcut, hparse, .inl hnil⟩
      · cases h
        obtain ⟨type, htype, heq⟩ := List.mem_map.mp (List.contains_iff_mem.mp hmem)
        exact ⟨scheme, raw, hcut, hparse, .inr ⟨type, htype, heq.symm⟩⟩

theorem gate_eq_next {acceptDPoPScheme : Bool} {route : Route} {authHeader : Bytes}
    (h : gate std now keys issuer audience acceptDPoPScheme route authHeader = .next claims) :
    ∃ scheme raw, cut 32 authHeader = some (scheme, raw) ∧
      parseAndValidate std now (lookupKey keys) issuer audience raw = .ok claims ∧
      Admitted route claims :=
  authWithTypes_eq_next h

/-- A type that is neither absent nor on the route's list is not that of an admitted token. -/
theorem Admitted.ne {route : Route} (h : Admitted route claims) {type : Bytes} (hne : type ≠ [])
    (hnot : type ∉ route.allowedTypes.map text) : claims.tokenType ≠ type := by
  intro heq
  rcases h with hnil | ⟨allowed, hmem, hallowed⟩
  · exact hne (heq ▸ hnil)
  · exact hnot (heq ▸ hallowed ▸ List.mem_map_of_mem hmem)

/-- The type `mint` of minted tokens (`MintedTokenType`). -/
def mintedTokenType : String := "mint"

/-- **The access-token gate.** A request that passes carries a token of exactly three segments that
names RS256 and a key of the current set, carries none of the forbidden header parameters, and is
signed by that key over exactly the text received; the claims handed on are the decoding of that
text, are for this vault and for now, and are of a type the route admits. So no challenge token
passes `Auth`, and no minted token passes either gate. A token that is not accepted hands on no
claims. -/
theorem access_token_gate (std : Platform PK EK) (now : Time) (keys : List (Bytes × Option PK))
    (hi : issuer ≠ []) (ha : audience ≠ []) (acceptDPoPScheme : Bool) (route : Route)
    (authHeader : Bytes) :
    (∀ claims, gate std now keys issuer audience acceptDPoPScheme route authHeader = .next claims →
      (∃ scheme raw h p s kid, authHeader = scheme ++ 32 :: raw ∧ Segmented raw h p s ∧
        Names h kid ∧ Signed std keys h p s kid ∧ Decodes std p claims) ∧
      Current now issuer audience claims ∧ Admitted route claims ∧
      (route = .auth → claims.tokenType ≠ text "2fa_challenge") ∧
      claims.tokenType ≠ text mintedTokenType) ∧
    ∀ scheme raw e, cut 32 authHeader = some (scheme, raw) →
      parseAndValidate std now (lookupKey keys) issuer audience raw = .error e →
      ∃ message, gate std now keys issuer audience acceptDPoPScheme route authHeader =
        .refused message := by
  constructor
  · intro claims hgate
    obtain ⟨scheme, raw, hcut, hparse, htype⟩ := gate_eq_next hgate
    obtain ⟨hheader, -⟩ := cut_eq_some hcut
    obtain ⟨token, htoken, rfl⟩ := parseAndValidate_eq_ok hparse
    obtain ⟨h, p, s, kid, hsegmented, hnames, hsigned, hdecodes, hcurrent⟩ :=
      parseWithClaims_eq_ok hi ha htoken
    refine ⟨⟨scheme, raw, h, p, s, kid, hheader, hsegmented, hnames, hsigned, hdecodes⟩, hcurrent,
      htype, ?_, ?_⟩
    · rintro rfl
      exact htype.ne (by decide) (by decide)
    · exact htype.ne (by decide) (by cases route <;> decide)
  · intro scheme raw e hcut herr
    simp only [gate, authWithTypes, hcut, herr]
    split_ifs <;> exact ⟨_, rfl⟩

end Gate

/-! ### A token that passes -/

namespace Sample

/-- A platform with one key, whose signature of a text is its length. -/
def platform : Platform Unit Unit where
  toLower := id
  foldName := id
  parseFloat s := some (Strconv.parseInt s).1
  verifyPKCS1v15 _ message sig := sig == [UInt8.ofNat message.length]
  verifyES256 _ _ _ := false

/-- A token for issuer `v` and audience `w` that expires at 9, signed by the key `a1`. -/
def bearer : Bytes :=
  text "Bearer eyJhbGciOiJSUzI1NiIsImtpZCI6ImExIn0.eyJpc3MiOiJ2IiwiYXVkIjoidyIsImV4cCI6OX0.Sw"

theorem bearer_passes : ∃ claims,
    gate platform 4 [(text "a1", some ())] (text "v") (text "w") false .auth bearer = .next claims ∧
      Current 4 (text "v") (text "w") claims := by
  have hpass : gate platform 4 [(text "a1", some ())] (text "v") (text "w") false .auth bearer =
      .next { issuer := text "v", audience := [text "w"], expiresAt := some 9000000000 } := by
    decide +kernel
  exact ⟨_, hpass, ((access_token_gate platform 4 [(text "a1", some ())] (by decide) (by decide)
    false .auth bearer).1 _ hpass).2.1⟩

end Sample

end Vault42.JWT
