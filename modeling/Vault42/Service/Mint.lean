import Vault42.Go.Text
import Vault42.JWT.Sign

/-!
# Minting

`MintService` of `internal/service/mint.go` signs a token for a subject that the caller
authenticated elsewhere. The vault has no record of such a token and cannot revoke it, so everything
rests on what the token can do: the policy is checked once at start-up (`newMintService`), the
request against the policy (`Service.mint`), and the token type and audience are chosen so that the
vault's own gates turn the token away.

A minted token is powerless (`Powerless`) exactly when its audience, written as JSON and read back,
is not the vault's own origin (`mint_powerless_iff`). `NewMintService` compares the two as they are
configured. That is the same comparison for every audience that is UTF-8, but not for one that holds
a byte of no character: such a byte is written as `U+FFFD`, and an origin may hold a `U+FFFD` of its
own.
-/

namespace Vault42.Mint

open Go List Json Duration
open Strconv (Bytes)
open JWT

/-! ### Reserved names -/

def reservedAdminRoles : List Bytes := [text "admin", text "super_admin"]

/-- `IsReservedAdminRole`. `unicode` is `strings.ToLower` on texts that are not ASCII. -/
def isReservedAdminRole (unicode : Bytes → Bytes) (name : Bytes) : Bool :=
  reservedAdminRoles.contains (toLower unicode (trimSpace name))

def filterUserRoles (unicode : Bytes → Bytes) (roles : List Bytes) : List Bytes :=
  roles.filter fun r => !isReservedAdminRole unicode r

/-- `mintDeniedScopes`: the vault's own capability scopes. -/
def mintDeniedScopes : List Bytes :=
  [text "mint:token", text "kms:unwrap", text "svcdoc:read", text "svcdoc:write",
    text "login:status", text "admin", text "admin:read", text "admin:write"]

/-- A spelling of a name in some case, with some spacing around it. -/
def Spells (name role : Bytes) : Prop :=
  ∃ pre core post, role = pre ++ core ++ post ∧ White pre ∧ White post ∧ core.map lowerByte = name

/-! ### The policy -/

def mintTTLCeiling : Duration := 15 * minute

structure MintConfig where
  issuer : Bytes
  audience : Bytes
  defaultTTL : Duration
  maxTTL : Duration
  allowedRoles : List Bytes := []
  allowedScopes : List Bytes := []
  allowEmail : Bool := false
deriving DecidableEq

/-- Why a policy is refused at start-up. -/
inductive PolicyError where
  | signerRequired
  | issuerRequired
  | audienceRequired
  | audienceIsIssuer
  | maxTTL
  | defaultTTL
  | adminRole (role : Bytes)
  | capabilityScope (scope : Bytes)
deriving DecidableEq, Repr

/-- `SigningKeyProvider`: the active key, as what it does to a text, and its id. `K` is the state of
the key store. -/
abbrev SigningKeyProvider (K : Type) := K → Option (Bytes → Option Bytes) × Bytes

/-- What the service calls: the tables of `unicode`, and `sanitize.Email`. -/
structure Texts where
  unicode : Bytes → Bytes
  email : Bytes → Bool

structure Service (K : Type) where
  signer : SigningKeyProvider K
  cfg : MintConfig
  allowedRoles : List Bytes
  allowedScopes : List Bytes

def newMintService {K : Type} (texts : Texts) (signer : Option (SigningKeyProvider K))
    (cfg : MintConfig) : Except PolicyError (Service K) := do
  let signer ← need .signerRequired signer
  ensure .issuerRequired (cfg.issuer ≠ [])
  ensure .audienceRequired (cfg.audience ≠ [])
  ensure .audienceIsIssuer (cfg.audience ≠ cfg.issuer)
  ensure .maxTTL (0 < cfg.maxTTL ∧ cfg.maxTTL ≤ mintTTLCeiling)
  ensure .defaultTTL (0 < cfg.defaultTTL ∧ cfg.defaultTTL ≤ cfg.maxTTL)
  match cfg.allowedRoles.find? (isReservedAdminRole texts.unicode) with
  | some role => .error (.adminRole role)
  | none =>
    match cfg.allowedScopes.find? (mintDeniedScopes.contains ·) with
    | some scope => .error (.capabilityScope scope)
    | none => .ok ⟨signer, cfg, cfg.allowedRoles, cfg.allowedScopes⟩

/-! ### A request -/

inductive MintError where
  | subjectInvalid
  | roleNotPermitted
  | scopeNotPermitted
  | ttlInvalid
  | unavailable
  | emailNotPermitted
  | emailInvalid
  /-- No random identifier. -/
  | jti
  | sign
deriving DecidableEq, Repr

/-- `MintTTLFromSeconds`. The product is one of machine integers, so the bound stands before it. -/
def mintTTLFromSeconds (seconds : Int64) : Except MintError Duration :=
  if seconds < 0 ∨ 900 < seconds then .error .ttlInvalid
  else .ok (seconds * 1000000000).toInt

structure MintRequest where
  subject : Bytes
  roles : List Bytes := []
  scopes : List Bytes := []
  email : Bytes := []
  ttl : Duration := 0
  mintedBy : Bytes

structure MintResult where
  token : Bytes
  subject : Bytes
  roles : List Bytes
  scopes : List Bytes
  email : Bytes
  audience : Bytes
  issuer : Bytes
  jti : Bytes
  kid : Bytes
  expiresAt : Time
  expiresIn : ℤ
deriving DecidableEq, Repr

def alphanumeric (b : UInt8) : Bool :=
  (65 ≤ b && b ≤ 90) || (97 ≤ b && b ≤ 122) || (48 ≤ b && b ≤ 57)

def mintSubjectRe : Bytes → Bool
  | [] => false
  | b :: s => alphanumeric b &&
      s.all fun c => alphanumeric c || c == 46 || c == 95 || c == 64 || c == 45

def validateMintSubject (subject : Bytes) : Except MintError Unit :=
  ensure .subjectInvalid (subject ≠ [] ∧ subject.length ≤ 128 ∧ mintSubjectRe subject)

def validateMintEmail (texts : Texts) (email : Bytes) : Except MintError Bytes := do
  let normalized := toLower texts.unicode (trimSpace email)
  ensure .emailInvalid (texts.email normalized)
  pure normalized

def newNumericDate (t : Time) : Time := t / second * second

section Mint

variable {K : Type} (texts : Texts) (s : Service K)

def Service.checkRoles (requested : List Bytes) : Except MintError (List Bytes) := do
  if requested = [] then pure []
  else
    ensure .roleNotPermitted (requested.all fun r =>
      !(isReservedAdminRole texts.unicode r || !s.allowedRoles.contains r))
    let filtered := filterUserRoles texts.unicode requested
    ensure .roleNotPermitted (filtered.length = requested.length)
    pure filtered

def Service.checkScopes (requested : List Bytes) : Except MintError (List Bytes) := do
  ensure .scopeNotPermitted (requested.all fun sc =>
    !(mintDeniedScopes.contains sc || !s.allowedScopes.contains sc))
  pure requested

def Service.checkEmail (email : Bytes) : Except MintError Bytes :=
  if email = [] then .ok []
  else if !s.cfg.allowEmail then .error .emailNotPermitted
  else validateMintEmail texts email

/-- The lifetime that is asked for, or the default. -/
def Service.lifetime (ttl : Duration) : Duration := if ttl = 0 then s.cfg.defaultTTL else ttl

/-- The claims of a minted token. There is no client id, no fingerprint and no confirmation. -/
def Service.claims (req : MintRequest) (roles scopes : List Bytes) (email jti : Bytes)
    (now : Time) :
    VaultClaims where
  issuer := s.cfg.issuer
  audience := [s.cfg.audience]
  subject := req.subject
  expiresAt := some (newNumericDate (now + s.lifetime req.ttl))
  notBefore := some (newNumericDate now)
  issuedAt := some (newNumericDate now)
  id := jti
  roles := roles
  scopes := scopes
  mintedBy := req.mintedBy
  tokenType := text mintedTokenType
  email := email

/-- **`Mint`**, at an instant and with the random identifier it draws. -/
def Service.mint (k : K) (now : Time) (jti : Option Bytes) (req : MintRequest) :
    Except MintError MintResult := do
  validateMintSubject req.subject
  let roles ← s.checkRoles texts req.roles
  let scopes ← s.checkScopes req.scopes
  let email ← s.checkEmail texts req.email
  let ttl := s.lifetime req.ttl
  ensure .ttlInvalid (0 ≤ ttl ∧ ttl ≤ s.cfg.maxTTL)
  let key ← need .unavailable (s.signer k).1
  ensure .unavailable ((s.signer k).2 ≠ [])
  let jti ← need .jti jti
  let token ← need .sign
    (signRS256 key (s.claims req roles scopes email jti now) (s.signer k).2)
  pure { token := token, subject := req.subject, roles := roles, scopes := scopes, email := email,
         audience := s.cfg.audience, issuer := s.cfg.issuer, jti := jti, kid := (s.signer k).2,
         expiresAt := now + ttl, expiresIn := ttl / second }

end Mint

/-- `MintRequestBody`, once it has been decoded: what JSON gives a string is UTF-8. -/
structure MintRequestBody where
  subject : Bytes
  roles : List Bytes := []
  scopes : List Bytes := []
  email : Bytes := []
  ttlSeconds : Int64 := 0
  utf8 : ∀ r ∈ roles ++ scopes, Json.repair r = r := by decide

/-- The handler, behind the gate, for the client `clientID`. -/
def handleMint {K : Type} (texts : Texts) (s : Service K) (k : K) (now : Time) (jti : Option Bytes)
    (clientID : Bytes) (body : MintRequestBody) : Except MintError MintResult := do
  let ttl ← mintTTLFromSeconds body.ttlSeconds
  s.mint texts k now jti
    { subject := body.subject, roles := body.roles, scopes := body.scopes, email := body.email,
      ttl := ttl, mintedBy := clientID }

/-! ### What a minted token can do -/

/-- The lifetime a number of seconds asks for; none is the default. -/
def MintConfig.asked (cfg : MintConfig) (seconds : Int64) : Duration :=
  if seconds = 0 then cfg.defaultTTL else seconds.toInt * second

/-- The token is of no use inside the vault, and of limited use elsewhere. The two reasons for which
the gates turn it away are independent: its type is enough whatever audience a gate expects, and its
audience is enough whatever types a gate admits. What the token says is what any reader finds in
it. -/
structure Powerless (cfg : MintConfig) (seconds : Int64) (now : Time) (token : Bytes) : Prop where
  refused_for_type : ∀ {PK EK : Type} (std : Platform PK EK) (t : Time)
    (keys : List (Bytes × Option PK)) (issuer audience : Bytes) (dpop : Bool) (route : Route)
    (header scheme : Bytes) (c : VaultClaims), cut 32 header = some (scheme, token) →
    gate std t keys issuer audience dpop route header ≠ .next c
  refused_for_audience : ∀ {PK EK : Type} (std : Platform PK EK) (t : Time)
    (keys : List (Bytes × Option PK)) (dpop : Bool) (types : List String) (header scheme : Bytes)
    (c : VaultClaims), cut 32 header = some (scheme, token) →
    authWithTypes std t keys cfg.issuer cfg.issuer dpop types header ≠ .next c
  audience : ∀ {PK EK : Type} {std : Platform PK EK} {c : VaultClaims}, Reads std token c →
    cfg.issuer ∉ c.audience
  roles : ∀ {PK EK : Type} {std : Platform PK EK} {c : VaultClaims}, Reads std token c →
    ∀ r ∈ c.roles, r ∈ cfg.allowedRoles ∧ ∀ name ∈ reservedAdminRoles, ¬ Spells name r
  scopes : ∀ {PK EK : Type} {std : Platform PK EK} {c : VaultClaims}, Reads std token c →
    ∀ x ∈ c.scopes, x ∈ cfg.allowedScopes ∧ x ∉ mintDeniedScopes
  clientID : ∀ {PK EK : Type} {std : Platform PK EK} {c : VaultClaims}, Reads std token c →
    c.clientID = []
  expiry : ∀ {PK EK : Type} {std : Platform PK EK} {c : VaultClaims}, ReadsDates std →
    Reads std token c → ∃ exp, c.expiresAt = some exp ∧ exp ≤ now + cfg.asked seconds
  lifetime : cfg.asked seconds ≤ cfg.maxTTL ∧ cfg.asked seconds ≤ mintTTLCeiling

/-! ### The policy that was accepted -/

section Accepted

variable {K : Type} {texts : Texts} {s : Service K}

/-- What start-up has checked. -/
structure Accepted (texts : Texts) (s : Service K) : Prop where
  issuer_ne : s.cfg.issuer ≠ []
  audience_ne : s.cfg.audience ≠ s.cfg.issuer
  maxTTL : s.cfg.maxTTL ≤ mintTTLCeiling
  defaultTTL : s.cfg.defaultTTL ≤ s.cfg.maxTTL
  allowedRoles : s.allowedRoles = s.cfg.allowedRoles
  allowedScopes : s.allowedScopes = s.cfg.allowedScopes

theorem accepted_of_newMintService {signer : Option (SigningKeyProvider K)} {cfg : MintConfig}
    (h : newMintService texts signer cfg = .ok s) : Accepted texts s ∧ s.cfg = cfg := by
  simp only [newMintService, bind_eq_ok, need_eq_ok, ensure_eq_ok, decide_eq_true_eq] at h
  obtain ⟨signer, -, -, hissuer, -, -, -, haudience, -, hmax, -, hdefault, h⟩ := h
  split at h
  · cases h
  split at h
  · cases h
  cases h
  exact ⟨⟨hissuer, haudience, hmax.2, hdefault.2, rfl, rfl⟩, rfl⟩

/-! ### The checks of a request -/

theorem reserved_letters : ∀ name ∈ reservedAdminRoles, ∀ b ∈ name,
    97 ≤ b.toNat ∧ b.toNat ≤ 122 ∨ b.toNat = 95 := by decide +kernel

/-- A name that spells a reserved one is refused. -/
theorem isReservedAdminRole_of_spells {unicode : Bytes → Bytes} {name role : Bytes}
    (hname : name ∈ reservedAdminRoles) (h : Spells name role) :
    isReservedAdminRole unicode role := by
  obtain ⟨pre, core, post, rfl, hpre, hpost, hlower⟩ := h
  -- a letter of the core is one of the name, in some case
  have hletters := reserved_letters name hname
  have hcore : ∀ b ∈ core, 65 ≤ b.toNat ∧ b.toNat ≤ 122 := by
    intro b hb
    have hmem : lowerByte b ∈ name := hlower ▸ mem_map_of_mem hb
    have hrange := hletters _ hmem
    rw [toNat_lowerByte] at hrange
    split at hrange <;> omega
  have hplain : ∀ b ∈ core, plainByte b := by
    intro b hb
    have := hcore b hb
    rw [plainByte, Bool.and_eq_true, decide_eq_true_eq, decide_eq_true_eq, UInt8.lt_iff_toNat_lt,
      UInt8.lt_iff_toNat_lt]
    exact ⟨lt_of_lt_of_le (by decide) this.1, lt_of_le_of_lt this.2 (by decide)⟩
  have hascii : core.all (· < 128) := by
    rw [all_eq_true]
    intro b hb
    rw [decide_eq_true_eq, UInt8.lt_iff_toNat_lt]
    exact lt_of_le_of_lt (hcore b hb).2 (by decide)
  rw [isReservedAdminRole, trimSpace_white hpre hplain hpost, toLower, if_pos hascii, hlower,
    contains_iff_mem]
  exact hname

theorem checkRoles_eq_ok {requested roles : List Bytes}
    (h : s.checkRoles texts requested = .ok roles) :
    ∀ r ∈ roles, r ∈ requested ∧ r ∈ s.allowedRoles ∧ ∀ name ∈ reservedAdminRoles,
      ¬ Spells name r := by
  unfold Service.checkRoles at h
  split at h
  · cases h
    exact fun r hr => absurd hr not_mem_nil
  · simp only [bind_eq_ok, ensure_eq_ok, all_eq_true] at h
    obtain ⟨-, hall, -, -, hroles⟩ := h
    cases hroles
    intro r hr
    have hmem := mem_of_mem_filter hr
    have hr' := hall r hmem
    rw [Bool.not_eq_true', Bool.or_eq_false_iff, Bool.not_eq_false', contains_iff_mem] at hr'
    refine ⟨hmem, hr'.2, fun name hname hspells => ?_⟩
    rw [isReservedAdminRole_of_spells hname hspells] at hr'
    exact Bool.noConfusion hr'.1

theorem checkScopes_eq_ok {requested scopes : List Bytes}
    (h : s.checkScopes requested = .ok scopes) :
    ∀ x ∈ scopes, x ∈ requested ∧ x ∈ s.allowedScopes ∧ x ∉ mintDeniedScopes := by
  simp only [Service.checkScopes, bind_eq_ok, ensure_eq_ok, all_eq_true] at h
  obtain ⟨-, hall, hscopes⟩ := h
  cases hscopes
  intro x hx
  have hx' := hall x hx
  rw [Bool.not_eq_true', Bool.or_eq_false_iff, Bool.not_eq_false', contains_iff_mem] at hx'
  refine ⟨hx, hx'.2, fun hdenied => ?_⟩
  rw [contains_iff_mem.mpr hdenied] at hx'
  exact Bool.noConfusion hx'.1

/-- **A mint that succeeds**: its claims, and how long they last. -/
theorem mint_eq_ok {k : K} {now : Time} {jti : Option Bytes} {req : MintRequest}
    {result : MintResult} (h : s.mint texts k now jti req = .ok result) :
    ∃ roles scopes email id key, s.checkRoles texts req.roles = .ok roles ∧
      s.checkScopes req.scopes = .ok scopes ∧ s.lifetime req.ttl ≤ s.cfg.maxTTL ∧
      signRS256 key (s.claims req roles scopes email id now) (s.signer k).2 =
        some result.token := by
  simp only [Service.mint, bind_eq_ok, need_eq_ok, ensure_eq_ok, decide_eq_true_eq] at h
  obtain ⟨-, -, roles, hroles, scopes, hscopes, email, -, -, httl, key, -, -, -, id, -,
    token, htoken, hresult⟩ := h
  cases hresult
  exact ⟨roles, scopes, email, id, key, hroles, hscopes, httl.2, htoken⟩

theorem newNumericDate_le (t : Time) : newNumericDate t ≤ t :=
  Int.ediv_mul_le t (by decide)

/-- The conversion is exact for what it lets through. -/
theorem mintTTLFromSeconds_eq_ok {seconds : Int64} {ttl : Duration}
    (h : mintTTLFromSeconds seconds = .ok ttl) : ttl = seconds.toInt * second := by
  unfold mintTTLFromSeconds at h
  split_ifs at h with hrange
  cases h
  simp only [not_or, Int64.not_lt, Int64.le_iff_toInt_le] at hrange
  rw [Int64.toInt_mul]
  have hlo : (0 : Int64).toInt = 0 := rfl
  have hhi : (900 : Int64).toInt = 900 := rfl
  have hnano : (1000000000 : Int64).toInt = 1000000000 := rfl
  rw [hlo, hhi] at hrange
  rw [hnano, Int.bmod_eq_of_le (by lia) (by lia)]
  rfl

/-- Asking for nothing and asking for zero seconds are the same. -/
theorem lifetime_eq_asked {seconds : Int64} {ttl : Duration}
    (h : mintTTLFromSeconds seconds = .ok ttl) :
    s.lifetime ttl = s.cfg.asked seconds := by
  have hexact := mintTTLFromSeconds_eq_ok h
  have hzero : ttl = 0 ↔ seconds = 0 := by
    rw [hexact, ← Int64.toInt_inj, show (0 : Int64).toInt = 0 from rfl, second]
    lia
  rw [Service.lifetime, MintConfig.asked, if_congr hzero rfl hexact]

/-! ### Reading a minted token -/

section Read

variable {PK EK : Type} {std : Platform PK EK} {c c' : VaultClaims} {kid token : Bytes}
  {sign : Bytes → Option Bytes}

section

variable (hsign : signRS256 sign c kid = some token) (h : Reads std token c')
include hsign h

theorem read_tokenType : c'.tokenType = repair c.tokenType :=
  read_text .tokenType _ (fun _ => rfl) (fun _ _ => rfl) ((reads_signRS256 hsign).mp h)

theorem read_clientID : c'.clientID = repair c.clientID :=
  read_text .clientID _ (fun _ => rfl) (fun _ _ => rfl) ((reads_signRS256 hsign).mp h)

theorem read_audience : c'.audience = c.audience.map repair :=
  read_list .aud _ (fun _ => rfl) (fun acc l => by rw [setField, decodeClaimStrings_strings]; rfl)
    ((reads_signRS256 hsign).mp h)

theorem read_roles : c'.roles = c.roles.map repair :=
  read_list .roles _ (fun _ => rfl) (fun acc l => by rw [setField, decodeStrings_strings]; rfl)
    ((reads_signRS256 hsign).mp h)

theorem read_scopes : c'.scopes = c.scopes.map repair :=
  read_list .scopes _ (fun _ => rfl) (fun acc l => by rw [setField, decodeStrings_strings]; rfl)
    ((reads_signRS256 hsign).mp h)

end

variable {keys : List (Bytes × Option PK)}

/-- The minted type is on the list of no route. -/
theorem gate_ne_next_of_type (hsign : signRS256 sign c kid = some token)
    (htype : c.tokenType = text mintedTokenType) {t : Time} {issuer audience header scheme : Bytes}
    {dpop : Bool} {route : Route} (hheader : cut 32 header = some (scheme, token)) :
    gate std t keys issuer audience dpop route header ≠ .next c' := by
  intro hnext
  obtain ⟨hreads, -, hadmitted⟩ := reads_of_authWithTypes hheader hnext
  have hread := read_tokenType hsign hreads
  rw [htype] at hread
  have hallowed : Admitted route c' := hadmitted
  exact hallowed.ne (by decide) (by cases route <;> decide) hread

/-- Whatever types a gate admits, it expects its own audience. -/
theorem authWithTypes_ne_next_of_audience (hsign : signRS256 sign c kid = some token)
    {origin : Bytes} (hne : origin ≠ []) (haudience : origin ∉ c.audience.map repair) {t : Time}
    {issuer header scheme : Bytes} {dpop : Bool} {types : List String}
    (hheader : cut 32 header = some (scheme, token)) :
    authWithTypes std t keys issuer origin dpop types header ≠ .next c' := by
  intro hnext
  obtain ⟨hreads, hmem, -⟩ := reads_of_authWithTypes hheader hnext
  rw [← read_audience hsign hreads] at haudience
  exact haudience (hmem hne)

end Read

/-- A platform that reads every date as the epoch. -/
def epochPlatform : Platform Unit Unit where
  toLower := id
  foldName := id
  parseFloat _ := some 0
  verifyPKCS1v15 _ _ _ := false
  verifyES256 _ _ _ := false

theorem map_repair_eq {l m : List Bytes} (hm : ∀ r ∈ m, repair r = r) (hsub : ∀ r ∈ l, r ∈ m) :
    l.map repair = l := by
  rw [map_congr_left (g := id) fun r hr => hm r (hsub r hr), map_id]

/-- **A minted token is powerless exactly when its audience is not read as the origin.** Every other
part of the statement holds of every token that an accepted policy mints. -/
theorem mint_powerless_iff {signer : Option (SigningKeyProvider K)} {cfg : MintConfig}
    (hservice : newMintService texts signer cfg = .ok s) {k : K} {now : Time} {jti : Option Bytes}
    {clientID : Bytes} {body : MintRequestBody} {minted : MintResult}
    (hminted : handleMint texts s k now jti clientID body = .ok minted) :
    Powerless cfg body.ttlSeconds now minted.token ↔ Json.repair cfg.audience ≠ cfg.issuer := by
  obtain ⟨haccepted, rfl⟩ := accepted_of_newMintService hservice
  rw [handleMint, bind_eq_ok] at hminted
  obtain ⟨ttl, httl, hminted⟩ := hminted
  obtain ⟨roles, scopes, email, id, key, hroles, hscopes, hmax, hsign⟩ := mint_eq_ok hminted
  have hroles := checkRoles_eq_ok hroles
  have hscopes := checkScopes_eq_ok hscopes
  have hlifetime := lifetime_eq_asked (s := s) httl
  constructor
  · intro h hrepair
    obtain ⟨c, hc⟩ : ∃ c, decodeClaims epochPlatform
        (Json.repaired (claimsJSON (s.claims _ roles scopes email id now))) = some c :=
      decodeClaims_isSome (fun _ => rfl) rfl rfl
    have hreads := (reads_signRS256 hsign).mpr hc
    refine h.audience hreads ?_
    rw [read_audience hsign hreads]
    exact List.mem_singleton.mpr hrepair.symm
  · intro hrepair
    have haudience : s.cfg.issuer ∉ [s.cfg.audience].map Json.repair := by
      rw [List.map_singleton, List.mem_singleton]
      exact Ne.symm hrepair
    refine
      { refused_for_type := fun std t keys issuer audience dpop route header scheme c hheader =>
          gate_ne_next_of_type hsign rfl hheader
        refused_for_audience := fun std t keys dpop types header scheme c hheader =>
          authWithTypes_ne_next_of_audience hsign haccepted.issuer_ne haudience hheader
        audience := fun hreads => read_audience hsign hreads ▸ haudience
        roles := fun {PK EK std c} hreads r hr => ?_
        scopes := fun {PK EK std c} hreads x hx => ?_
        clientID := read_clientID hsign
        expiry := fun {PK EK std c} hdates hreads => ?_
        lifetime := ?_ }
    · have hread := read_roles hsign hreads
      rw [Service.claims, map_repair_eq body.utf8
        fun r hr => List.mem_append_left _ (hroles r hr).1] at hread
      rw [hread] at hr
      exact haccepted.allowedRoles ▸ (hroles r hr).2
    · have hread := read_scopes hsign hreads
      rw [Service.claims, map_repair_eq body.utf8
        fun x hx => List.mem_append_right _ (hscopes x hx).1] at hread
      rw [hread] at hx
      exact haccepted.allowedScopes ▸ (hscopes x hx).2
    · refine ⟨_, read_expiresAt hdates rfl ((reads_signRS256 hsign).mp hreads), ?_⟩
      have hexp : newNumericDate (now + s.lifetime ttl) ≤ now + s.cfg.asked body.ttlSeconds :=
        hlifetime ▸ newNumericDate_le (now + s.lifetime ttl)
      exact le_trans (newNumericDate_le _) hexp
    · rw [hlifetime] at hmax
      exact ⟨hmax, le_trans hmax haccepted.maxTTL⟩

end Accepted

/-! ### Two policies -/

namespace Sample

/-- ASCII only, and any address. -/
def texts : Texts := ⟨id, fun _ => true⟩

/-- One key, whose signature of a text is its length. -/
def signer : SigningKeyProvider Unit :=
  fun _ => (some fun m => some [UInt8.ofNat m.length], text "a1")

/-- A policy for the audience `r`, of the origin `v`. -/
def cfg : MintConfig where
  issuer := text "v"
  audience := text "r"
  defaultTTL := 5 * minute
  maxTTL := 10 * minute
  allowedRoles := [text "user"]

def service : Service Unit := ⟨signer, cfg, [text "user"], []⟩

/-- The role `user` for the subject `u1`, for a minute. -/
def body : MintRequestBody where
  subject := text "u1"
  roles := [text "user"]
  ttlSeconds := 60

/-- The origin ends in a `U+FFFD`; where the audience differs from it, there is a byte of no
character. -/
def torn : MintConfig where
  issuer := text "v" ++ replacement
  audience := text "v" ++ [255]
  defaultTTL := 5 * minute
  maxTTL := 10 * minute

def tornService : Service Unit := ⟨signer, torn, [], []⟩

def bare : MintRequestBody where
  subject := text "u1"

theorem minute_token_powerless : ∃ minted,
    handleMint texts service () (7 * Duration.second) (some (text "j")) (text "c") body =
      .ok minted ∧ Powerless cfg 60 (7 * Duration.second) minted.token := by
  have hservice : newMintService texts (some signer) cfg = .ok service := rfl
  have hok : (handleMint texts service () (7 * Duration.second) (some (text "j")) (text "c")
      body).toBool := by decide +kernel
  cases hminted : handleMint texts service () (7 * Duration.second) (some (text "j"))
    (text "c") body with
  | error =>
    rw [hminted] at hok
    cases hok
  | ok minted =>
    exact ⟨minted, rfl, (mint_powerless_iff hservice hminted).mpr (by decide)⟩

theorem torn_audience_passes : ∃ minted,
    newMintService texts (some signer) torn = .ok tornService ∧
      handleMint texts tornService () (7 * Duration.second) (some (text "j")) (text "c") bare =
        .ok minted ∧
      (∃ c, authWithTypes JWT.Sample.platform (8 * Duration.second) [(text "a1", some ())]
        torn.issuer torn.issuer false ["mint"] (text "Bearer " ++ minted.token) = .next c) ∧
      ¬ Powerless torn 0 (7 * Duration.second) minted.token := by
  have hpass :
    (match handleMint texts tornService () (7 * Duration.second) (some (text "j")) (text "c")
      bare with
    | .ok minted => (match authWithTypes JWT.Sample.platform (8 * Duration.second)
        [(text "a1", some ())] torn.issuer torn.issuer false ["mint"]
          (text "Bearer " ++ minted.token) with
      | .next _ => true
      | .refused _ => false)
    | .error _ => false) = true := by decide +kernel
  cases hminted : handleMint texts tornService () (7 * Duration.second) (some (text "j")) (text "c")
      bare with
  | error e =>
    rw [hminted] at hpass
    cases hpass
  | ok minted =>
    simp only [hminted] at hpass
    split at hpass
    next c hnext =>
      refine ⟨minted, rfl, rfl, ⟨c, hnext⟩, fun hpowerless => ?_⟩
      have hheader : cut 32 (text "Bearer " ++ minted.token) = some (text "Bearer", minted.token) :=
        cut_append (x := text "Bearer") (by decide) minted.token
      exact hpowerless.refused_for_audience _ _ _ _ _ _ _ c hheader hnext
    next => cases hpass

end Sample

end Vault42.Mint
