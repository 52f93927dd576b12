import Vault42.Go.Marshal
import Vault42.JWT.Gate

/-!
# Signing a token

`SignRS256` of `internal/jwt`: a header, the claims as `json.Marshal` writes the struct, and the
signature. A field that is empty is left out (`omitempty`), so every member that is written belongs
to one field, in the order of the struct.

`reads_signRS256` says what a reader finds in a token that was signed here, before any check: the
claims decode from the repair of what was written. From it follow, field by field, the claims a
reader sees; the text fields come back as the repair of the text that was signed, and nothing comes
back that was not put in.
-/

namespace Vault42.JWT

open Go List Option Json
open Strconv (Bytes)

/-! ### The claims as JSON -/

/-- A `string` field with `omitempty`. -/
def textMember (s : Bytes) : Option Json := if s = [] then none else some (.string s)

/-- A `[]string` field with `omitempty`. -/
def listMember (l : List Bytes) : Option Json :=
  if l = [] then none else some (.array (l.map .string))

/-- A `*NumericDate` field with `omitempty`: whole seconds since the epoch. -/
def dateMember (d : Option Time) : Option Json :=
  d.map fun t => .number (Strconv.formatInt (t / Duration.second))

def member (c : VaultClaims) : Field → Option Json
  | .iss => textMember c.issuer
  | .sub => textMember c.subject
  | .aud => listMember c.audience
  | .exp => dateMember c.expiresAt
  | .nbf => dateMember c.notBefore
  | .iat => dateMember c.issuedAt
  | .jti => textMember c.id
  | .roles => listMember c.roles
  | .scopes => listMember c.scopes
  | .clientID => textMember c.clientID
  | .fingerprint => textMember c.fingerprint
  | .cnf =>
    c.confirmation.map fun jkt => .object ((textMember jkt).toList.map fun x => (text "jkt", x))
  | .tokenType => textMember c.tokenType
  | .mintedBy => textMember c.mintedBy
  | .acr => textMember c.acr
  | .amr => listMember c.amr
  | .authTime => if c.authTime = 0 then none else some (.number (Strconv.formatInt c.authTime))
  | .factors => listMember c.factors
  | .email => textMember c.email

/-- `json.Marshal` of a `VaultClaims`, as a value. -/
def claimsJSON (c : VaultClaims) : Json :=
  .object (fieldNames.filterMap fun (name, f) => (member c f).map fun x => (name, x))

/-- The header. A map is written in the order of its keys. -/
def headerJSON (kid : Bytes) : Json :=
  .object [(text "alg", .string (text "RS256")), (text "kid", .string kid),
    (text "typ", .string (text "JWT"))]

def signingString (claims : VaultClaims) (kid : Bytes) : Bytes :=
  base64Encode (Json.marshal (headerJSON kid)) ++
    46 :: base64Encode (Json.marshal (claimsJSON claims))

/-- **`SignRS256`**, with the key as what it does to a text. -/
def signRS256 (sign : Bytes → Option Bytes) (claims : VaultClaims) (kid : Bytes) : Option Bytes :=
  (sign (signingString claims kid)).map fun sig => signingString claims kid ++
    46 :: base64Encode sig

/-! ### What is written is read -/

theorem sound_textMember {s : Bytes} {x : Json} (h : textMember s = some x) : Json.Sound x := by
  unfold textMember at h
  split at h
  · cases h
  · cases h
    trivial

theorem soundElements_strings (l : List Bytes) : Json.SoundElements (l.map .string) := by
  induction l with
  | nil => trivial
  | cons s l ih => exact ⟨trivial, ih⟩

theorem sound_member {c : VaultClaims} {f : Field} {x : Json} (h : member c f = some x) :
    Json.Sound x := by
  have hlist : ∀ {l}, listMember l = some x → Json.Sound x := by
    intro l hl
    unfold listMember at hl
    split at hl
    · cases hl
    · cases hl
      exact soundElements_strings l
  have hdate : ∀ {d}, dateMember d = some x → Json.Sound x := by
    intro d hd
    obtain ⟨t, -, rfl⟩ := map_eq_some_iff.mp hd
    exact numeral_formatInt
  cases f with
  | iss | sub | jti | clientID | fingerprint | tokenType | mintedBy | acr | email =>
    exact sound_textMember h
  | aud | roles | scopes | amr | factors => exact hlist h
  | exp | nbf | iat => exact hdate h
  | cnf =>
    obtain ⟨jkt, -, rfl⟩ := map_eq_some_iff.mp h
    cases hx : textMember jkt with
    | none => trivial
    | some => exact ⟨sound_textMember hx, trivial⟩
  | authTime =>
    rw [member] at h
    split at h
    · cases h
    · cases h
      exact numeral_formatInt

theorem sound_claimsJSON (c : VaultClaims) : Json.Sound (claimsJSON c) := by
  have hmembers : ∀ names : List (Bytes × Field), Json.SoundMembers
      (names.filterMap fun (name, f) => (member c f).map fun x => (name, x)) := by
    intro names
    induction names with
    | nil => trivial
    | cons e names ih =>
      obtain ⟨name, f⟩ := e
      cases hx : member c f with
      | none => simpa only [filterMap_cons, hx, map_none] using ih
      | some =>
        simp only [filterMap_cons, hx, map_some]
        exact ⟨sound_member hx, ih⟩
  exact hmembers fieldNames

/-- The names are ASCII, and each is the name of its field. -/
theorem repair_fieldName : ∀ e ∈ fieldNames, repair e.1 = e.1 := by decide

theorem lookup_fieldName : ∀ e ∈ fieldNames, fieldNames.lookup e.1 = some e.2 := by decide

section Read

variable {PK EK : Type} {std : Platform PK EK} {c acc c' : VaultClaims}

/-- The fields in turn. One that was left out stays what it is. -/
def readFields (std : Platform PK EK) (c acc : VaultClaims) (fs : List Field) :
    Option VaultClaims :=
  fs.foldlM (fun acc f => match member c f with
    | none => some acc
    | some x => setField std acc (Json.repaired x) f) acc

/-- A written member is read into the field it was written from. -/
theorem decodeClaims_claimsJSON (std : Platform PK EK) (c : VaultClaims) :
    decodeClaims std (repaired (claimsJSON c)) = readFields std c {} (fieldNames.map Prod.snd) := by
  have hfold : ∀ step : VaultClaims → Bytes × Json → Option VaultClaims,
      (∀ c n x f, fieldOf std fieldNames n = some f → step c (n, x) = setField std c x f) →
      ∀ names acc, names ⊆ fieldNames →
      (repairedMembers
        (names.filterMap fun (name, f) => (member c f).map fun x => (name, x))).foldlM step acc =
      readFields std c acc (names.map Prod.snd) := by
    intro step hstep names
    induction names with
    | nil => exact fun acc _ => rfl
    | cons e names ih =>
      intro acc hsub
      have htail : names ⊆ fieldNames := fun e he => hsub (mem_cons_of_mem _ he)
      have hfield : fieldOf std fieldNames (repair e.1) = some e.2 := by
        rw [repair_fieldName e (hsub mem_cons_self), fieldOf,
          lookup_fieldName e (hsub mem_cons_self), some_or]
      cases hx : member c e.2 with
      | none =>
        simp only [filterMap_cons, hx, map_none, map_cons, readFields, foldlM_cons,
          bind_eq_bind, bind_some]
        exact ih acc htail
      | some =>
        simp only [filterMap_cons, hx, map_some, map_cons, readFields, foldlM_cons,
          repairedMembers, hstep _ _ _ _ hfield]
        congr 1
        funext acc
        exact ih acc htail
  exact hfold _ (fun c n x f h => by simp only [h]) fieldNames {} (Subset.refl _)

/-- A part of the claims that the field `f` alone writes. -/
def Frames (std : Platform PK EK) {α : Type} (π : VaultClaims → α) (f : Field) : Prop :=
  ∀ {acc c' : VaultClaims} {x : Json} {g : Field}, g ≠ f → setField std acc x g = some c' →
    π c' = π acc

theorem frames_member (f : Field) : Frames std (fun c => member c f) f := by
  intro acc c' x g hne h
  cases g <;>
    · obtain ⟨v, -, rfl⟩ := map_eq_some_iff.mp h
      cases f <;> first | rfl | exact absurd rfl hne

theorem frames_expiresAt : Frames std VaultClaims.expiresAt .exp := by
  intro acc c' x g hne h
  cases g <;>
    · obtain ⟨v, -, rfl⟩ := map_eq_some_iff.mp h
      first | rfl | exact absurd rfl hne

section Frame

variable {α : Type} {π : VaultClaims → α} {f : Field}

theorem readFields_of_notMem (hπ : Frames std π f) {fs : List Field} (hf : f ∉ fs)
    (h : readFields std c acc fs = some c') : π c' = π acc := by
  induction fs generalizing acc with
  | nil =>
    cases h
    rfl
  | cons g fs ih =>
    rw [mem_cons, not_or] at hf
    rw [readFields, foldlM_cons] at h
    obtain ⟨acc', hstep, htail⟩ := bind_eq_some_iff.mp h
    rw [ih hf.2 htail]
    split at hstep
    · cases hstep
      rfl
    · exact hπ (Ne.symm hf.1) hstep

/-- A part after all fields: what the member of its own field left, if there was one. -/
theorem readFields_of_mem (hπ : Frames std π f) {fs : List Field} (hnodup : fs.Nodup) (hf : f ∈ fs)
    (h : readFields std c acc fs = some c') :
    match member c f with
    | none => π c' = π acc
    | some x =>
      ∃ before after, setField std before (repaired x) f = some after ∧ π c' = π after := by
  induction fs generalizing acc with
  | nil => cases hf
  | cons g fs ih =>
    rw [nodup_cons] at hnodup
    rw [readFields, foldlM_cons] at h
    obtain ⟨acc', hstep, htail⟩ := bind_eq_some_iff.mp h
    by_cases hg : g = f
    · subst hg
      have hrest := readFields_of_notMem hπ hnodup.1 htail
      cases hx : member c g with
      | none =>
        rw [hx] at hstep
        cases hstep
        exact hrest
      | some =>
        rw [hx] at hstep
        exact ⟨acc, acc', hstep, hrest⟩
    · have hacc : π acc' = π acc := by
        split at hstep
        · cases hstep
          rfl
        · exact hπ hg hstep
      have hlater := ih hnodup.2 ((mem_cons.mp hf).resolve_left (Ne.symm hg)) htail
      rwa [hacc] at hlater

/-- **What is read of a field.** -/
theorem read_field (hπ : Frames std π f)
    (h : decodeClaims std (repaired (claimsJSON c)) = some c') :
    match member c f with
    | none => π c' = π {}
    | some x =>
      ∃ before after, setField std before (repaired x) f = some after ∧ π c' = π after := by
  rw [decodeClaims_claimsJSON] at h
  exact readFields_of_mem hπ (by decide) (by cases f <;> decide) h

end Frame

theorem textMember_inj {s t : Bytes} (h : textMember s = textMember t) : s = t := by
  unfold textMember at h
  split_ifs at h with hs ht
  · rw [hs, ht]
  · exact string.inj (some.inj h)

theorem map_string_inj {l m : List Bytes} (h : l.map string = m.map string) : l = m :=
  map_injective_iff.mpr (fun _ _ => string.inj) h

theorem listMember_inj {l m : List Bytes} (h : listMember l = listMember m) : l = m := by
  unfold listMember at h
  split_ifs at h with hl hm
  · rw [hl, hm]
  · exact map_string_inj (array.inj (some.inj h))

theorem repairedElements_strings (l : List Bytes) :
    repairedElements (l.map .string) = (l.map repair).map .string := by
  induction l with
  | nil => rfl
  | cons s l ih => rw [map_cons, repairedElements, ih]; rfl

/-- A text field is read as the repair of what was written. -/
theorem read_text (f : Field) (π : VaultClaims → Bytes)
    (hmember : ∀ c, member c f = textMember (π c))
    (hset : ∀ acc s, (setField std acc (.string s) f).map π = some s)
    (h : decodeClaims std (repaired (claimsJSON c)) = some c') : π c' = repair (π c) := by
  have hread := read_field (frames_member f) h
  have hempty : member {} f = none := by cases f <;> rfl
  rw [hempty, hmember c, hmember c'] at hread
  by_cases hnil : π c = []
  · rw [hnil] at hread ⊢
    exact textMember_inj hread
  · rw [textMember, if_neg hnil] at hread
    obtain ⟨before, after, hstep, hafter⟩ := hread
    have hvalue := hset before (repair (π c))
    rw [repaired] at hstep
    rw [hstep, map_some] at hvalue
    rw [hmember] at hafter
    rw [textMember_inj hafter, some.inj hvalue]

theorem read_list (f : Field) (π : VaultClaims → List Bytes)
    (hmember : ∀ c, member c f = listMember (π c))
    (hset : ∀ acc l, (setField std acc (.array (l.map .string)) f).map π = some l)
    (h : decodeClaims std (repaired (claimsJSON c)) = some c') :
    π c' = (π c).map repair := by
  have hread := read_field (frames_member f) h
  have hempty : member {} f = none := by cases f <;> rfl
  rw [hempty, hmember c, hmember c'] at hread
  by_cases hnil : π c = []
  · rw [hnil] at hread ⊢
    exact listMember_inj hread
  · rw [listMember, if_neg hnil] at hread
    obtain ⟨before, after, hstep, hafter⟩ := hread
    have hvalue := hset before ((π c).map repair)
    rw [repaired, repairedElements_strings] at hstep
    rw [hstep, map_some] at hvalue
    rw [hmember] at hafter
    rw [listMember_inj hafter, some.inj hvalue]

theorem decodeClaimStrings_strings (old l : List Bytes) :
    decodeClaimStrings old (.array (l.map .string)) = some l := by
  rw [decodeClaimStrings]
  induction l with
  | nil => rfl
  | cons s l ih => rw [map_cons, mapM_cons, ih]; rfl

theorem decodeStrings_strings (old l : List Bytes) :
    decodeStrings old (.array (l.map .string)) = some l := by
  rw [decodeStrings]
  generalize 0 = i
  induction l generalizing i with
  | nil => rfl
  | cons s l ih => rw [map_cons, zipIdx_cons, mapM_cons, ih]; rfl

/-- A whole number of seconds is read as itself when it is read at all: up to the last instant a
`NumericDate` may name, a `float64` holds it exactly. -/
def ReadsDates (std : Platform PK EK) : Prop :=
  ∀ {n : ℤ} {t : Time}, numericDate std (Strconv.formatInt n) = some t → t = n * Duration.second

theorem read_expiresAt (hdates : ReadsDates std) {exp : Time} (hexp : c.expiresAt = some exp)
    (h : decodeClaims std (repaired (claimsJSON c)) = some c') :
    c'.expiresAt = some (exp / Duration.second * Duration.second) := by
  have hread := read_field frames_expiresAt h
  rw [member, hexp] at hread
  obtain ⟨before, after, hstep, hafter⟩ := hread
  obtain ⟨v, hv, rfl⟩ := map_eq_some_iff.mp hstep
  obtain ⟨t, ht, rfl⟩ := map_eq_some_iff.mp hv
  rw [hafter, hdates ht]

/-- Claims without a binding and an authentication time always decode, on a platform that reads
every date. -/
theorem decodeClaims_isSome (hdates : ∀ s, (numericDate std s).isSome)
    (hcnf : c.confirmation = none) (hauth : c.authTime = 0) :
    ∃ c', decodeClaims std (repaired (claimsJSON c)) = some c' := by
  have htext : ∀ {s x} old, textMember s = some x →
      (decodeString old (repaired x)).isSome := by
    intro s x old h
    unfold textMember at h
    split at h
    · cases h
    · cases h
      rfl
  have hlist : ∀ {l x}, listMember l = some x →
      ∃ m : List Bytes, repaired x = .array (m.map .string) := by
    intro l x h
    unfold listMember at h
    split at h
    · cases h
    · cases h
      exact ⟨_, by rw [repaired, repairedElements_strings]⟩
  have hdate : ∀ {d x}, dateMember d = some x →
      (decodeNumericDate std (repaired x)).isSome := by
    intro d x h
    obtain ⟨t, -, rfl⟩ := map_eq_some_iff.mp h
    rw [repaired, decodeNumericDate, isSome_map]
    exact hdates _
  have hstep : ∀ acc {f : Field} {x : Json}, member c f = some x →
      (setField std acc (repaired x) f).isSome := by
    intro acc f x hx
    cases f with
    | iss | sub | jti | clientID | fingerprint | tokenType | mintedBy | acr | email =>
      rw [setField, isSome_map]
      exact htext _ hx
    | exp | nbf | iat =>
      rw [setField, isSome_map]
      exact hdate hx
    | aud =>
      obtain ⟨m, hm⟩ := hlist hx
      rw [setField, isSome_map, hm, decodeClaimStrings_strings]
      rfl
    | roles | scopes | amr | factors =>
      obtain ⟨m, hm⟩ := hlist hx
      rw [setField, isSome_map, hm, decodeStrings_strings]
      rfl
    | cnf =>
      rw [member, hcnf] at hx
      cases hx
    | authTime =>
      rw [member, if_pos hauth] at hx
      cases hx
  have hfold : ∀ fs acc, ∃ c', readFields std c acc fs = some c' := by
    intro fs
    induction fs with
    | nil => exact fun acc => ⟨acc, rfl⟩
    | cons f fs ih =>
      intro acc
      rw [readFields, foldlM_cons]
      cases hx : member c f with
      | none => exact ih acc
      | some =>
        obtain ⟨acc', hacc⟩ := isSome_iff_exists.mp (hstep acc hx)
        simp only [hacc, bind_eq_bind, bind_some]
        exact ih acc'
  rw [decodeClaims_claimsJSON]
  exact hfold _ _

/-! ### The token -/

/-- What a reader finds in a token, before any check. -/
def Reads (std : Platform PK EK) (token : Bytes) (claims : VaultClaims) : Prop :=
  ∃ h p s, splitToken token = some (h, p, s) ∧ Decodes std p claims

/-- **A signed token reads as the repair of what was signed.** -/
theorem reads_signRS256 {sign : Bytes → Option Bytes} {kid token : Bytes}
    (h : signRS256 sign c kid = some token) :
    Reads std token c' ↔ decodeClaims std (repaired (claimsJSON c)) = some c' := by
  obtain ⟨sig, -, rfl⟩ := map_eq_some_iff.mp h
  have hsplit : splitToken (signingString c kid ++ 46 :: base64Encode sig) =
      some (base64Encode (marshal (headerJSON kid)),
        base64Encode (marshal (claimsJSON c)), base64Encode sig) := by
    rw [splitToken, signingString, append_assoc, cons_append,
      cut_append (dot_notMem_base64Encode)]
    simp only [cut_append dot_notMem_base64Encode,
      cut_of_notMem dot_notMem_base64Encode, isSome_none, Bool.false_eq_true, if_false]
  have hbytes : decodeSegment (base64Encode (marshal (claimsJSON c))) =
      some (marshal (claimsJSON c)) := base64Decode_encode _
  constructor
  · rintro ⟨h, p, s, hparts, bytes, payload, hseg, hparse, hdecode⟩
    rw [hsplit] at hparts
    cases hparts
    rw [hbytes] at hseg
    cases hseg
    rw [parse_marshal (sound_claimsJSON c)] at hparse
    cases hparse
    exact hdecode
  · intro hdecode
    exact ⟨_, _, _, hsplit, _, _, hbytes, parse_marshal (sound_claimsJSON c), hdecode⟩

/-- A token that parses was read, and its claims pass the checks. -/
theorem reads_of_parseWithClaims {cfg : ValidationConfig} {now : Time}
    {keyFunc : Token → Except KeyError (Key PK EK)} {raw : Bytes} {token : Token}
    (hcfg : cfg.skipValidation = false) (h : parseWithClaims std cfg now keyFunc raw = .ok token) :
    Reads std raw token.claims ∧ validateClaims cfg now token.claims = [] := by
  simp only [parseWithClaims, bind_eq_ok, need_eq_ok, ensure_eq_ok, mapError_eq_ok] at h
  obtain ⟨⟨h, p, s⟩, hsplit, headerBytes, -, header, -, -, -, -, -, claimsBytes, hclaims, payload,
    hpayload, -, -, claims, hdecode, sig, -, key, -, u, -, -, hvalid, htoken⟩ := h
  obtain rfl := Except.ok.inj htoken
  rw [hcfg, Bool.false_or, List.isEmpty_iff] at hvalid
  exact ⟨⟨h, p, s, hsplit, claimsBytes, payload, hclaims, hpayload, hdecode⟩, hvalid⟩

/-- **The claims that a gate hands on** are what the token reads as; the audience is among theirs,
and their type is on the list. -/
theorem reads_of_authWithTypes {now : Time} {keys : List (Bytes × Option PK)}
    {issuer audience header scheme token : Bytes} {dpop : Bool} {types : List String}
    (hheader : cut 32 header = some (scheme, token))
    (h : authWithTypes std now keys issuer audience dpop types header = .next c') :
    Reads std token c' ∧ (audience ≠ [] → audience ∈ c'.audience) ∧
      (c'.tokenType = [] ∨ ∃ type ∈ types, c'.tokenType = text type) := by
  obtain ⟨scheme', raw, hcut, hparse, htype⟩ := authWithTypes_eq_next h
  rw [hheader] at hcut
  cases hcut
  obtain ⟨tok, htok, rfl⟩ := parseAndValidate_eq_ok hparse
  obtain ⟨hreads, hvalid⟩ := reads_of_parseWithClaims (by rfl) htok
  refine ⟨hreads, fun hne => ?_, htype⟩
  simp only [validateClaims, append_eq_nil_iff] at hvalid
  have haudience := hvalid.2
  by_contra hnot
  rw [if_pos ⟨hne, hnot⟩] at haudience
  cases haudience

end Read

end Vault42.JWT
