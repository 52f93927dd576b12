import Vault42.Identity.Profile
import Mathlib.Data.Set.Insert

/-!
# What a ciphertext is bound to

The fields that are encrypted under the master key, each with the associated data that its code
passes to `vaultcrypto.Encrypt` and `vaultcrypto.Decrypt`: `docAAD`
(`internal/service/servicedoc.go`), `blobDataAAD` and `blobLabelAAD` (`blob.go`), the pseudonym of a
profile (`identity.go`), the user or the admin of a TOTP secret (`internal/handler/totp.go`,
`internal/adminapi/auth.go`) and the kid of a signing key (`internal/keystore`).

The seven formats carry no common tag. What keeps them apart is their lengths, once the ids have the
shapes that the columns and the code give them; only the two TOTP formats are as long as each other.
-/

namespace Vault42.Records

/-- `vaultcrypto.Encrypt`: a plaintext and the associated data it is bound to. -/
structure Sealed (A B : Type) where
  aad : A
  plaintext : B
deriving DecidableEq, Repr

def svcDocMaxKeyLen : ℕ := 128

/-- `svcDocKeyRe`: segments joined by `.`, `_` or `-`. -/
def svcDocKeyRe (key : String) : Bool :=
  (key.toList.splitOnP fun c => c == '.' || c == '_' || c == '-').all Identity.isSegment

def validateDocKey (key : String) : Bool :=
  !(key == "" || svcDocMaxKeyLen < key.utf8ByteSize || !svcDocKeyRe key)

/-- An encrypted field of a row, with the columns that its associated data is built from. The rows
of documents and of TOTP secrets have an id of their own besides. -/
inductive Field where
  | document (id clientID subjectHash docKey : String)
  | blobData (id pseudo : String)
  | blobLabel (id pseudo : String)
  | identity (pseudo : String)
  | totp (id userID : String)
  | adminTOTP (adminID : String)
  | signingKey (kid : String)
deriving DecidableEq, Repr

/-! ### Associated data -/

def docAAD (clientID subjectHash docKey : String) : String :=
  "svcdoc:" ++ clientID ++ ":" ++ subjectHash ++ ":" ++ docKey

def blobAADSafeID (id : String) : Bool := !id.toList.contains ':'

def errBlobIDNamespace : String := "blob: id must not contain ':'"

def blobDataAAD (id pseudo : String) : Except String String :=
  if !blobAADSafeID id then .error errBlobIDNamespace else .ok (id ++ ":" ++ pseudo)

def blobLabelAAD (id pseudo : String) : Except String String :=
  if !blobAADSafeID id then .error errBlobIDNamespace else .ok ("label:" ++ id ++ ":" ++ pseudo)

namespace Field

def aad : Field → Except String String
  | document _ clientID subjectHash docKey => .ok (docAAD clientID subjectHash docKey)
  | blobData id pseudo => blobDataAAD id pseudo
  | blobLabel id pseudo => blobLabelAAD id pseudo
  | identity pseudo => .ok pseudo
  | totp _ userID => .ok userID
  | adminTOTP adminID => .ok adminID
  | signingKey kid => .ok kid

/-- `Encrypt` of a value for this field. -/
def encrypt {B : Type} (f : Field) (plaintext : B) : Except String (Sealed String B) :=
  f.aad.map fun aad => ⟨aad, plaintext⟩

/-- `Decrypt` of what is found in this field: an ideal AES-GCM opens nothing under other associated
data. -/
def decrypt {B : Type} (f : Field) (c : Sealed String B) : Except String B :=
  f.aad.bind fun aad =>
    if c.aad = aad then .ok c.plaintext
    else .error "aes: decrypt: cipher: message authentication failed"

end Field

/-! ### Shapes -/

def isHexDigit (c : Char) : Bool :=
  c.isDigit || ('a' ≤ c && c ≤ 'f') || ('A' ≤ c && c ≤ 'F')

/-- A text of this shape, in which an `x` stands for a hexadecimal digit and anything else for
itself. -/
def fits : List Char → List Char → Bool
  | [], [] => true
  | t :: shape, c :: text => (if t = 'x' then isHexDigit c else c == t) && fits shape text
  | _, _ => false

def isUUID (s : String) : Bool := fits "xxxxxxxx-xxxx-xxxx-xxxx-xxxxxxxxxxxx".toList s.toList

/-- An HMAC-SHA256 in hexadecimal. -/
def isDigest (s : String) : Bool := fits (List.replicate 64 'x') s.toList

/-- What `KIDFromPublicKey` derives. -/
def isKID (s : String) : Bool := fits "xxxxxxxx-xxxxxxxx".toList s.toList

theorem length_of_fits {shape : List Char} {s : String} (h : fits shape s.toList) :
    s.length = shape.length := by
  rw [← String.length_toList]
  generalize s.toList = text at h ⊢
  fun_induction fits shape text with
  | case1 => rfl
  | case2 t shape c text ih =>
    rw [Bool.and_eq_true] at h
    rw [List.length_cons, List.length_cons, ih h.2]
  | case3 => exact absurd h (by simp)

theorem mem_of_fits {shape text : List Char} (h : fits shape text) {c : Char} (hc : c ∈ text) :
    isHexDigit c ∨ c ∈ shape := by
  fun_induction fits shape text with
  | case1 => exact absurd hc List.not_mem_nil
  | case2 t shape d text ih => grind
  | case3 => exact absurd h (by simp)

theorem blobAADSafeID_of_isUUID {id : String} (h : isUUID id) : blobAADSafeID id := by
  rw [blobAADSafeID, Bool.not_eq_true', List.contains_eq_mem, decide_eq_false_iff_not]
  intro hmem
  exact absurd (mem_of_fits h hmem) (by decide)

/-! ### Rows -/

namespace Field

def WellFormed : Field → Prop
  | document _ clientID subjectHash docKey =>
    isUUID clientID ∧ isDigest subjectHash ∧ validateDocKey docKey
  | blobData id pseudo | blobLabel id pseudo => isUUID id ∧ isDigest pseudo
  | identity pseudo => isDigest pseudo
  | totp _ userID => isUUID userID
  | adminTOTP adminID => isUUID adminID
  | signingKey kid => isKID kid

/-- How long the associated data of a well-formed field is. -/
def aadLength : Field → ℕ
  | document _ _ _ docKey => 109 + docKey.length
  | blobData .. => 101
  | blobLabel .. => 107
  | identity _ => 64
  | totp .. | adminTOTP _ => 36
  | signingKey _ => 17

theorem WellFormed.aad {f : Field} (h : f.WellFormed) :
    ∃ a, f.aad = .ok a ∧ a.length = f.aadLength := by
  cases f with
  | document _ clientID subjectHash docKey =>
    refine ⟨_, rfl, ?_⟩
    simp only [docAAD, String.length_append, length_of_fits h.1, length_of_fits h.2.1, aadLength]
    rfl
  | blobData id pseudo =>
    refine ⟨id ++ ":" ++ pseudo, ?_, ?_⟩
    · simp [Field.aad, blobDataAAD, blobAADSafeID_of_isUUID h.1]
    · rw [String.length_append, String.length_append, length_of_fits h.1, length_of_fits h.2]
      rfl
  | blobLabel id pseudo =>
    refine ⟨"label:" ++ id ++ ":" ++ pseudo, ?_, ?_⟩
    · simp [Field.aad, blobLabelAAD, blobAADSafeID_of_isUUID h.1]
    · simp only [String.length_append, length_of_fits h.1, length_of_fits h.2]
      rfl
  | identity _ => exact ⟨_, rfl, length_of_fits h⟩
  | totp _ _ => exact ⟨_, rfl, length_of_fits h⟩
  | adminTOTP _ => exact ⟨_, rfl, length_of_fits h⟩
  | signingKey _ => exact ⟨_, rfl, length_of_fits h⟩

end Field

/-- The encrypted fields of a database: of the shapes above, at most one document for a client, a
subject and a key (`idx_svcdoc_owner_key`), at most one secret for a user (`idx_totp_secrets_user`),
and no user with the id of an admin. The other rows are keyed by what their associated data is built
from. -/
structure Database where
  fields : Set Field
  wellFormed : ∀ f ∈ fields, f.WellFormed
  ownerKey : ∀ {id id' c s k}, .document id c s k ∈ fields → .document id' c s k ∈ fields → id = id'
  totpUser : ∀ {id id' u}, .totp id u ∈ fields → .totp id' u ∈ fields → id = id'
  adminsApart : ∀ {id u}, .totp id u ∈ fields → .adminTOTP u ∉ fields

theorem append_inj {a b c d : String} (h : a ++ b = c ++ d) (hlen : a.length = c.length) :
    a = c ∧ b = d := by
  rw [← String.toList_inj, String.toList_append, String.toList_append] at h
  have := List.append_inj h (by rwa [String.length_toList, String.length_toList])
  exact ⟨String.toList_inj.1 this.1, String.toList_inj.1 this.2⟩

theorem joined_inj {a b a' b' : String} (hlen : a.length = a'.length)
    (h : a ++ ":" ++ b = a' ++ ":" ++ b') : a = a' ∧ b = b' := by
  have ⟨ha, hb⟩ := append_inj h (by rw [String.length_append, String.length_append, hlen])
  exact ⟨(append_inj ha hlen).1, hb⟩

theorem docAAD_inj {c s k c' s' k' : String} (hc : c.length = c'.length) (hs : s.length = s'.length)
    (h : docAAD c s k = docAAD c' s' k') : c = c' ∧ s = s' ∧ k = k' := by
  have ⟨h₁, hk⟩ := joined_inj (by simp only [String.length_append, hc, hs]) h
  have ⟨h₂, hs⟩ := joined_inj (by simp only [String.length_append, hc]) h₁
  exact ⟨(append_inj h₂ rfl).2, hs, hk⟩

namespace Database

variable (db : Database) {f g : Field}

/-- Equal associated data is of equal length, which leaves the pairs of one store and the two kinds
of TOTP secret. -/
theorem eq_of_aad (hf : f ∈ db.fields) (hg : g ∈ db.fields) (h : f.aad = g.aad) : f = g := by
  have wf := db.wellFormed f hf
  have wg := db.wellFormed g hg
  obtain ⟨a, ha, la⟩ := wf.aad
  obtain ⟨b, hb, lb⟩ := wg.aad
  obtain rfl : a = b := Except.ok.inj (ha.symm.trans (h.trans hb))
  have hlen : f.aadLength = g.aadLength := la.symm.trans lb
  cases f <;> cases g <;> simp only [Field.aadLength] at hlen <;> try omega
  case document.document =>
    have hid := (length_of_fits wf.1).trans (length_of_fits wg.1).symm
    obtain ⟨rfl, rfl, rfl⟩ := docAAD_inj hid
      ((length_of_fits wf.2.1).trans (length_of_fits wg.2.1).symm) (Except.ok.inj h)
    rw [db.ownerKey hf hg]
  case blobData.blobData =>
    have hid := (length_of_fits wf.1).trans (length_of_fits wg.1).symm
    simp only [Field.aad, blobDataAAD, blobAADSafeID_of_isUUID wf.1,
      blobAADSafeID_of_isUUID wg.1] at h
    obtain ⟨rfl, rfl⟩ := joined_inj hid (Except.ok.inj h)
    rfl
  case blobLabel.blobLabel =>
    have hid := (length_of_fits wf.1).trans (length_of_fits wg.1).symm
    simp only [Field.aad, blobLabelAAD, blobAADSafeID_of_isUUID wf.1,
      blobAADSafeID_of_isUUID wg.1] at h
    obtain ⟨htagged, rfl⟩ :=
      joined_inj (by rw [String.length_append, String.length_append, hid]) (Except.ok.inj h)
    rw [(append_inj htagged rfl).2]
  case totp.totp =>
    obtain rfl := Except.ok.inj h
    rw [db.totpUser hf hg]
  case totp.adminTOTP =>
    obtain rfl := Except.ok.inj h
    exact absurd hg (db.adminsApart hf)
  case adminTOTP.totp =>
    obtain rfl := Except.ok.inj h
    exact absurd hf (db.adminsApart hg)
  all_goals rw [Except.ok.inj h]

/-- A value sealed for one field of the database opens in that field and in no other one. -/
theorem opens_only_in_place (hf : f ∈ db.fields) (hg : g ∈ db.fields) :
    (∃ a, f.aad = .ok a) ∧ (f.aad = g.aad → f = g) ∧
      ∀ {B : Type} (plaintext : B), ∃ c, f.encrypt plaintext = .ok c ∧
        g.decrypt c = if f = g then .ok plaintext
          else .error "aes: decrypt: cipher: message authentication failed" := by
  obtain ⟨a, ha, _⟩ := (db.wellFormed f hf).aad
  obtain ⟨b, hb, _⟩ := (db.wellFormed g hg).aad
  refine ⟨⟨a, ha⟩, db.eq_of_aad hf hg, fun {B} plaintext => ⟨⟨a, plaintext⟩, ?_, ?_⟩⟩
  · rw [Field.encrypt, ha]
    rfl
  · have hab : a = b ↔ f = g := by
      constructor
      · rintro rfl
        exact db.eq_of_aad hf hg (ha.trans hb.symm)
      · rintro rfl
        exact Except.ok.inj (ha.symm.trans hb)
    simp only [Field.decrypt, hb, Except.bind, hab]

end Database

namespace Sample

def owner : String := "00000000-0000-4000-8000-000000000001"

def pseudonym : String := String.ofList (List.replicate 64 'a')

/-- A blob with a label. -/
def labelled : Database where
  fields := {.blobData owner pseudonym, .blobLabel owner pseudonym}
  wellFormed := by
    rintro f (rfl | rfl)
    all_goals exact ⟨by decide, by decide⟩
  ownerKey := by simp
  totpUser := by simp
  adminsApart := by simp

theorem data_not_label : ∃ c, (Field.blobData owner pseudonym).encrypt 7 = .ok c ∧
    (Field.blobLabel owner pseudonym).decrypt c =
      .error "aes: decrypt: cipher: message authentication failed" :=
  (labelled.opens_only_in_place (.inl rfl) (.inr rfl)).2.2 7

end Sample

end Vault42.Records
