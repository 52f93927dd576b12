import Vault42.Go.Encoding

/-!
# Opening a recovery escrow blob

`internal/crypto/recovery.go` and the `Decrypt` of `aes.go`. The two readers check the framing of a
blob and hand its tail to `openRecovery`, which checks the declared length of the wrapped key in 64
bits and takes the slices with offsets of 32 bits. `Wraps` says when the two arithmetics part. A
function that panics gives `none`.
-/

namespace Vault42.Crypto

open Go Strconv

/-- `s[lo:hi]`. No slice of the readers reaches between the length and the capacity. -/
def slice (s : Bytes) (lo hi : ℕ) : Option Bytes :=
  if lo ≤ hi ∧ hi ≤ s.length then some ((s.take hi).drop lo) else none

theorem slice_eq {s : Bytes} {lo hi : ℕ} (hlo : lo ≤ hi) (hhi : hi ≤ s.length) :
    slice s lo hi = some ((s.take hi).drop lo) := if_pos ⟨hlo, hhi⟩

/-- `crypto/rsa` and `crypto/cipher`, which answer with a plaintext or with the text of an error. -/
structure Ciphers (PrivateKey : Type) where
  decryptOAEP : PrivateKey → (ciphertext label : Bytes) → Except String Bytes
  gcmOpen : (key nonce ciphertext ad : Bytes) → Except String Bytes

variable {PrivateKey : Type} (c : Ciphers PrivateKey)

def decrypt (ciphertext key ad : Bytes) : Option (Except String Bytes) :=
  let nonceSize := 12
  if key.length ≠ 32 then some (.error "aes: key must be 32 bytes")
  else if ciphertext.length ≤ nonceSize then some (.error "aes: ciphertext too short")
  else do
    let nonce ← slice ciphertext 0 nonceSize
    let ct ← slice ciphertext nonceSize ciphertext.length
    some ((c.gcmOpen key nonce ct ad).mapError ("aes: decrypt: " ++ ·))

def recoveryMagic : Bytes := text "V42R"

def recoveryHeaderLen : ℕ := recoveryMagic.length + 1

inductive RecoveryFormat where
  | unknown | bound | legacy
deriving DecidableEq

def recoveryBlobFormat (blob : Bytes) : RecoveryFormat :=
  if blob.length < 4 then .unknown
  else if blob.take recoveryMagic.length ≠ recoveryMagic then .legacy
  else if blob.length < recoveryHeaderLen ∨ blob[recoveryMagic.length]? ≠ some 0x02 then .unknown
  else .bound

def bigEndian (b : Bytes) : UInt32 := b.foldl (fun n x => n <<< 8 ||| x.toUInt32) 0

/-- `openRecovery` up to the ciphers: the wrapped key and the sealed part. -/
def recoveryParts (body : Bytes) : Option (Except String (Bytes × Bytes)) :=
  if body.length < 4 then some (.error "recovery: blob too short")
  else do
    let wrappedLen := bigEndian (← slice body 0 4)
    if wrappedLen.toUInt64 + 4 > UInt64.ofNat body.length then
      some (.error "recovery: corrupt blob (wrapped key length)")
    else
      let wrappedKey ← slice body 4 (4 + wrappedLen).toNat
      let aesBlob ← slice body (4 + wrappedLen).toNat body.length
      some (.ok (wrappedKey, aesBlob))

def openRecovery (priv : PrivateKey) (body label aad : Bytes) : Option (Except String Bytes) := do
  match ← recoveryParts body with
  | .error e => some (.error e)
  | .ok (wrappedKey, aesBlob) =>
    match c.decryptOAEP priv wrappedKey label with
    | .error e => some (.error ("recovery: unwrap aes key: " ++ e))
    | .ok aesKey =>
      let plaintext ← decrypt c aesBlob aesKey aad
      some (plaintext.mapError ("recovery: aes decrypt: " ++ ·))

def recoveryLabel (binding : Bytes) : Bytes := text "oaep\x00" ++ binding

def recoveryAAD (binding : Bytes) : Bytes := text "gcm\x00" ++ binding

def decryptRecovery (priv : Option PrivateKey) (blob binding : Bytes) :
    Option (Except String Bytes) :=
  match priv with
  | none => some (.error "recovery: nil private key")
  | some priv =>
    if binding.length = 0 then some (.error "recovery: empty binding")
    else if recoveryBlobFormat blob ≠ .bound then some (.error "recovery: not a bound escrow blob")
    else do
      let body ← slice blob recoveryHeaderLen blob.length
      openRecovery c priv body (recoveryLabel binding) (recoveryAAD binding)

def decryptRecoveryLegacy (priv : Option PrivateKey) (blob : Bytes) :
    Option (Except String Bytes) :=
  match priv with
  | none => some (.error "recovery: nil private key")
  | some priv =>
    if recoveryBlobFormat blob ≠ .legacy then some (.error "recovery: not a legacy escrow blob")
    else openRecovery c priv blob [] []

/-- The length that a body declares for its wrapped key. -/
def declared (body : Bytes) : ℕ := (bigEndian (body.take 4)).toNat

/-- The body is as long as it declares, and the end of its wrapped key is past what 32 bits can
say. -/
def Wraps (body : Bytes) : Prop := 2 ^ 32 ≤ 4 + declared body ∧ 4 + declared body ≤ body.length

instance (body : Bytes) : Decidable (Wraps body) := inferInstanceAs (Decidable (_ ∧ _))

variable {c}

theorem decrypt_eq_some (ciphertext key ad : Bytes) :
    ∃ r, decrypt c ciphertext key ad = some r := by
  simp only [decrypt]
  split_ifs
  · simp
  · simp
  · rw [slice_eq (by lia) (by lia), slice_eq (by lia) le_rfl]
    simp

/-- What the arithmetics of 64 and of 32 bits come to. -/
theorem recoveryParts_eq {body : Bytes} (hlen : body.length < 2 ^ 63) :
    recoveryParts body =
      if body.length < 4 then some (.error "recovery: blob too short")
      else if body.length < 4 + declared body then
        some (.error "recovery: corrupt blob (wrapped key length)")
      else if 2 ^ 32 ≤ 4 + declared body then none
      else some (.ok ((body.take (4 + declared body)).drop 4, body.drop (4 + declared body))) := by
  unfold recoveryParts
  split
  · rfl
  rename_i hfour
  have hfield : slice body 0 4 = some (body.take 4) := slice_eq (by lia) (by lia)
  have hlt : declared body < 2 ^ 32 := UInt32.toNat_lt _
  have hcheck : (bigEndian (body.take 4)).toUInt64 + 4 > UInt64.ofNat body.length ↔
      body.length < 4 + declared body := by
    rw [gt_iff_lt, UInt64.lt_iff_toNat_lt, UInt64.toNat_ofNat', UInt64.toNat_add,
      UInt32.toNat_toUInt64]
    show body.length % 2 ^ 64 < (declared body + 4) % 2 ^ 64 ↔ _
    lia
  have hsum : (4 + bigEndian (body.take 4)).toNat = (4 + declared body) % 2 ^ 32 := by
    rw [UInt32.toNat_add]; rfl
  rw [hfield]
  simp only [Option.bind_eq_bind, Option.bind_some, hcheck, hsum]
  split_ifs with hshort hwraps
  · rfl
  · -- the sum wraps to less than four
    rw [slice, if_neg (by lia), Option.bind_none]
  · rw [Nat.mod_eq_of_lt (by lia), slice_eq (by lia) (by lia), slice_eq (by lia) le_rfl,
      List.take_length]
    rfl

theorem openRecovery_eq_none {priv : PrivateKey} {body label aad : Bytes}
    (hlen : body.length < 2 ^ 63) :
    openRecovery c priv body label aad = none ↔ Wraps body := by
  rw [openRecovery, Wraps, recoveryParts_eq hlen]
  split_ifs with hfour hshort hwraps
  · exact iff_of_false nofun (by lia)
  · exact iff_of_false nofun (by lia)
  · exact iff_of_true rfl (by lia)
  · refine iff_of_false ?_ (by lia)
    simp only [Option.bind_eq_bind, Option.bind_some]
    split
    · exact nofun
    · simpa using decrypt_eq_some _ _ _

theorem recoveryParts_cover {body w s : Bytes} (hlen : body.length < 2 ^ 63)
    (h : recoveryParts body = some (.ok (w, s))) :
    body.drop 4 = w ++ s ∧ w.length = declared body := by
  rw [recoveryParts_eq hlen] at h
  split_ifs at h with hfour hshort hwraps <;> cases h
  refine ⟨?_, by simp; lia⟩
  rw [← List.drop_append_of_le_length, List.take_append_drop]
  simp; lia

theorem le_length_of_bound {blob : Bytes} (h : recoveryBlobFormat blob = .bound) :
    recoveryHeaderLen ≤ blob.length := by
  unfold recoveryBlobFormat at h
  split_ifs at h with _ _ hlong
  exact not_lt.1 (not_or.1 hlong).1

/-- **A reader panics** on the blobs of its own format whose wrapped key ends past what 32 bits can
say, and on no others; and the parts it finds are what follows the length field, cut at the declared
length. -/
theorem readers_outOfRange_iff (priv : Option PrivateKey) (blob binding : Bytes)
    (hlen : blob.length < 2 ^ 63) :
    (decryptRecovery c priv blob binding = none ↔ priv.isSome ∧ binding ≠ [] ∧
      recoveryBlobFormat blob = .bound ∧ Wraps (blob.drop recoveryHeaderLen)) ∧
    (decryptRecoveryLegacy c priv blob = none ↔
      priv.isSome ∧ recoveryBlobFormat blob = .legacy ∧ Wraps blob) ∧
    ∀ body ∈ [blob, blob.drop recoveryHeaderLen], ∀ w s, recoveryParts body = some (.ok (w, s)) →
      body.drop 4 = w ++ s ∧ w.length = declared body := by
  have hsub : (blob.drop recoveryHeaderLen).length < 2 ^ 63 := by rw [List.length_drop]; lia
  refine ⟨?_, ?_, fun body hbody w s => recoveryParts_cover (by grind)⟩
  · cases priv with
    | none => simp [decryptRecovery]
    | some priv =>
      simp only [decryptRecovery]
      split_ifs with hbinding hformat
      · simp [List.eq_nil_of_length_eq_zero hbinding]
      · simp [hformat]
      · rw [slice_eq (le_length_of_bound (not_not.1 hformat)) le_rfl, List.take_length]
        exact (openRecovery_eq_none hsub).trans (by grind)
  · cases priv with
    | none => simp [decryptRecoveryLegacy]
    | some priv =>
      simp only [decryptRecoveryLegacy]
      split_ifs with hformat
      · simp [hformat]
      · exact (openRecovery_eq_none hlen).trans (by grind)

namespace Sample

def ciphers : Ciphers Unit where
  decryptOAEP _ _ _ := .error "crypto/rsa: decryption error"
  gcmOpen _ _ _ _ := .error "cipher: message authentication failed"

theorem short_key_opens : decryptRecoveryLegacy ciphers (some ()) [0, 0, 0, 1, 7, 9] ≠ none ∧
    recoveryParts [0, 0, 0, 1, 7, 9] = some (.ok ([7], [9])) := by
  have hblob := readers_outOfRange_iff (c := ciphers) (some ()) [0, 0, 0, 1, 7, 9] [] (by decide)
  exact ⟨fun h => absurd (hblob.2.1.1 h).2.2 (by decide), by decide⟩

/-- Four bytes that declare the longest wrapped key, and as many bytes as they declare. -/
theorem longest_key_panics : ∃ blob : Bytes, blob.length = 2 ^ 32 + 3 ∧
    decryptRecoveryLegacy ciphers (some ()) blob = none := by
  obtain ⟨n, hn⟩ : ∃ n, n = 2 ^ 32 + 3 := ⟨_, rfl⟩
  have hlen : (List.replicate n (255 : UInt8)).length = n := List.length_replicate
  have hfield : (List.replicate n (255 : UInt8)).take 4 = [255, 255, 255, 255] := by
    rw [List.take_replicate, Nat.min_eq_left (by omega)]
    rfl
  have hdeclared : declared (List.replicate n 255) = 2 ^ 32 - 1 := by
    rw [declared, hfield]
    rfl
  have hlegacy : recoveryBlobFormat (List.replicate n 255) = .legacy := by
    rw [recoveryBlobFormat, if_neg (by omega), if_pos]
    rw [show recoveryMagic.length = 4 from rfl, hfield]
    decide
  refine ⟨List.replicate n 255, hlen.trans hn, ?_⟩
  rw [decryptRecoveryLegacy, if_neg (not_not.2 hlegacy), openRecovery_eq_none (by omega), Wraps,
    hdeclared, hlen]
  omega

end Sample

end Vault42.Crypto
