import Vault42.Model
import Vault42.Framework.Transactions
import Mathlib.Data.List.Sort

/-!
# The signing-key table

`auth.signing_keys`, with the triggers, checks and indexes the migrations put on it, and the
statements `internal/keystore` runs against it, at READ COMMITTED: a statement that needs a row
somebody else has written waits, and then decides on what the other has committed. What a statement
does before it waits is a step of its own. The two that write whatever their `WHERE` finds choose
their rows first, and write later, to those that still qualify; the upsert of `import_signing_key`
fires the trigger that guards the insert first, and not again when the row it has waited for turns
out to be deleted.

Key material is ideal. A public key is known by its number, a kid is the digest of the DER it was
taken over, and a ciphertext opens under the master key and the associated data it was sealed with
and no other. A kid that no DER digests to (`KID.text`) is one that was derived differently, before
the derivation changed.

* `updateRefused`: the row triggers on an update and the row checks, in the order they are
  consulted.
* `KeyTable.guardInsert`: what `import_signing_key` checks before its upsert waits.
* `KeyTable.retire`, `KeyTable.importSigningKey`, `KeyTable.revoke`, `KeyTable.reap`: the writes.
* `KeyTable.loadable`: the query of `Refresh`.
-/

namespace Vault42.Keystore

open Framework

structure PublicKey where
  id : ℕ
deriving DecidableEq, Repr

/-- An RSA private key, by the number of its public half. -/
structure PrivateKey where
  id : ℕ
deriving DecidableEq, Repr

def PrivateKey.publicKey (key : PrivateKey) : PublicKey := ⟨key.id⟩

/-- The bytes of a `public_key` column. -/
inductive PublicDER where
  /-- The PKIX encoding of an RSA key. -/
  | rsa (key : PublicKey)
  /-- The PKIX encoding of a key of another algorithm. -/
  | other (n : ℕ)
  /-- Bytes that are no PKIX encoding. -/
  | garbage (n : ℕ)
deriving DecidableEq, Repr

def marshalPKIXPublicKey (key : PublicKey) : PublicDER := .rsa key

inductive KID where
  /-- The digest of a DER encoding. -/
  | digest (der : PublicDER)
  /-- Any other text. -/
  | text (s : String)
deriving DecidableEq, Repr

/-- The zero value of a Go string: no kid. -/
def KID.none : KID := .text ""

def kidFromPublicKey (key : PublicKey) : KID := .digest (marshalPKIXPublicKey key)

/-- What is wrapped in a `private_key` column. -/
inductive PEM where
  /-- The PKCS#8 PEM block of a key. -/
  | key (key : PrivateKey)
  /-- Anything else. -/
  | garbage (n : ℕ)
deriving DecidableEq, Repr

def marshalSigningKeyPEM (key : PrivateKey) : PEM := .key key

def loadSigningKeyPEM : PEM → Option PrivateKey
  | .key k => some k
  | .garbage _ => none

abbrev MasterKey := ℕ

/-- The bytes of a `private_key` column. -/
inductive Ciphertext where
  /-- An AES-256-GCM seal. -/
  | sealed (masterKey : MasterKey) (nonce : ℕ) (aad : KID) (plaintext : PEM)
  /-- Bytes that nothing was sealed into. -/
  | garbage (n : ℕ)
deriving DecidableEq, Repr

def encrypt (plaintext : PEM) (masterKey : MasterKey) (nonce : ℕ) (aad : KID) : Ciphertext :=
  .sealed masterKey nonce aad plaintext

def decrypt (data : Ciphertext) (masterKey : MasterKey) (aad : KID) : Option PEM :=
  match data with
  | .sealed mk _ a plaintext => if mk = masterKey ∧ a = aad then some plaintext else none
  | .garbage _ => none

/-- `signing_keys.status`. -/
inductive KeyStatus where
  | active
  | retired
  | revoked
deriving DecidableEq, Repr

/-- A row of `auth.signing_keys`. -/
structure KeyRow where
  kid : KID
  privateKey : Ciphertext
  publicKey : PublicDER
  algorithm : String
  status : KeyStatus
  createdAt : Time
  retiredAt : Option Time
  expiresAt : Option Time
deriving DecidableEq, Repr

/-- A row of `auth.signing_key_tombstones`. -/
structure Tombstone where
  kid : KID
  lastStatus : KeyStatus
  tombstonedAt : Time
deriving DecidableEq, Repr

/-- The arguments of `auth.import_signing_key`. -/
structure ImportArgs where
  kid : KID
  privateKey : Ciphertext
  publicKey : PublicDER
  algorithm : String
  createdAt : Time
deriving DecidableEq, Repr

/-- Arguments whose kid is the digest of the public key. -/
structure Importable extends ImportArgs where
  digest : kid = .digest publicKey
deriving DecidableEq

/-- Why the database refuses a statement. -/
inductive DBError where
  /-- `signing_keys_kid_immutable`. -/
  | kidImmutable
  /-- `signing_keys_retire_path_terminal`. -/
  | retirePathTerminal
  /-- `signing_keys_revocation_terminal`. -/
  | revocationTerminal
  /-- `signing_keys_reap_scope`. -/
  | reapScope
  /-- `signing_keys_tombstone_guard`. -/
  | tombstoned
  /-- `import_signing_key` was given a kid that is not the digest of its public key. -/
  | notTheDigest
  /-- `signing_keys_retired_has_expiry`. -/
  | retiredHasExpiry
  /-- `signing_keys_active_is_not_retired`. -/
  | activeIsNotRetired
  /-- `idx_signing_keys_active`. -/
  | secondActive
  /-- The statement belongs to a transaction that is not open any more. -/
  | noTransaction
  /-- The statement failed for a reason outside of the table: a lost connection, a timeout, a
  deadlock. -/
  | unavailable
deriving DecidableEq, Repr

/-! ### Triggers and checks -/

/-- The row checks of migrations 027 and 035. -/
def checkRefused (row : KeyRow) : Option DBError :=
  if row.status = .retired ∧ row.expiresAt = none then some .retiredHasExpiry
  else if row.retiredAt ≠ none ∧ row.status = .active then some .activeIsNotRetired
  else none

/-- The condition of `signing_keys_retire_path_terminal`. -/
def retirePathTerminal (old new : KeyRow) : Bool :=
  old.status = .retired &&
    ((new.status = .active &&
        (new.privateKey = old.privateKey || new.publicKey ≠ old.publicKey)) ||
      (new.status ≠ .active && new.status ≠ .revoked &&
        match old.expiresAt, new.expiresAt with
        | none, _ => false
        | some _, none => true
        | some e, some e' => decide (e < e')))

/-- **The triggers on an update**, in the order of their names, and the row checks. -/
def updateRefused (old new : KeyRow) : Option DBError :=
  if new.kid ≠ old.kid ∧ old.status ≠ .revoked then some .kidImmutable
  else if retirePathTerminal old new then some .retirePathTerminal
  else if old.status = .revoked then some .revocationTerminal
  else checkRefused new

/-- The condition of `signing_keys_reap_scope`. -/
def reapScope (now : Time) (old : KeyRow) : Bool :=
  old.status ≠ .revoked &&
    (old.status ≠ .retired ||
      match old.expiresAt with
      | none => true
      | some e => decide (now ≤ e))

/-- The triggers on a delete, in the order of their names. -/
def deleteRefused (now : Time) (old : KeyRow) : Option DBError :=
  if reapScope now old then some .reapScope
  else if old.status = .revoked then some .revocationTerminal
  else none

/-! ### Statements -/

/-- The two tables: the keys, under their primary key, and the tombstones. -/
structure KeyTable where
  keys : TxTable KID KeyRow
  tombstones : List Tombstone
deriving Repr

namespace KeyTable

def rows (K : KeyTable) : List KeyRow := K.keys.rows

/-- The rows as a transaction sees them. -/
def view (K : KeyTable) (t : ℕ) : List KeyRow := K.keys.view KeyRow.kid t

/-- A statement that fails ends its transaction: what it wrote is gone, and so are its locks. -/
def abort (K : KeyTable) (t : ℕ) : KeyTable := { K with keys := K.keys.rollback t }

/-- The rows that the `WHERE status = 'active'` of the retiring update finds. -/
def scanActive (K : KeyTable) (t : ℕ) : List KID :=
  ((K.view t).filter fun r => r.status = .active).map KeyRow.kid

/-- What the retiring update sets. -/
def retired (now expiresAt : Time) (r : KeyRow) : KeyRow :=
  { r with status := .retired, retiredAt := some now, expiresAt := some expiresAt }

/-- `UPDATE auth.signing_keys SET status = 'retired', … WHERE status = 'active'`, on the rows it has
found, as far as they still are active. -/
def retire (K : KeyTable) (t : ℕ) (kids : List KID) (now expiresAt : Time) :
    Except DBError Unit × KeyTable :=
  if K.keys.opened t then
    let found := (K.view t).filter fun r => kids.contains r.kid && r.status = .active
    match found.findSome? fun r => updateRefused r (retired now expiresAt r) with
    | some e => (.error e, K.abort t)
    | none =>
      let written := found.map fun r => (r.kid, some (retired now expiresAt r))
      (.ok (), { K with keys := K.keys.write t written })
  else (.error .noTransaction, K)

def Clear (K : KeyTable) (kid : KID) : Prop := ∀ s ∈ K.tombstones, s.kid ≠ kid

instance (K : KeyTable) (kid : KID) : Decidable (K.Clear kid) :=
  inferInstanceAs (Decidable (∀ s ∈ K.tombstones, s.kid ≠ kid))

/-- **`import_signing_key` up to its upsert**: the check of the digest, and the trigger
`signing_keys_tombstone_guard`, which fires before the insert looks for a row to collide with. -/
def guardInsert (K : KeyTable) (t : ℕ) (args : ImportArgs) : Except DBError Importable × KeyTable :=
  if K.keys.opened t then
    if h : args.kid = .digest args.publicKey then
      if K.Clear args.kid then (.ok ⟨args, h⟩, K) else (.error .tombstoned, K.abort t)
    else (.error .notTheDigest, K.abort t)
  else (.error .noTransaction, K)

/-- What the upsert makes of the row that has its kid, up to the unique index: an error, no row (a
revoked one is left alone), or the row it writes. -/
def imported (K : KeyTable) (t : ℕ) (args : Importable) : Except DBError (Option KeyRow) :=
  match (K.view t).find? fun r => r.kid = args.kid with
  | none =>
    let new : KeyRow :=
      ⟨args.kid, args.privateKey, args.publicKey, args.algorithm, .active,
        args.createdAt, none, none⟩
    match checkRefused new with
    | some e => .error e
    | none => .ok (some new)
  | some old =>
    if old.status = .revoked then .ok none
    else
      let new := { old with privateKey := args.privateKey, publicKey := args.publicKey,
                            status := .active, retiredAt := none, expiresAt := none }
      match updateRefused old new with
      | some e => .error e
      | none => .ok (some new)

/-- **The upsert of `import_signing_key`**, of arguments that have passed the guard at some
moment. -/
def importSigningKey (K : KeyTable) (t : ℕ) (args : Importable) : Except DBError Bool × KeyTable :=
  if K.keys.opened t then
    match K.imported t args with
    | .error e => (.error e, K.abort t)
    | .ok none => (.ok false, K)
    | .ok (some new) =>
      if (K.view t).any fun r => r.kid ≠ args.kid && r.status = .active then
        (.error .secondActive, K.abort t)
      else (.ok true, { K with keys := K.keys.write t [(args.kid, some new)] })
  else (.error .noTransaction, K)

/-- Somebody else's unfinished transaction decides whether the unique index has room: it has written
an active row, or it has written over the committed one. -/
def activeInDoubt (K : KeyTable) (t : ℕ) : Bool :=
  (K.keys.txns.any fun x => x.1 != t && x.2.any fun w => w.2.any fun r => r.status = .active) ||
    K.rows.any fun r => r.status = .active && K.keys.lockedFor t r.kid

/-- The upsert has to wait: for its row, or for the unique index. -/
def importBlocked (K : KeyTable) (t : ℕ) (args : Importable) : Bool :=
  K.keys.lockedFor t args.kid ||
    match K.imported t args with
    | .ok (some _) => K.activeInDoubt t
    | _ => false

def commit (K : KeyTable) (t : ℕ) : Except DBError Unit × KeyTable :=
  if K.keys.opened t then (.ok (), { K with keys := K.keys.commit KeyRow.kid t })
  else (.error .noTransaction, K)

/-- A statement outside of a transaction waits for every unfinished one that has touched its row. -/
def locked (K : KeyTable) (kid : KID) : Bool := K.keys.txns.any fun x => x.2.touches kid

/-- What the revoking update sets. -/
def revoked (now : Time) (r : KeyRow) : KeyRow :=
  { r with status := .revoked, retiredAt := some now }

/-- `UPDATE auth.signing_keys SET status = 'revoked', retired_at = NOW() WHERE kid = $1 AND
status != 'revoked'`, and the number of rows it changed. -/
def revoke (K : KeyTable) (kid : KID) (now : Time) : Except DBError ℕ × KeyTable :=
  match K.rows.find? fun r => r.kid = kid && r.status ≠ .revoked with
  | none => (.ok 0, K)
  | some r =>
    match updateRefused r (revoked now r) with
    | some e => (.error e, K)
    | none => (.ok 1, { K with keys := K.keys.apply KeyRow.kid [(r.kid, some (revoked now r))] })

/-- `status = 'retired' AND expires_at IS NOT NULL AND expires_at < NOW()`. -/
def expired (now : Time) (r : KeyRow) : Bool :=
  r.status = .retired && r.expiresAt.any fun e => decide (e < now)

/-- The rows that the `WHERE` of the reaping delete finds. -/
def scanExpired (K : KeyTable) (now : Time) : List KID :=
  (K.rows.filter (expired now)).map KeyRow.kid

/-- `signing_keys_tombstone_record`, after each row of a delete. -/
def bury (tombstones : List Tombstone) (now : Time) (r : KeyRow) : List Tombstone :=
  if tombstones.any fun s => s.kid = r.kid then tombstones
  else ⟨r.kid, r.status, now⟩ :: tombstones

/-- Of the rows that the reaping delete has found, those that still qualify. -/
def reaped (K : KeyTable) (kids : List KID) (now : Time) : List KeyRow :=
  K.rows.filter fun r => kids.contains r.kid && expired now r

/-- `DELETE FROM auth.signing_keys WHERE …` of `CleanupExpired`, on the rows it has found, as far as
they still qualify, and the number of rows it removed. -/
def reap (K : KeyTable) (kids : List KID) (now : Time) : Except DBError ℕ × KeyTable :=
  match (K.reaped kids now).findSome? (deleteRefused now) with
  | some e => (.error e, K)
  | none =>
    (.ok (K.reaped kids now).length,
      { keys := K.keys.apply KeyRow.kid ((K.reaped kids now).map fun r => (r.kid, none))
        tombstones := (K.reaped kids now).foldl (fun ts r => bury ts now r) K.tombstones })

/-- The `WHERE` of the query of `Refresh`. -/
def loads (now : Time) (r : KeyRow) : Bool :=
  r.status ≠ .revoked &&
    match r.expiresAt with
    | some e => decide (now < e)
    | none => r.status = .active

/-- The query of `Refresh`, newest first. -/
def loadable (K : KeyTable) (now : Time) : List KeyRow :=
  (K.rows.filter (loads now)).insertionSort fun r s => s.createdAt ≤ r.createdAt

/-- `SELECT created_at … WHERE status = 'active' ORDER BY created_at DESC LIMIT 1`. -/
def activeCreatedAt (K : KeyTable) : Option Time :=
  ((K.rows.filter fun r => r.status = .active).map KeyRow.createdAt).max?

end KeyTable

end Vault42.Keystore
