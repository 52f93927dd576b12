import Vault42.Framework.System
import Vault42.Keystore.Table

/-!
# The keystore

`internal/keystore/keystore.go` and `internal/keystore/rotation.go`. Any number of pods each hold a
`KeyStore` over one signing-key table: `KeyStore.importKey` and what ends in it (`rotate`,
`rotateIfOlderThan`, `ensureKey`), `revoke`, `cleanupExpired`, and `refresh`, which rebuilds a pod's
memory from the table and tells the pod's token service when the active kid has changed.

A call is a statement against the table, an access to the pod's memory, or the use of the pod's
master key, which is gone once the keystore was stopped. A deferred `tx.Rollback` is a call at every
return of the function that deferred it.

A call that fails has had no effect. `tx.Commit` can also fail after the database has committed,
when its answer is lost: it is two calls, the commit and the answer to it. What is lost of the
answer to a statement outside of a transaction is not told apart from a statement of another pod
beside one that failed.
-/

namespace Vault42.Keystore

open Framework

/-- What the functions of the keystore return as their error. `wrap` is `fmt.Errorf` with `%w`. -/
inductive KeyStoreError where
  | closed
  /-- `ErrRevokedKey`, for the kid that cannot be reactivated. -/
  | revokedKey (kid : KID)
  /-- `keystore: key %s not found or already revoked`. -/
  | notFound (kid : KID)
  /-- `public key of %s is not the public half of its private key`. -/
  | mismatch (kid : KID)
  /-- The associated data or the key was not the one the ciphertext was sealed with. -/
  | authentication
  | parse
  /-- A source of randomness failed. -/
  | entropy
  | db (e : DBError)
  | wrap (context : String) (cause : KeyStoreError)
deriving DecidableEq, Repr

/-- The result of a loop over the rows: what is about to replace a pod's memory. -/
structure KeySet where
  activeKey : Option PrivateKey
  activeKID : KID
  publicKeys : List (KID × PublicKey)
deriving DecidableEq, Repr

def KeySet.empty : KeySet := ⟨none, KID.none, []⟩

/-- `publicKeys[kid] = key`. -/
def KeySet.publish (s : KeySet) (kid : KID) (key : PublicKey) : KeySet :=
  { s with publicKeys := (kid, key) :: s.publicKeys.filter fun e => e.1 ≠ kid }

/-- The calls of the keystore. `p` is the pod whose memory a call is about. -/
inductive KeyCall where
  | now
  | generateRSAKeyPair
  /-- `withMasterKey` around `vaultcrypto.Encrypt`. -/
  | encrypt (p : ℕ) (kid : KID) (plaintext : PEM)
  /-- `withMasterKey` around `vaultcrypto.Decrypt`. -/
  | decrypt (p : ℕ) (kid : KID) (data : Ciphertext)
  | begin
  | scanActive
  | retire (kids : List KID) (now expiresAt : Time)
  /-- `auth.import_signing_key`, up to its upsert. -/
  | guardInsert (args : ImportArgs)
  /-- The upsert of `auth.import_signing_key`. -/
  | importSigningKey (args : Importable)
  | commit
  /-- The answer to a commit. -/
  | commitReply
  | rollback
  | revoke (kid : KID)
  | scanExpired
  | reap (kids : List KID) (now : Time)
  | loadable
  /-- `rows.Err`, after the loop. -/
  | rowsErr
  | acquire
  | tryRotationLock
  | unlockRotation
  | activeCreatedAt
  | lockRefresh (p : ℕ)
  | unlockRefresh (p : ℕ)
  /-- Put a key set in the place of the pod's, and return the active kid of the one before. -/
  | swapKeys (p : ℕ) (keys : KeySet)
  /-- `ks.onKeyChange`, when it is set. -/
  | onKeyChange (p : ℕ) (activeKey : Option PrivateKey) (kid : KID)
  | hasActive (p : ℕ)

def KeyCall.Reply : KeyCall → Type
  | .now => Time
  | .generateRSAKeyPair => Except KeyStoreError PrivateKey
  | .encrypt .. => Except KeyStoreError Ciphertext
  | .decrypt .. => Except KeyStoreError PEM
  | .begin => Except DBError Unit
  | .scanActive => Except DBError (List KID)
  | .retire .. => Except DBError Unit
  | .guardInsert _ => Except DBError Importable
  | .importSigningKey _ => Except DBError Bool
  | .commit => Except DBError Unit
  | .commitReply => Except DBError Unit
  | .rollback => Except DBError Unit
  | .revoke _ => Except DBError ℕ
  | .scanExpired => Except DBError (List KID × Time)
  | .reap .. => Except DBError ℕ
  | .loadable => Except DBError (List KeyRow)
  | .rowsErr => Except DBError Unit
  | .acquire => Except DBError Unit
  | .tryRotationLock => Except DBError Bool
  | .unlockRotation => Except DBError Unit
  | .activeCreatedAt => Except DBError (Option Time)
  | .lockRefresh _ => Unit
  | .unlockRefresh _ => Unit
  | .swapKeys .. => KID
  | .onKeyChange .. => Unit
  | .hasActive _ => Bool

def keyCalls : Signature := ⟨KeyCall, KeyCall.Reply⟩

abbrev KeyProg := Program keyCalls

abbrev askKey (c : KeyCall) : KeyProg c.Reply := Program.perform (S := keyCalls) c

/-- A keystore: the pod it belongs to and its retention period. -/
structure KeyStore where
  pod : ℕ
  retentionPeriod : Duration
deriving DecidableEq, Repr

namespace KeyStore

/-! ### Refresh -/

def openKey (ks : KeyStore) (kid : KID) (encPriv : Ciphertext) :
    KeyProg (Except KeyStoreError PrivateKey) := do
  match ← askKey (.decrypt ks.pod kid encPriv) with
  | .error e => return .error (.wrap "decrypt key" e)
  | .ok privPEM =>
    match loadSigningKeyPEM privPEM with
    | none => return .error (.wrap "parse key" .parse)
    | some privKey => return .ok privKey

/-- `openKey`, and the comparison of the public half with the column. -/
def openMatching (ks : KeyStore) (row : KeyRow) (rsaPub : PublicKey) :
    KeyProg (Except KeyStoreError PrivateKey) := do
  match ← ks.openKey row.kid row.privateKey with
  | .error e => return .error e
  | .ok privKey =>
    if privKey.publicKey = rsaPub then return .ok privKey else return .error (.mismatch row.kid)

/-- The set with one more key in it, and its signer if the row is the active one. -/
def keep (keys : KeySet) (row : KeyRow) (rsaPub : PublicKey) (privKey : PrivateKey) : KeySet :=
  let keys := keys.publish row.kid rsaPub
  if row.status = .active then { keys with activeKey := some privKey, activeKID := row.kid }
  else keys

/-- **The loop of `Refresh`** over the rows. A row whose public key does not parse, or is not RSA,
is skipped, and so is one that is not active and does not open; one that is active and does not open
ends the loop. -/
def loadRows (ks : KeyStore) : List KeyRow → KeySet → KeyProg (Except KeyStoreError KeySet)
  | [], keys => return .ok keys
  | row :: rows, keys =>
    match row.publicKey with
    | .garbage _ => ks.loadRows rows keys
    | .other _ => ks.loadRows rows keys
    | .rsa rsaPub => do
      match ← ks.openMatching row rsaPub with
      | .ok privKey => ks.loadRows rows (keep keys row rsaPub privKey)
      | .error e =>
        if row.status = .active then return .error (.wrap "keystore" e)
        else ks.loadRows rows keys

def applyKeys (ks : KeyStore) (keys : KeySet) : KeyProg Unit := do
  let prevKID : KID ← askKey (.swapKeys ks.pod keys)
  if keys.activeKID = prevKID then return ()
  else askKey (.onKeyChange ks.pod keys.activeKey keys.activeKID)

/-- The body of `Refresh`, under its mutex. -/
def refreshLocked (ks : KeyStore) : KeyProg (Except KeyStoreError Unit) := do
  match ← askKey .loadable with
  | .error e => return .error (.wrap "keystore: query keys" (.db e))
  | .ok rows =>
    match ← ks.loadRows rows .empty with
    | .error e => return .error e
    | .ok keys =>
      match ← askKey .rowsErr with
      | .error e => return .error (.wrap "keystore: iterate rows" (.db e))
      | .ok () =>
        ks.applyKeys keys
        return .ok ()

def refresh (ks : KeyStore) : KeyProg (Except KeyStoreError Unit) := do
  askKey (.lockRefresh ks.pod)
  let result ← ks.refreshLocked
  askKey (.unlockRefresh ks.pod)
  return result

/-! ### Import and rotation -/

/-- `SELECT auth.import_signing_key(…)`. -/
def insertKey (args : ImportArgs) : KeyProg (Except DBError Bool) := do
  match ← askKey (.guardInsert args) with
  | .error e => return .error e
  | .ok args => askKey (.importSigningKey args)

def commitTx : KeyProg (Except DBError Unit) := do
  match ← askKey .commit with
  | .error e => return .error e
  | .ok () => askKey .commitReply

/-- The transaction of `Import`, up to its commit. -/
def importInTx (ks : KeyStore) (kid : KID) (encPriv : Ciphertext) (pubDER : PublicDER) :
    KeyProg (Except KeyStoreError Unit) := do
  let now : Time ← askKey .now
  let expiresAt := now + ks.retentionPeriod
  match ← askKey .scanActive with
  | .error e => return .error (.wrap "keystore: retire active key" (.db e))
  | .ok kids =>
    match ← askKey (.retire kids now expiresAt) with
    | .error e => return .error (.wrap "keystore: retire active key" (.db e))
    | .ok () =>
      match ← insertKey ⟨kid, encPriv, pubDER, "RS256", now⟩ with
      | .error e => return .error (.wrap "keystore: insert key" (.db e))
      | .ok false => return .error (.revokedKey kid)
      | .ok true =>
        match ← commitTx with
        | .error e => return .error (.wrap "keystore: commit" (.db e))
        | .ok () => return .ok ()

/-- The context of the one error that `Import` returns after its transaction has committed. -/
def refreshAfterImport : String := "keystore: refresh after import"

def importKey (ks : KeyStore) (key : PrivateKey) : KeyProg (Except KeyStoreError KID) := do
  let kid := kidFromPublicKey key.publicKey
  match ← askKey (.encrypt ks.pod kid (marshalSigningKeyPEM key)) with
  | .error e => return .error (.wrap "keystore: encrypt private key" e)
  | .ok encPriv =>
    match ← askKey .begin with
    | .error e => return .error (.wrap "keystore: begin tx" (.db e))
    | .ok () =>
      match ← ks.importInTx kid encPriv (marshalPKIXPublicKey key.publicKey) with
      | .error e =>
        let _ ← askKey .rollback
        return .error e
      | .ok () =>
        let refreshed ← ks.refresh
        let _ ← askKey .rollback
        match refreshed with
        | .error e => return .error (.wrap refreshAfterImport e)
        | .ok () => return .ok kid

def rotate (ks : KeyStore) : KeyProg (Except KeyStoreError KID) := do
  match ← askKey .generateRSAKeyPair with
  | .error e => return .error (.wrap "keystore: generate key" e)
  | .ok key => ks.importKey key

/-- The body of `RotateIfOlderThan`, under the advisory lock. `none` is the empty kid: nothing was
rotated. -/
def rotateLocked (ks : KeyStore) (maxAge : Duration) :
    KeyProg (Except KeyStoreError (Option KID)) := do
  match ← askKey .activeCreatedAt with
  | .error e => return .error (.wrap "keystore rotation: read active key age" (.db e))
  | .ok none => return .ok none
  | .ok (some createdAt) =>
    let now : Time ← askKey .now
    if now - createdAt < maxAge then return .ok none
    else
      match ← ks.rotate with
      | .error e => return .error e
      | .ok kid => return .ok (some kid)

/-- `RotateIfOlderThan`, which the scheduler of every pod runs. -/
def rotateIfOlderThan (ks : KeyStore) (maxAge : Duration) :
    KeyProg (Except KeyStoreError (Option KID)) := do
  match ← askKey .acquire with
  | .error e => return .error (.wrap "keystore rotation: acquire" (.db e))
  | .ok () =>
    match ← askKey .tryRotationLock with
    | .error e => return .error (.wrap "keystore rotation: lock" (.db e))
    | .ok false => return .ok none
    | .ok true =>
      let result ← ks.rotateLocked maxAge
      let _ ← askKey .unlockRotation
      return result

def ensureKey (ks : KeyStore) (initial : Option PrivateKey) :
    KeyProg (Except KeyStoreError Unit) := do
  match ← ks.refresh with
  | .error e => return .error e
  | .ok () =>
    let hasActive : Bool ← askKey (.hasActive ks.pod)
    if hasActive then return .ok ()
    else
      match initial with
      | some key =>
        match ← ks.importKey key with
        | .error e => return .error (.wrap "keystore: import initial key" e)
        | .ok _ => return .ok ()
      | none =>
        match ← ks.rotate with
        | .error e => return .error (.wrap "keystore: generate initial key" e)
        | .ok _ => return .ok ()

/-! ### Revocation and cleanup -/

def revoke (ks : KeyStore) (kid : KID) : KeyProg (Except KeyStoreError Unit) := do
  match ← askKey (.revoke kid) with
  | .error e => return .error (.wrap "keystore: revoke" (.db e))
  | .ok 0 => return .error (.notFound kid)
  | .ok _ => ks.refresh

def cleanupExpired (_ks : KeyStore) : KeyProg (Except KeyStoreError ℕ) := do
  match ← askKey .scanExpired with
  | .error e => return .error (.wrap "keystore: cleanup" (.db e))
  | .ok (kids, now) =>
    match ← askKey (.reap kids now) with
    | .error e => return .error (.wrap "keystore: cleanup" (.db e))
    | .ok n => return .ok n

end KeyStore

/-! ### The pods over one table -/

/-- What a pod holds: its master key until it is stopped, its mutex, its key set, and the token
service that listens to it. -/
structure Pod where
  masterKey : Option MasterKey
  /-- The thread that holds `refreshMu`. -/
  refreshMu : Option ℕ
  keys : KeySet
  /-- Whether `onKeyChange` is set. -/
  subscribed : Bool
  /-- `TokenService.privateKey`. -/
  signingKey : Option PrivateKey
  /-- `TokenService.kid`. -/
  signingKID : KID

/-- `TokenService.UpdateSigningKey`. -/
def Pod.updateSigningKey (p : Pod) (key : Option PrivateKey) (kid : KID) : Pod :=
  { p with signingKey := key, signingKID := kid }

/-- What the pods share, and the pods. -/
structure KeyWorld where
  table : KeyTable
  clock : Time
  supply : ℕ
  /-- The holder of the rotation's advisory lock. -/
  rotationLock : Option ℕ
  pods : ℕ → Pod

namespace KeyWorld

def setTable (w : KeyWorld) (K : KeyTable) : KeyWorld := { w with table := K }

def setPod (w : KeyWorld) (p : ℕ) (pod : Pod) : KeyWorld :=
  { w with pods := fun q => if q = p then pod else w.pods q }

end KeyWorld

/-- **How a call is answered.** -/
def keyAnswer (t : ℕ) (c : KeyCall) (w : KeyWorld) : c.Reply × KeyWorld :=
  match c with
  | .now => (w.clock, w)
  | .generateRSAKeyPair => (.ok ⟨w.supply⟩, { w with supply := w.supply + 1 })
  | .encrypt p kid plaintext =>
    match (w.pods p).masterKey with
    | none => (.error .closed, w)
    | some masterKey =>
      (.ok (Keystore.encrypt plaintext masterKey w.supply kid), { w with supply := w.supply + 1 })
  | .decrypt p kid data =>
    match (w.pods p).masterKey with
    | none => (.error .closed, w)
    | some masterKey =>
      match Keystore.decrypt data masterKey kid with
      | none => (.error .authentication, w)
      | some plaintext => (.ok plaintext, w)
  | .begin => (.ok (), w.setTable { w.table with keys := w.table.keys.begin t })
  | .scanActive =>
    if w.table.keys.opened t then (.ok (w.table.scanActive t), w) else (.error .noTransaction, w)
  | .retire kids now expiresAt =>
    let (r, K) := w.table.retire t kids now expiresAt
    (r, w.setTable K)
  | .guardInsert args =>
    let (r, K) := w.table.guardInsert t args
    (r, w.setTable K)
  | .importSigningKey args =>
    let (r, K) := w.table.importSigningKey t args
    (r, w.setTable K)
  | .commit =>
    let (r, K) := w.table.commit t
    (r, w.setTable K)
  | .commitReply => (.ok (), w)
  | .rollback => (.ok (), w.setTable (w.table.abort t))
  | .revoke kid =>
    let (r, K) := w.table.revoke kid w.clock
    (r, w.setTable K)
  | .scanExpired => (.ok (w.table.scanExpired w.clock, w.clock), w)
  | .reap kids now =>
    let (r, K) := w.table.reap kids now
    (r, w.setTable K)
  | .loadable => (.ok (w.table.loadable w.clock), w)
  | .rowsErr => (.ok (), w)
  | .acquire => (.ok (), w)
  | .tryRotationLock =>
    match w.rotationLock with
    | none => (.ok true, { w with rotationLock := some t })
    | some _ => (.ok false, w)
  | .unlockRotation =>
    (.ok (), if w.rotationLock = some t then { w with rotationLock := none } else w)
  | .activeCreatedAt => (.ok w.table.activeCreatedAt, w)
  | .lockRefresh p => ((), w.setPod p { w.pods p with refreshMu := some t })
  | .unlockRefresh p => ((), w.setPod p { w.pods p with refreshMu := none })
  | .swapKeys p keys => ((w.pods p).keys.activeKID, w.setPod p { w.pods p with keys := keys })
  | .onKeyChange p activeKey kid =>
    ((),
      if (w.pods p).subscribed then w.setPod p ((w.pods p).updateSigningKey activeKey kid) else w)
  | .hasActive p => ((w.pods p).keys.activeKey.isSome, w)

def keyBlocked (t : ℕ) (c : KeyCall) (w : KeyWorld) : Bool :=
  match c with
  | .retire kids _ _ => kids.any (w.table.keys.lockedFor t)
  | .importSigningKey args => w.table.importBlocked t args
  | .revoke kid => w.table.locked kid
  | .reap kids _ => kids.any w.table.locked
  | .lockRefresh p => (w.pods p).refreshMu.isSome
  | _ => false

/-- The replies with which a call can fail: any error of the database, a stopped keystore, and no
randomness. -/
def KeyFault : (c : KeyCall) → c.Reply → Prop
  | .generateRSAKeyPair, r => r = .error .entropy
  | .encrypt .., r => r = .error .closed ∨ r = .error .entropy
  | .decrypt .., r => r = .error .closed
  | .begin, r => ∃ e, r = .error e
  | .scanActive, r => ∃ e, r = .error e
  | .retire .., r => ∃ e, r = .error e
  | .guardInsert _, r => ∃ e, r = .error e
  | .importSigningKey _, r => ∃ e, r = .error e
  | .commit, r => ∃ e, r = .error e
  | .commitReply, r => ∃ e, r = .error e
  | .rollback, r => ∃ e, r = .error e
  | .revoke _, r => ∃ e, r = .error e
  | .scanExpired, r => ∃ e, r = .error e
  | .reap .., r => ∃ e, r = .error e
  | .loadable, r => ∃ e, r = .error e
  | .rowsErr, r => ∃ e, r = .error e
  | .acquire, r => ∃ e, r = .error e
  | .tryRotationLock, r => ∃ e, r = .error e
  | .unlockRotation, r => ∃ e, r = .error e
  | .activeCreatedAt, r => ∃ e, r = .error e
  | _, _ => False

inductive KeyReq where
  | importKey (ks : KeyStore) (key : PrivateKey)
  | rotate (ks : KeyStore)
  | rotateIfOlderThan (ks : KeyStore) (maxAge : Duration)
  | ensureKey (ks : KeyStore) (initial : Option PrivateKey)
  | revoke (ks : KeyStore) (kid : KID)
  | cleanupExpired (ks : KeyStore)
  | refresh (ks : KeyStore)

/-- What a request returns: a kid, a count, or nothing. -/
inductive KeyResponse where
  | kid (kid : KID)
  | unchanged
  | count (n : ℕ)
  | done
deriving DecidableEq, Repr

def KeyReq.serve : KeyReq → KeyProg (Except KeyStoreError KeyResponse)
  | .importKey ks key => (Except.map .kid ·) <$> ks.importKey key
  | .rotate ks => (Except.map .kid ·) <$> ks.rotate
  | .rotateIfOlderThan ks maxAge =>
    (Except.map (fun k => k.elim .unchanged .kid) ·) <$> ks.rotateIfOlderThan maxAge
  | .ensureKey ks initial => (Except.map (fun _ => .done) ·) <$> ks.ensureKey initial
  | .revoke ks kid => (Except.map (fun _ => .done) ·) <$> ks.revoke kid
  | .cleanupExpired ks => (Except.map .count ·) <$> ks.cleanupExpired
  | .refresh ks => (Except.map (fun _ => .done) ·) <$> ks.refresh

/-- What happens by itself: time passes, a connection is lost and the database rolls its transaction
back or releases its advisory lock, a pod is stopped, a pod wires its token service to its
keystore. -/
inductive KeyNudge where
  | tick (d : ℕ)
  | disconnect (t : ℕ)
  | loseRotationLock
  | stop (p : ℕ)
  | wire (p : ℕ)

def keyNudge (n : KeyNudge) (w : KeyWorld) : KeyWorld :=
  match n with
  | .tick d => { w with clock := w.clock + d }
  | .disconnect t => w.setTable (w.table.abort t)
  | .loseRotationLock => { w with rotationLock := none }
  | .stop p => w.setPod p { w.pods p with masterKey := none }
  | .wire p =>
    w.setPod p { w.pods p with
      subscribed := true, signingKey := (w.pods p).keys.activeKey,
      signingKID := (w.pods p).keys.activeKID }

/-- **The keystores** of all pods over one table. -/
def keyService : System keyCalls where
  World := KeyWorld
  Req := KeyReq
  Result := Except KeyStoreError KeyResponse
  program := KeyReq.serve
  answer := keyAnswer
  blocked := keyBlocked
  Fault := KeyFault
  Nudge := KeyNudge
  nudge := keyNudge

end Vault42.Keystore
