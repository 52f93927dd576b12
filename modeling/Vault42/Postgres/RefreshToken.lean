import Vault42.Model
import Mathlib.Data.List.Sort
import Mathlib.Data.List.Dedup
import Mathlib.Data.String.Basic

/-!
# The refresh-token table

`internal/repository/postgres/refresh_token.go`, statement by statement. A statement that runs on
its own is one atomic step of the table. A repository function that opens a transaction is several:
the transaction's locks are taken by one statement, its writes prepared by the next, and they become
visible to everybody else when it commits, so a `Txn` keeps what it has locked and what it has
written beside the committed rows.

Under READ COMMITTED a statement that needs a row somebody else has locked waits for the holder and
then reads what the holder committed. A statement here is therefore answered at the moment it gets
its last lock, and `TokenStore.blocks` says when it has to wait.

* Row locks: the insert locks the rows of its family, a revocation the rows of its scope, the
  reaper and `MarkUsed` the rows they write.
* Table lock: `RevokeAll` takes `EXCLUSIVE`, which every writer and every row lock conflicts with
  and a plain read does not.
* Advisory lock: `CreateWithinCap` takes one per user. The source hashes the user id into the key;
  two users that collide there would only wait for each other.

`TokenStore.log` is a history variable. No statement reads it: it records which rows were ever
committed and which families a completed revocation covered.
-/

namespace Vault42

/-- A row of `auth.refresh_tokens`. The nullable text columns are options. -/
structure Row where
  id : UUID
  userID : UserID
  clientID : Option String
  tokenHash : TokenHash
  familyID : UUID
  deviceID : Option UUID
  fingerprintHash : Option Fingerprint
  expiresAt : Time
  used : Bool
  revoked : Bool
  createdAt : Time
  familyCreatedAt : Time
  dpopJKT : Option String
deriving DecidableEq, Repr

/-- `nullStr`: the empty string is stored as NULL. -/
def nullStr (s : String) : Option String := if s = "" then none else some s

/-- `deref`: NULL is read back as the empty string. -/
def deref (s : Option String) : String := s.getD ""

@[simp] theorem deref_nullStr (s : String) : deref (nullStr s) = s := by
  unfold deref nullStr
  split
  · rename_i h
    simp [h]
  · rfl

/-- A column that is not the empty string survives the round trip. -/
theorem nullStr_deref {s : Option String} (h : s ≠ some "") : nullStr (deref s) = s := by
  cases s with
  | none => rfl
  | some x =>
    show (if x = "" then none else some x) = some x
    rw [if_neg]
    rintro rfl
    exact h rfl

theorem nullStr_ne_empty {s : String} : nullStr s ≠ some "" := by
  unfold nullStr
  split
  · simp
  · simpa

namespace Row

/-- A row a presented token can still be spent from, its expiry aside: neither used nor revoked. -/
def live (r : Row) : Bool := !r.used && !r.revoked

/-- A row that `countActiveFamiliesSQL` counts for a user at an instant. -/
def active (r : Row) (u : UserID) (now : Time) : Bool :=
  r.userID == u && !r.revoked && !r.used && decide (now < r.expiresAt)

/-- The select list of `GetByTokenHash`. -/
def toModel (r : Row) : RefreshToken where
  id := r.id
  userID := r.userID
  clientID := deref r.clientID
  tokenHash := r.tokenHash
  familyID := r.familyID
  deviceID := r.deviceID
  fingerprintHash := r.fingerprintHash
  dpopJKT := deref r.dpopJKT
  expiresAt := r.expiresAt
  used := r.used
  revoked := r.revoked
  createdAt := r.createdAt

end Row

/-- What a revocation is scoped to. -/
inductive Scope where
  | family (f : UUID)
  | user (u : UserID)
  | device (d : UUID)
  | everything
deriving DecidableEq, Repr

/-- The rows a scope's `WHERE` clause names, the `revoked = FALSE` conjunct aside: marking a revoked
row revoked changes nothing. -/
def Scope.covers : Scope → Row → Bool
  | family f, r => r.familyID == f
  | user u, r => r.userID == u
  | device d, r => r.deviceID == some d
  | everything, _ => true

/-- An open transaction: the locks it holds and the writes it has not committed. -/
structure Txn where
  /-- The thread whose connection it runs on. -/
  owner : ℕ
  /-- `NOW()` inside the transaction. -/
  startedAt : Time
  /-- Rows locked, by id. -/
  locked : List UUID
  /-- It holds some lock on the table below `EXCLUSIVE`: it has written or locked rows. -/
  rowLevel : Bool
  /-- It holds the table `EXCLUSIVE`. -/
  exclusive : Bool
  /-- The user whose session lock it holds. -/
  sessionLock : Option UserID
  /-- Rows its `UPDATE` marks revoked, by id. -/
  revoking : List UUID
  /-- The row it has inserted. -/
  inserted : Option Row
deriving Repr

/-- What the history variable records. -/
inductive TableEvent where
  /-- A row was committed. -/
  | inserted (r : Row)
  /-- A revocation that covered a row of this family was committed. -/
  | burned (f : UUID)
deriving DecidableEq, Repr

/-- The table, the transactions open on it, and the history variable. -/
structure TokenStore where
  rows : List Row
  txns : List Txn
  log : List TableEvent
deriving Repr

/-- How a store call fails: `ErrFamilyRevoked` is not an error of the store but its refusal. -/
inductive StoreError where
  | uniqueViolation
  | backend
deriving DecidableEq, Repr

/-- What an insert reports: a row, or no row because the guard refused it. -/
inductive InsertOutcome where
  | inserted
  | familyRevoked
deriving DecidableEq, Repr

namespace TokenStore

/-! ### Reads -/

def family (s : TokenStore) (f : UUID) : List Row := s.rows.filter fun r => r.familyID == f

def getByTokenHash (s : TokenStore) (h : TokenHash) : Option RefreshToken :=
  (s.rows.find? fun r => r.tokenHash == h).map Row.toModel

/-- `MIN(family_created_at)` over a family, NULL when it has no rows. -/
def minCreatedAt (s : TokenStore) (f : UUID) : Option Time :=
  ((s.family f).map fun r => r.familyCreatedAt).min?

/-- `FamilyOrigin`: NULL is read as the zero time. -/
def familyOrigin (s : TokenStore) (f : UUID) : Time := (s.minCreatedAt f).getD 0

/-- The families `countActiveFamiliesSQL` counts. -/
def activeFamilies (s : TokenStore) (u : UserID) (now : Time) : List UUID :=
  ((s.rows.filter fun r => r.active u now).map fun r => r.familyID).dedup

/-- `COUNT(DISTINCT family_id)` over a user's active rows. -/
def countActiveFamilies (s : TokenStore) (u : UserID) (now : Time) : ℕ :=
  (s.activeFamilies u now).length

/-! ### Transactions and locks -/

/-- The transaction a thread has open. -/
def txnOf (s : TokenStore) (t : ℕ) : Option Txn := s.txns.find? fun x => x.owner == t

/-- Somebody else holds a lock on this row. -/
def rowLocked (s : TokenStore) (t : ℕ) (id : UUID) : Bool :=
  s.txns.any fun x => x.owner != t && x.locked.contains id

/-- Somebody else holds the table `EXCLUSIVE`. -/
def tableLocked (s : TokenStore) (t : ℕ) : Bool := s.txns.any fun x => x.owner != t && x.exclusive

/-- Somebody else holds rows, or the table. -/
def tableBusy (s : TokenStore) (t : ℕ) : Bool :=
  s.txns.any fun x => x.owner != t && (x.rowLevel || x.exclusive)

/-- Somebody else holds the user's session lock. -/
def sessionsLocked (s : TokenStore) (t : ℕ) (u : UserID) : Bool :=
  s.txns.any fun x => x.owner != t && x.sessionLock == some u

/-- A writer has to wait: the table is held, or one of the rows it needs is. -/
def writeBlocked (s : TokenStore) (t : ℕ) (needs : Row → Bool) : Bool :=
  s.tableLocked t || s.rows.any fun r => needs r && s.rowLocked t r.id

/-- Change the transaction a thread has open. -/
def updateTxn (s : TokenStore) (t : ℕ) (f : Txn → Txn) : TokenStore :=
  { s with txns := s.txns.map fun x => if x.owner = t then f x else x }

def begin (s : TokenStore) (t : ℕ) (now : Time) : TokenStore :=
  { s with
    txns := ⟨t, now, [], false, false, none, [], none⟩ :: s.txns.filter fun x => x.owner != t }

/-- `Rollback`: the locks are released and the writes forgotten; a no-op after a commit. -/
def rollback (s : TokenStore) (t : ℕ) : TokenStore :=
  { s with txns := s.txns.filter fun x => x.owner != t }

/-- Mark rows revoked, by id. -/
def revokeIds (rows : List Row) (ids : List UUID) : List Row :=
  rows.map fun r => if r.id ∈ ids then { r with revoked := true } else r

/-- The families that have a row among these ids. -/
def familiesOf (rows : List Row) (ids : List UUID) : List UUID :=
  ((rows.filter fun r => r.id ∈ ids).map fun r => r.familyID).dedup

/-- `Commit`. The writes become visible and the locks are released. -/
def commit (s : TokenStore) (t : ℕ) : Except StoreError Unit × TokenStore :=
  match s.txnOf t with
  | none => (.error .backend, s)
  | some x =>
    (.ok (),
      { rows := revokeIds s.rows x.revoking ++ x.inserted.toList
        txns := s.txns.filter fun y => y.owner != t
        log := (x.inserted.toList.map TableEvent.inserted) ++
          (familiesOf s.rows x.revoking).map TableEvent.burned ++ s.log })

/-! ### Inserting -/

/-- The row `insertRefreshRowSQL` builds. The family's birth date and its DPoP binding are read back
from the family; only a family with no rows takes them from the caller. -/
def rowToInsert (s : TokenStore) (tok : RefreshToken) : Row where
  id := tok.id
  userID := tok.userID
  clientID := nullStr tok.clientID
  tokenHash := tok.tokenHash
  familyID := tok.familyID
  deviceID := tok.deviceID
  fingerprintHash := tok.fingerprintHash
  expiresAt := tok.expiresAt
  used := false
  revoked := false
  createdAt := tok.createdAt
  familyCreatedAt := (s.minCreatedAt tok.familyID).getD tok.createdAt
  dpopJKT :=
    if (s.family tok.familyID).length = 0 then nullStr tok.dpopJKT
    else ((s.family tok.familyID).filterMap fun r => r.dpopJKT).min?

/-- The guard of the insert: no row of the family is revoked, and the account is not a tombstone. -/
def insertGuard (s : TokenStore) (users : List User) (tok : RefreshToken) : Bool :=
  !((s.family tok.familyID).any fun r => r.revoked) &&
    users.any fun u => u.id == tok.userID && !u.deleted

/-- The primary key or the unique index on `token_hash` refuses the row. -/
def duplicates (s : TokenStore) (tok : RefreshToken) : Bool :=
  (s.rows ++ s.txns.filterMap fun x => x.inserted).any fun r =>
    r.id == tok.id || r.tokenHash == tok.tokenHash

def create (s : TokenStore) (users : List User) (tok : RefreshToken) :
    Except StoreError InsertOutcome × TokenStore :=
  if s.insertGuard users tok then
    if s.duplicates tok then (.error .uniqueViolation, s)
    else
      (.ok .inserted,
        { s with
          rows := s.rows ++ [s.rowToInsert tok]
          log := .inserted (s.rowToInsert tok) :: s.log })
  else (.ok .familyRevoked, s)

/-- The insert of `CreateWithinCap`: the same statement inside a transaction. -/
def insertInTxn (s : TokenStore) (t : ℕ) (users : List User) (tok : RefreshToken) :
    Except StoreError InsertOutcome × TokenStore :=
  match s.txnOf t with
  | none => (.error .backend, s)
  | some _ =>
    if s.insertGuard users tok then
      if s.duplicates tok then (.error .uniqueViolation, s)
      else
        (.ok .inserted,
          s.updateTxn t fun x =>
            { x with
              rowLevel := true
              locked := x.locked ++ (s.family tok.familyID).map fun r => r.id
              inserted := some (s.rowToInsert tok) })
    else
      (.ok .familyRevoked,
        s.updateTxn t fun x =>
          { x with
            rowLevel := true
            locked := x.locked ++ (s.family tok.familyID).map fun r => r.id })

/-! ### Spending and revoking -/

/-- The precondition of `MarkUsed` on a row. -/
def spendable (id : UUID) (r : Row) : Bool := r.id == id && !r.used && !r.revoked

def markUsed (s : TokenStore) (id : UUID) : Bool × TokenStore :=
  (s.rows.any (spendable id),
    { s with rows := s.rows.map fun r => if spendable id r then { r with used := true } else r })

/-- The lock statement of a revocation: the rows of its scope, or the whole table. -/
def lockScope (s : TokenStore) (t : ℕ) (sc : Scope) : Except StoreError Unit × TokenStore :=
  match s.txnOf t with
  | none => (.error .backend, s)
  | some _ =>
    (.ok (),
      s.updateTxn t fun x =>
        match sc with
        | .everything => { x with exclusive := true }
        | _ =>
          { x with
            rowLevel := true
            locked := x.locked ++ (s.rows.filter sc.covers).map fun r => r.id })

/-- The write statement of a revocation. Its snapshot is its own, so it also finds the rows that
were committed while the lock statement waited. -/
def revokeScope (s : TokenStore) (t : ℕ) (sc : Scope) : Except StoreError Unit × TokenStore :=
  match s.txnOf t with
  | none => (.error .backend, s)
  | some _ =>
    (.ok (),
      s.updateTxn t fun x =>
        { x with
          rowLevel := true
          locked := x.locked ++ (s.rows.filter sc.covers).map fun r => r.id
          revoking := x.revoking ++ (s.rows.filter sc.covers).map fun r => r.id })

/-- `pg_advisory_xact_lock` on the user's sessions. -/
def lockSessions (s : TokenStore) (t : ℕ) (u : UserID) : Except StoreError Unit × TokenStore :=
  match s.txnOf t with
  | none => (.error .backend, s)
  | some _ => (.ok (), s.updateTxn t fun x => { x with sessionLock := some u })

/-! ### The reaper -/

def refreshReapBatch : ℕ := 2000

def refreshReapMaxBatches : ℕ := 20

/-- The rows a batch of a reaper selects: the first ones, by id, that satisfy its condition. -/
def reaped (s : TokenStore) (dead : Row → Bool) : List UUID :=
  (((s.rows.filter dead).map fun r => r.id).insertionSort (· ≤ ·)).take refreshReapBatch

/-- One batch of a reaper: the number of rows deleted, and the table without them. -/
def reapBatch (s : TokenStore) (dead : Row → Bool) : ℕ × TokenStore :=
  ((s.reaped dead).length, { s with rows := s.rows.filter fun r => !(s.reaped dead).contains r.id })

/-- The condition of `DeleteExpired`. -/
def expiredSpent (now : Time) (r : Row) : Bool :=
  decide (r.expiresAt < now) && (r.used || r.revoked)

/-- The condition of `DeleteExpiredUnused`. -/
def expiredUnused (now : Time) (r : Row) : Bool :=
  decide (r.expiresAt < now) && !r.used && !r.revoked

end TokenStore

end Vault42
