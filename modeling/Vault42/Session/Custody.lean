import Vault42.Service.Walk

/-!
# The custody of refresh tokens

What a request handler may do to the refresh-token table, as a typestate discipline. Everything the
results about sessions need from the code of the handlers is said here once, and `serve_obeys`
proves it: the invariants of the table are then preserved by any interleaving of threads that keep
to the discipline, and never look at the handlers again.

A thread is in custody of at most one thing. A rotation reads a row (`Rotation.read`), reads the
clock (`timed`), spends the row (`spent`) and writes one successor into the row's family (`closed`).
A login draws a family id no one else has and writes one first row under it, alone when there is no
session cap and otherwise inside a transaction that has locked the user's sessions and counted them.
A revocation opens a transaction, locks its scope, writes and commits. Nothing else writes the table
but the reaper.
-/

namespace Vault42

open Framework Program

/-- How far a rotation has come. -/
inductive Rotation where
  | idle
  /-- The presented token's row has been read. -/
  | read (stored : RefreshToken)
  /-- The clock has been read for its expiry check. -/
  | timed (stored : RefreshToken) (at_ : Time)
  /-- The compare-and-set found the row spent, revoked or gone. -/
  | lost (stored : RefreshToken)
  /-- The row has been spent and its successor not yet written. -/
  | spent (stored : RefreshToken)
  | closed (stored : RefreshToken)

/-- The token a rotation is about. -/
def Rotation.stored : Rotation → Option RefreshToken
  | .idle => none
  | .read tok => some tok
  | .timed tok _ => some tok
  | .lost tok => some tok
  | .spent tok => some tok
  | .closed tok => some tok

/-- How far a transaction on the token table has come. -/
inductive TxnPhase where
  | none
  | opened
  | sessionsLocked (u : UserID)
  | counted (u : UserID) (n : ℕ)
  | inserted
  | locked (sc : Scope)
  | revoking (sc : Scope)

/-- What a thread has been told about time. The table does not depend on it; the lifetimes of the
tokens it is given do. -/
structure Notes where
  /-- The clock readings, the latest first. -/
  clocks : List Time
  /-- The origin of the family being rotated, once it has been asked for; zero when the store could
  not say. -/
  origin : Option Time

/-- Clock readings that follow one another, of a clock that is set. -/
structure Notes.Sane (ν : Notes) : Prop where
  ordered : ν.clocks.Pairwise (· ≥ ·)
  positive : ∀ x ∈ ν.clocks, 0 < x

/-- Readings that followed one another did so all along. -/
theorem Notes.Sane.of_suffix {ν ν' : Notes} (h : ν'.Sane) (hs : ν.clocks <:+ ν'.clocks) : ν.Sane :=
  ⟨h.ordered.sublist hs.sublist, fun x hx => h.positive x (hs.subset hx)⟩

theorem Notes.Sane.le_head {ν : Notes} (h : ν.Sane) {x y : Time} (hy : ν.clocks.head? = some y)
    (hx : x ∈ ν.clocks) : x ≤ y := by
  obtain ⟨rest, hrest⟩ := List.head?_eq_some_iff.mp hy
  have hord := h.ordered
  rw [hrest] at hord hx
  rcases List.mem_cons.mp hx with rfl | hx
  · exact le_refl _
  · exact (List.pairwise_cons.mp hord).1 x hx

/-- What a thread's conversation amounts to, as far as the token table is concerned. -/
structure Custody where
  /-- The random values it has drawn. -/
  drawn : List UUID
  /-- It has inserted a row, committed or not. -/
  wrote : Bool
  rotation : Rotation
  txn : TxnPhase
  /-- The scopes it has revoked. -/
  burnt : List Scope
  /-- The token store has failed one of the statements a revocation is made of. -/
  refused : Bool
  notes : Notes

namespace Custody

/-- The phase of a thread that has done nothing. -/
def start : Custody := ⟨[], false, .idle, .none, [], false, ⟨[], none⟩⟩

def noteClock (φ : Custody) (at_ : Time) : Notes := { φ.notes with clocks := at_ :: φ.notes.clocks }

/-- The family being rotated has been dated. -/
def dated (φ : Custody) (origin : Time) : Custody :=
  { φ with notes := { φ.notes with origin := some origin } }

/-- The clock reading that follows the read of a row is the one its expiry is checked against. -/
def readClock (at_ : Time) : Rotation → Rotation
  | .read stored => .timed stored at_
  | r => r

/-- A successful compare-and-set on the row that was read. -/
def spend : Rotation → Rotation
  | .timed stored _ => .spent stored
  | r => r

/-- A compare-and-set on the row that was read, which somebody else was ahead of. -/
def lose : Rotation → Rotation
  | .timed stored _ => .lost stored
  | r => r

/-- The successor has been written. -/
def close : Rotation → Rotation
  | .spent stored => .closed stored
  | r => r

section Stored

variable {ρ : Rotation}

@[simp] theorem stored_readClock (at_ : Time) :
    (readClock at_ ρ).stored = ρ.stored := by
  cases ρ <;> rfl

@[simp] theorem stored_spend : (spend ρ).stored = ρ.stored := by
  cases ρ <;> rfl

@[simp] theorem stored_lose : (lose ρ).stored = ρ.stored := by
  cases ρ <;> rfl

@[simp] theorem stored_close : (close ρ).stored = ρ.stored := by
  cases ρ <;> rfl

end Stored

/-- A commit of a revocation covers its scope. -/
def commitScope : TxnPhase → List Scope
  | .revoking sc => [sc]
  | _ => []

/-- The phase after a statement on the token table. -/
def nextToken (φ : Custody) : (q : TokenCall) → q.Reply → Custody
  | .getByTokenHash _, .ok (some stored) => { φ with rotation := .read stored }
  | .getByTokenHash _, .ok none => φ
  | .familyOrigin _, .ok origin => φ.dated origin
  | .familyOrigin _, .error _ => φ.dated 0
  | .countActiveFamilies _, .ok _ => φ
  | .create _, .ok .inserted => { φ with wrote := true, rotation := close φ.rotation }
  | .create _, .ok .familyRevoked => φ
  | .markUsed _, .ok true => { φ with rotation := spend φ.rotation }
  | .markUsed _, .ok false => { φ with rotation := lose φ.rotation }
  | .deleteExpired, .ok _ => φ
  | .deleteExpiredUnused, .ok _ => φ
  | .begin, .ok _ => { φ with txn := .opened }
  | .lockSessions u, .ok _ => { φ with txn := .sessionsLocked u }
  | .countInTxn u, .ok n => { φ with txn := .counted u n }
  | .insertInTxn _, .ok .inserted => { φ with wrote := true, txn := .inserted }
  | .insertInTxn _, .ok .familyRevoked => φ
  | .lockScope sc, .ok _ => { φ with txn := .locked sc }
  | .revokeScope sc, .ok _ => { φ with txn := .revoking sc }
  | .commit, .ok _ => { φ with txn := .none, burnt := commitScope φ.txn ++ φ.burnt }
  | .rollback, _ => { φ with txn := .none }
  -- a statement of a revocation, or of a login's transaction, failed
  | .begin, .error _ => { φ with refused := true }
  | .lockScope _, .error _ => { φ with refused := true }
  | .revokeScope _, .error _ => { φ with refused := true }
  | .commit, .error _ => { φ with refused := true }
  | _, _ => φ

def next (φ : Custody) : (c : Call) → c.Reply → Custody
  | .now, r => { φ with rotation := readClock r φ.rotation, notes := φ.noteClock r }
  | .random, r => { φ with drawn := r :: φ.drawn }
  | .tokens q, r => φ.nextToken q r
  | _, _ => φ

/-- A token a thread may insert as the first of a family: its family id is one the thread drew. -/
structure Firstborn (φ : Custody) (tok : RefreshToken) : Prop where
  rotation : φ.rotation = .idle
  family : tok.familyID ∈ φ.drawn

/-- A token a thread may insert as the successor of the row it has spent. -/
structure Successor (φ : Custody) (tok : RefreshToken) (stored : RefreshToken) : Prop where
  rotation : φ.rotation = .spent stored
  family : tok.familyID = stored.familyID
  user : tok.userID = stored.userID
  device : tok.deviceID = stored.deviceID
  jkt : tok.dpopJKT = stored.dpopJKT

/-- The identifiers of an insert are fresh, and it is the only one of the thread. -/
structure Fresh (φ : Custody) (tok : RefreshToken) : Prop where
  wrote : φ.wrote = false
  id : tok.id ∈ φ.drawn
  hash : ∃ x ∈ φ.drawn, tok.tokenHash = sha256Hex x

/-- The row a compare-and-set may be tried on: the one that was read, unused and unrevoked, and not
expired at the clock reading that followed. -/
def MaySpend (φ : Custody) (id : UUID) : Prop :=
  ∃ stored at_, φ.rotation = .timed stored at_ ∧ stored.id = id ∧ stored.used = false ∧
    stored.revoked = false ∧ at_ ≤ stored.expiresAt

/-- The statements on the token table a phase allows. `maxFamilies` is the session cap. -/
def AllowsToken (maxFamilies : ℤ) (φ : Custody) : TokenCall → Prop
  | .getByTokenHash _ => φ.rotation = .idle ∧ φ.txn = .none ∧ φ.burnt = []
  | .create tok => φ.Fresh tok ∧ φ.txn = .none ∧
      (maxFamilies ≤ 0 ∧ φ.Firstborn tok ∨ ∃ stored, φ.Successor tok stored)
  | .markUsed id => φ.MaySpend id
  | .begin => φ.txn = .none
  | .lockSessions _ => φ.txn = .opened
  | .countInTxn u => φ.txn = .sessionsLocked u
  | .insertInTxn tok => φ.Fresh tok ∧ φ.Firstborn tok ∧
      ∃ n, φ.txn = .counted tok.userID n ∧ (n : ℤ) < maxFamilies
  | .lockScope _ => φ.txn = .opened
  | .revokeScope sc => φ.txn = .locked sc
  | .commit => φ.txn = .inserted ∨ ∃ sc, φ.txn = .revoking sc
  | _ => True

/-- The rotation is within the session's bounds at the clock reading its expiry is checked against:
less than the inactivity timeout after the row was issued, and less than the absolute lifetime after
an origin the store has reported. -/
def InTime (cfg : Settings) (φ : Custody) : Prop :=
  ∀ stored at_, φ.rotation = .timed stored at_ → φ.notes.Sane →
    (0 < cfg.inactivityTimeout → at_ < stored.createdAt + cfg.inactivityTimeout) ∧
      (0 < cfg.maxSessionLifetime →
        ∃ o, φ.notes.origin = some o ∧ o ≠ 0 ∧ at_ < o + cfg.maxSessionLifetime)

/-- A token whose expiry keeps both bounds. It is issued at the latest clock reading. The absolute
lifetime is measured from there for the first token of a family, and from the family's origin for a
successor. -/
structure Leased (cfg : Settings) (φ : Custody) (tok : RefreshToken) : Prop where
  issued : φ.notes.clocks.head? = some tok.createdAt
  idle : φ.notes.Sane → 0 < cfg.inactivityTimeout →
    tok.expiresAt ≤ tok.createdAt + cfg.inactivityTimeout
  life : φ.notes.Sane → 0 < cfg.maxSessionLifetime →
    φ.rotation = .idle ∧ tok.expiresAt ≤ tok.createdAt + cfg.maxSessionLifetime ∨
      ∃ o, φ.notes.origin = some o ∧ (0 < o → tok.expiresAt ≤ o + cfg.maxSessionLifetime)

/-- The statements on the token table that a phase allows as far as time is concerned. A family is
dated once, by the rotation of one of its rows. -/
def AllowsTime (cfg : Settings) (φ : Custody) : TokenCall → Prop
  | .familyOrigin f => φ.notes.origin = none ∧
      ∃ stored, φ.rotation.stored = some stored ∧ stored.familyID = f
  | .markUsed _ => φ.InTime cfg
  | .create tok => φ.Leased cfg tok
  | .insertInTxn tok => φ.Leased cfg tok
  | _ => True

end Custody

/-- **The custody discipline.** It assumes nothing about replies. -/
def custody (cfg : Settings) : Discipline vault where
  Phase := Custody
  start := .start
  Allows φ c :=
    match c with
    | .tokens q => φ.AllowsToken cfg.maxSessionsPerUser q ∧ φ.AllowsTime cfg q
    | _ => True
  Admits _ _ _ := True
  next := Custody.next

namespace Custody

variable {cfg : Settings} {φ ψ : Custody} {α β : Type}

/-! ### Calls beside the table -/

/-- A call that does not write the token table, nor reads it for a rotation. -/
def Aside : Call → Prop
  | .tokens (.countActiveFamilies _) => True
  | .tokens _ => False
  | _ => True

/-- A phase that has only gained random values and clock readings. -/
structure Grows (φ ψ : Custody) : Prop where
  drawn : φ.drawn ⊆ ψ.drawn
  wrote : ψ.wrote = φ.wrote
  rotation : ψ.rotation = φ.rotation
  txn : ψ.txn = φ.txn
  clocks : φ.notes.clocks <:+ ψ.notes.clocks
  origin : ψ.notes.origin = φ.notes.origin

theorem Grows.refl (φ : Custody) : φ.Grows φ :=
  ⟨List.Subset.refl _, rfl, rfl, rfl, List.suffix_refl _, rfl⟩

theorem Grows.trans {χ : Custody} (h : φ.Grows ψ) (h' : ψ.Grows χ) : φ.Grows χ :=
  ⟨List.Subset.trans h.drawn h'.drawn, h'.wrote.trans h.wrote, h'.rotation.trans h.rotation,
    h'.txn.trans h.txn, h.clocks.trans h'.clocks, h'.origin.trans h.origin⟩

theorem Grows.sane (h : φ.Grows ψ) (hs : ψ.notes.Sane) : φ.notes.Sane := hs.of_suffix h.clocks

theorem grows_random (x : UUID) : φ.Grows (next φ .random x) :=
  ⟨List.subset_cons_self _ _, rfl, rfl, rfl, List.suffix_refl _, rfl⟩

/-- The clock is not about to be read for a rotation. -/
def Settled (φ : Custody) : Prop := ∀ stored, φ.rotation ≠ .read stored

theorem Settled.grows (h : φ.Settled) (hg : φ.Grows ψ) : ψ.Settled := by
  intro stored
  rw [hg.rotation]
  exact h stored

theorem readClock_of_settled (h : φ.Settled) (at_ : Time) :
    readClock at_ φ.rotation = φ.rotation := by
  cases hr : φ.rotation with
  | read stored => exact absurd hr (h stored)
  | idle | timed | lost | spent | closed => rfl

theorem allows_of_aside {c : Call} (h : Aside c) : (custody cfg).Allows φ c := by
  cases c with
  | tokens q =>
    cases q with
    | countActiveFamilies => exact ⟨trivial, trivial⟩
    | _ => cases h
  | _ => trivial

/-- Reading the clock, when it is not read for a rotation. -/
theorem Settled.grows_now (h : φ.Settled) (at_ : Time) : φ.Grows (next φ .now at_) :=
  ⟨List.Subset.refl _, rfl, readClock_of_settled h at_, rfl, List.suffix_cons _ _, rfl⟩

theorem grows_next_of_aside (hφ : φ.Settled) {c : Call} (h : Aside c) (r : c.Reply) :
    φ.Grows (next φ c r) := by
  cases c with
  | now => exact hφ.grows_now r
  | random => exact grows_random r
  | tokens q =>
    cases q with
    | countActiveFamilies => cases r <;> exact .refl φ
    | _ => cases h
  | _ => exact .refl φ

variable {p : Prog α}

/-- A program that stays beside the table is allowed everywhere, and only draws random values. -/
theorem obeys_of_aside (hp : p.Within Aside) (hφ : φ.Settled) :
    p.Obeys (custody cfg) (fun ψ _ => φ.Grows ψ) φ := by
  refine hp.keeps (.refl φ) fun ψ c hψ hc => ⟨allows_of_aside hc, fun r => ?_⟩
  exact hψ.trans (grows_next_of_aside (hφ.grows hψ) hc r)

theorem obeys_bind_of_aside {f : α → Prog β} {Q : Custody → β → Prop} (hp : p.Within Aside)
    (hφ : φ.Settled) (hf : ∀ ψ a, φ.Grows ψ → (f a).Obeys (custody cfg) Q ψ) :
    (p >>= f).Obeys (custody cfg) Q φ :=
  (obeys_of_aside hp hφ).bind hf

variable {K : Set CacheKey}

theorem aside_of_clerical {c : Call} (h : Clerical K c) : Aside c := by
  cases c with
  | tokens q =>
    cases q with
    | countActiveFamilies => trivial
    | _ => cases h
  | _ => trivial

theorem within_aside (hp : p.Within (Clerical K)) :
    p.Within Aside := hp.mono fun _ => aside_of_clerical

theorem obeys_bind_of_clerical {f : α → Prog β} {Q : Custody → β → Prop}
    (hp : p.Within (Clerical K)) (hφ : φ.Settled)
    (hf : ∀ ψ a, φ.Grows ψ → (f a).Obeys (custody cfg) Q ψ) : (p >>= f).Obeys (custody cfg) Q φ :=
  obeys_bind_of_aside (within_aside hp) hφ hf

end Custody

end Vault42
