import Vault42.Framework.Extension
import Vault42.Session.Vetted

/-!
# The operator's levers

`internal/adminapi`: with `BanUser` and `LockUser` an operator contains an account, with `UnbanUser`
and `UnlockUser` the sanction is lifted. They are added to the service (`Framework.System.annex`):
their statements on `auth.users` and on `auth.refresh_tokens` interleave with those of the logins,
second factors, callbacks and rotations that are being served.

Both containing handlers write the flag first and then revoke every session of the account. The
revocation is best effort, and the audit row says whether it succeeded.

`operator_conduct` is what the four programs keep to: a transaction is committed only right after
the revocation of an account whose sanction is written, and `sessions_revoked` is recorded only
right after such a commit.
-/

namespace Vault42.Operator

open Framework Program

/-- What can be done to an account. -/
inductive Sanction where
  | ban
  | lock (until_ : Time)
deriving DecidableEq, Repr

/-- The kinds of audit event the handlers write. -/
inductive EventKind where
  | adminUserBan
  | adminUserUnban
  | adminUserLock
  | adminUserUnlock
deriving DecidableEq, Repr

/-- An audit row of the handlers: `target_user`, and the metadata each kind has. -/
structure OperatorEvent where
  kind : EventKind
  targetUser : UserID
  reason : Option String
  lockedUntil : Option Time
  sessionsRevoked : Option Bool
deriving DecidableEq, Repr

/-- The row reports that the sanction was imposed on the account and its sessions revoked. -/
def OperatorEvent.Reports (e : OperatorEvent) (u : UserID) (s : Sanction) : Prop :=
  e.targetUser = u ∧ e.sessionsRevoked = some true ∧
    match s with
    | .ban => e.kind = .adminUserBan
    | .lock until_ => e.kind = .adminUserLock ∧ e.lockedUntil = some until_

/-- The statements on `auth.users` that only the admin plane makes, and its audit log. -/
inductive OperatorCall where
  | setBanned (u : UserID) (banned : Bool)
  | lockUntil (u : UserID) (until_ : Time)
  | unlock (u : UserID)
  | audit (e : OperatorEvent)

abbrev OperatorCall.Reply : OperatorCall → Type
  | .setBanned _ _ => Except StoreError Unit
  | .lockUntil _ _ => Except StoreError Unit
  | .unlock _ => Except StoreError Unit
  | .audit _ => Unit

abbrev operatorSig : Signature := ⟨OperatorCall, OperatorCall.Reply⟩

abbrev OpProg := Program (vault.sum operatorSig)

/-- One call to a component of the service. -/
abbrev askVault (c : Call) : OpProg c.Reply := Program.perform (S := vault.sum operatorSig) (.inl c)

/-- One call of the admin plane's own. -/
abbrev askOperator (c : OperatorCall) : OpProg c.Reply :=
  Program.perform (S := vault.sum operatorSig) (.inr c)

/-! ### The handlers -/

inductive OperatorError where
  | missingID
  | userNotFound
  | internalError
deriving DecidableEq, Repr

/-- What the handlers answer with otherwise. -/
inductive OperatorStatus where
  | banned (sessionsRevoked : Bool)
  | notBanned
  | locked (until_ : Time)
  | unlocked
deriving DecidableEq, Repr

def maxLockDuration : Duration := 30 * 24 * Duration.hour

/-- `clampLockDuration`, on what `time.ParseDuration` made of the text. -/
def clampLockDuration : Option Duration → Duration
  | none => 24 * Duration.hour
  | some d => if d ≤ 0 ∨ maxLockDuration < d then 24 * Duration.hour else d

/-- `liveUser`: the account, unless it is missing or a tombstone. -/
def liveUser (id : UserID) : OpProg (Except OperatorError User) := do
  if id = "" then pure (.error .missingID)
  else
    match ← askVault (.getByID id) with
    | .error _ => pure (.error .internalError)
    | .ok none => pure (.error .userNotFound)
    | .ok (some user) => if user.deleted then pure (.error .userNotFound) else pure (.ok user)

/-- The revocation of the containing handlers, best effort. `hasTokens` is `h.tokens != nil`. -/
def revokeSessions (hasTokens : Bool) (u : UserID) : OpProg Bool :=
  if hasTokens then (RefreshTokenRepo.revokeAllForUser u).inl else pure false

def banUser (hasTokens : Bool) (id : UserID) (reason : String) :
    OpProg (Except OperatorError OperatorStatus) := do
  match ← liveUser id with
  | .error e => pure (.error e)
  | .ok user =>
    match ← askOperator (.setBanned user.id true) with
    | .error _ => pure (.error .internalError)
    | .ok () =>
      let revoked ← revokeSessions hasTokens user.id
      askOperator (.audit ⟨.adminUserBan, user.id, some reason, none, some revoked⟩)
      pure (.ok (.banned revoked))

/-- `UnbanUser`, which revokes nothing. -/
def unbanUser (id : UserID) (reason : String) : OpProg (Except OperatorError OperatorStatus) := do
  match ← liveUser id with
  | .error e => pure (.error e)
  | .ok user =>
    match ← askOperator (.setBanned user.id false) with
    | .error _ => pure (.error .internalError)
    | .ok () =>
      askOperator (.audit ⟨.adminUserUnban, user.id, some reason, none, none⟩)
      pure (.ok .notBanned)

/-- **`LockUser`.** It does not look whether there is such an account. -/
def lockUser (hasTokens : Bool) (id : UserID) (duration : Option Duration) :
    OpProg (Except OperatorError OperatorStatus) := do
  if id = "" then pure (.error .missingID)
  else
    let now ← askVault .now
    match ← askOperator (.lockUntil id (now + clampLockDuration duration)) with
    | .error _ => pure (.error .internalError)
    | .ok () =>
      let revoked ← revokeSessions hasTokens id
      askOperator (.audit ⟨.adminUserLock, id, none, some (now + clampLockDuration duration),
        some revoked⟩)
      pure (.ok (.locked (now + clampLockDuration duration)))

def unlockUser (id : UserID) : OpProg (Except OperatorError OperatorStatus) := do
  if id = "" then pure (.error .missingID)
  else
    match ← askOperator (.unlock id) with
    | .error _ => pure (.error .internalError)
    | .ok () =>
      askOperator (.audit ⟨.adminUserUnlock, id, none, none, none⟩)
      pure (.ok .unlocked)

/-! ### The service with its operators -/

inductive OperatorReq where
  | banUser (id : UserID) (reason : String)
  | unbanUser (id : UserID) (reason : String)
  | lockUser (id : UserID) (duration : Option Duration)
  | unlockUser (id : UserID)

def operate (hasTokens : Bool) : OperatorReq → OpProg (Except OperatorError OperatorStatus)
  | .banUser id reason => banUser hasTokens id reason
  | .unbanUser id reason => unbanUser id reason
  | .lockUser id duration => lockUser hasTokens id duration
  | .unlockUser id => unlockUser id

/-- How a statement of the admin plane is answered, beside the audit rows it has written. -/
def operatorAnswer : (c : OperatorCall) → World × List OperatorEvent →
    c.Reply × (World × List OperatorEvent)
  | .setBanned u banned, (w, trail) =>
    (.ok (), w.updateUser u fun x => { x with banned := banned }, trail)
  | .lockUntil u until_, (w, trail) =>
    (.ok (), w.updateUser u fun x => { x with lockedUntil := some until_ }, trail)
  | .unlock u, (w, trail) =>
    (.ok (), w.updateUser u fun x => { x with lockedUntil := none, failedLoginCount := 0 }, trail)
  | .audit e, (w, trail) => ((), w, e :: trail)

/-- The failures of the admin plane's statements. An audit row can be lost. -/
def OperatorFault : (c : OperatorCall) → c.Reply → Prop
  | .setBanned _ _, r => ∃ e, r = .error e
  | .lockUntil _ _, r => ∃ e, r = .error e
  | .unlock _, r => ∃ e, r = .error e
  | .audit _, _ => True

/-- The admin plane, as an addition to the service. -/
abbrev operators (cfg : Settings) (hasTokens : Bool) : Annex (service cfg) operatorSig where
  State := List OperatorEvent
  Req := OperatorReq
  Result := Except OperatorError OperatorStatus
  program := operate hasTokens
  answer _ := operatorAnswer
  blocked _ _ _ := false
  Fault := OperatorFault
  Nudge := Empty
  nudge := Empty.elim

/-- **The service with its operators.** -/
abbrev operated (cfg : Settings) (hasTokens : Bool) : System (vault.sum operatorSig) :=
  (service cfg).annex (operators cfg hasTokens)

/-! ### What the handlers keep to -/

/-- The statement that imposes a sanction. -/
def Sanction.call : Sanction → UserID → OperatorCall
  | .ban, u => .setBanned u true
  | .lock until_, u => .lockUntil u until_

/-- The exchange in which a sanction is imposed. -/
def imposing : Sanction → UserID → Event (vault.sum operatorSig)
  | .ban, u => ⟨.inr (.setBanned u true), .ok ()⟩
  | .lock until_, u => ⟨.inr (.lockUntil u until_), .ok ()⟩

/-- The sanction has been imposed on the account in this conversation. -/
def Imposed (φ : List (Event (vault.sum operatorSig))) (u : UserID) (s : Sanction) : Prop :=
  imposing s u ∈ φ

theorem Imposed.mono {φ ψ : List (Event (vault.sum operatorSig))} {u : UserID} {s : Sanction}
    (hφ : φ ⊆ ψ) (h : Imposed φ u s) : Imposed ψ u s := hφ h

/-- The exchange in which every session of an account was marked revoked. -/
abbrev marking (u : UserID) : Event (vault.sum operatorSig) :=
  ⟨.inl (.tokens (.revokeScope (.user u))), .ok ()⟩

/-- The exchange in which a transaction was committed. -/
abbrev committing : Event (vault.sum operatorSig) := ⟨.inl (.tokens .commit), .ok ()⟩

/-- **The rules of the handlers.** They store no token and hand none over; they commit right after
they have marked every session of an account on which they have imposed a sanction; and they report
the sessions of an account revoked right after that commit. -/
def Conduct (φ : List (Event (vault.sum operatorSig))) : (vault.sum operatorSig).Call → Prop
  | .inl (.tokens .commit) => ∃ u s ψ, φ = marking u :: ψ ∧ Imposed ψ u s
  | .inl c => c.stores = none ∧ c.handsOver = none
  | .inr (.audit e) => ∀ u s, e.Reports u s → ∃ ψ, φ = committing :: marking u :: ψ ∧ Imposed ψ u s
  | .inr _ => True

section Conduct

variable {φ : List (Event (vault.sum operatorSig))}

/-- But for the commit, the handlers' calls to the service store nothing and hand nothing over. -/
theorem conduct_of_ne {c : Call} (hc : c ≠ .tokens .commit) (h : Conduct φ (.inl c)) :
    c.stores = none ∧ c.handsOver = none := by
  cases c with
  | tokens q =>
    cases q with
    | commit => exact absurd rfl hc
    | _ => exact h
  | _ => exact h

abbrev conduct : Discipline (vault.sum operatorSig) := .history Conduct

theorem liveUser_conduct (id : UserID) :
    (liveUser id).Obeys conduct (fun ψ _ => φ ⊆ ψ) φ := by
  refine .ite (List.Subset.refl φ) ?_
  refine .call ⟨rfl, rfl⟩ fun r _ => ?_
  have hsub := List.subset_cons_self (⟨.inl (.getByID id), r⟩ : Event (vault.sum operatorSig)) φ
  rcases r with e | _ | user
  · exact hsub
  · exact hsub
  · exact .ite hsub hsub

/-- The revocation reports success only right after its commit. -/
theorem revokeSessions_conduct (hasTokens : Bool) {u : UserID} {s : Sanction} (h : Imposed φ u s) :
    (revokeSessions hasTokens u).Obeys conduct
      (fun ψ revoked => revoked = true → ∃ χ, ψ = committing :: marking u :: χ ∧
        Imposed χ u s) φ := by
  -- what has failed is rolled back and reported as a failure
  have rolled : ∀ ψ, ((RefreshTokenRepo.rollbackWith false).inl : OpProg Bool).Obeys conduct
      (fun ψ revoked => revoked = true → ∃ χ, ψ = committing :: marking u :: χ ∧ Imposed χ u s) ψ :=
    fun ψ => ⟨⟨rfl, rfl⟩, nofun⟩
  refine .ite ?_ nofun
  refine ⟨⟨rfl, rfl⟩, fun r _ => ?_⟩
  cases r with
  | error => exact nofun
  | ok =>
  refine ⟨⟨rfl, rfl⟩, fun r _ => ?_⟩
  cases r with
  | error => exact rolled _
  | ok =>
  refine ⟨⟨rfl, rfl⟩, fun r _ => ?_⟩
  cases r with
  | error => exact rolled _
  | ok =>
  have hlocked : Imposed (⟨.inl (.tokens (.lockScope (.user u))), .ok ()⟩ ::
      ⟨.inl (.tokens .begin), .ok ()⟩ :: φ) u s :=
    h.mono (List.subset_cons_of_subset _ (List.subset_cons_self _ _))
  refine ⟨⟨u, s, _, rfl, hlocked⟩, fun r _ => ?_⟩
  cases r with
  | error => exact rolled _
  | ok => exact fun _ => ⟨_, rfl, hlocked⟩

/-- **Every handler keeps to the rules.** -/
theorem operator_conduct (hasTokens : Bool) (req : OperatorReq) :
    (operate hasTokens req).Obeys conduct (fun _ _ => True) [] := by
  cases req with
  | banUser id =>
    refine (liveUser_conduct id).bind fun φ₁ r _ => ?_
    cases r with
    | error => trivial
    | ok user =>
    refine .call trivial fun r _ => ?_
    cases r with
    | error => trivial
    | ok =>
    have himposed : Imposed (⟨.inr (.setBanned user.id true), .ok ()⟩ :: φ₁) user.id .ban :=
      List.mem_cons_self ..
    refine (revokeSessions_conduct hasTokens himposed).bind fun φ₂ revoked hrevoked => ?_
    refine .call ?_ fun _ _ => trivial
    rintro u s ⟨rfl, hsessions, hs⟩
    obtain ⟨χ, rfl, hχ⟩ := hrevoked (Option.some.inj hsessions)
    cases s with
    | ban => exact ⟨χ, rfl, hχ⟩
    | lock => cases hs.1
  | unbanUser id =>
    refine (liveUser_conduct id).bind fun φ₁ r _ => ?_
    cases r with
    | error => trivial
    | ok =>
    refine .call trivial fun r _ => ?_
    cases r with
    | error => trivial
    | ok =>
    refine .call ?_ fun _ _ => trivial
    rintro u s ⟨-, hsessions, -⟩
    cases hsessions
  | lockUser id duration =>
    refine .ite trivial ?_
    refine .call ⟨rfl, rfl⟩ fun now _ => ?_
    refine .call trivial fun r _ => ?_
    cases r with
    | error => trivial
    | ok =>
    have himposed : Imposed (⟨.inr (.lockUntil id (now + clampLockDuration duration)), .ok ()⟩ ::
        [⟨.inl .now, now⟩]) id (.lock (now + clampLockDuration duration)) := List.mem_cons_self ..
    refine (revokeSessions_conduct hasTokens himposed).bind fun φ₂ revoked hrevoked => ?_
    refine .call ?_ fun _ _ => trivial
    rintro u s ⟨rfl, hsessions, hs⟩
    obtain ⟨χ, rfl, hχ⟩ := hrevoked (Option.some.inj hsessions)
    cases s with
    | ban => cases hs
    | lock until_ =>
      obtain rfl : now + clampLockDuration duration = until_ := Option.some.inj hs.2
      exact ⟨χ, rfl, hχ⟩
  | unlockUser =>
    refine .ite trivial ?_
    refine .call trivial fun r _ => ?_
    cases r with
    | error => trivial
    | ok =>
    refine .call ?_ fun _ _ => trivial
    rintro u s ⟨-, hsessions, -⟩
    cases hsessions

end Conduct

end Vault42.Operator
