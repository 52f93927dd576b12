import Vault42.Lockout.Attempts
import Vault42.Service.Factors

/-!
# What an assertion does to the counters

`VerifyBegin` and `VerifyFinish` of WebAuthn run over the factor stores, so their conversation has
calls the lockout knows nothing of. `FactorStory.story` is what is left of it: the state of the
service and the exchanges with its own components. Seen that way the two handlers are attempts like
any other (`webauthnBegin_attempted`, `webauthnVerify_attempted`): they count no failure, and drop
the source's counter where a login is completed.

What they do not do is ask the lockout, or tell it of an assertion that no credential signed. Such
assertions are counted here by `refusals`, beside the conversation.
-/

namespace Vault42

open Framework Program Counters List AuthService Ends

/-- A world with its factor stores, and the conversation that led to it. -/
abbrev FactorStory := FactorWorld × List (Event factors)

/-- The interpreter the WebAuthn handlers are followed with. -/
abbrev toldFactor (t : ℕ) : (c : FactorCall) → FactorStory → c.Reply × FactorStory :=
  recording (S := factors) (answerFactor t)

/-- The exchange, if it is one with a component of the service. -/
def vaultEvent : Event factors → Option (Event vault)
  | ⟨.vault c, r⟩ => some ⟨c, r⟩
  | _ => none

/-- What the lockout can see. -/
def FactorStory.story (s : FactorStory) : Story := (s.1.world, s.2.filterMap vaultEvent)

/-- An assertion was checked, and no credential had signed it. -/
def refusal : Event factors → Bool
  | ⟨.validateLogin _ _ _, r⟩ => r.isNone
  | _ => false

/-- The assertions that were checked in a conversation and that no credential had signed. -/
def refusals (past : List (Event factors)) : ℕ := past.countP refusal

section FactorStory

variable {t : ℕ} {s : FactorStory} {v : UserID} {ip : IPAddr} {cfg : Settings} {α β : Type}

/-- The service carried out on the stores as they are: the status of an account is what `GetStatus`
answers now. -/
def settle (t : ℕ) (stores : FactorWorld) : (c : Call) → Prog c.Reply
  | .mfaStatus u => pure ((MFAService.getStatus u).run (answerFactor t) stores).1
  | c => ask c

theorem settles_settle (t : ℕ) (stores : FactorWorld) : Settles (settle t stores) where
  same {c} h := by
    cases c with
    | mfaStatus u => exact absurd rfl (h u)
    | _ => rfl
  status _ := trivial

/-- Settling asks the stores only. -/
theorem settle_world (stores : FactorWorld) (w : World) :
    settle t { stores with world := w } = settle t stores := by
  funext c
  cases c <;> rfl

/-- `GetStatus` leaves everything as it is, and its reads are none of the service's exchanges. -/
theorem getStatus_run (u : UserID) (s : FactorStory) :
    (MFAService.getStatus u).Ends (toldFactor t) s fun r s' =>
      r = ((MFAService.getStatus u).run (answerFactor t) s.1).1 ∧ s'.1 = s.1 ∧ s'.story = s.story :=
  ⟨rfl, rfl, rfl⟩

/-- A program of the service that is lifted to the stores changes none of them. -/
theorem ends_lift {p : Prog α} {Q : α → Story → Prop}
    (h : (p.elaborate (settle t s.1)).Ends (told t) s.story Q) :
    (lift p).Ends (toldFactor t) s fun a s' => Q a s'.story := by
  induction p generalizing s with
  | ret => exact h
  | call c k ih =>
    show (carryOut c >>= fun r => lift (k r)).Ends (toldFactor t) s _
    by_cases hc : ∃ u, c = .mfaStatus u
    · obtain ⟨u, rfl⟩ := hc
      refine bind ((getStatus_run u s).mono fun r s' hs' => ih r ?_)
      obtain ⟨rfl, hworld, hstory⟩ := hs'
      rw [hworld, hstory]
      exact h
    · have hne : ∀ u, c ≠ .mfaStatus u := fun u hu => hc ⟨u, hu⟩
      have hk : ((ask c >>= fun r => (k r).elaborate (settle t s.1))).Ends (told t) s.story Q := by
        rw [← (settles_settle t s.1).same hne]
        exact h
      rw [carryOut_of_ne hne]
      refine bind (ih _ ?_)
      rw [settle_world]
      exact hk

/-- Served from `s`, the program is an attempt on `v` from `ip`. -/
abbrev FactorAttempts (t : ℕ) (s : FactorStory) (v : UserID) (ip : IPAddr) (p : FactorProg α) :
    Prop :=
  p.Ends (toldFactor t) s fun _ s' => Attempted v ip s.story s'.story

theorem attempted_pure (a : α) : FactorAttempts t s v ip (pure a) :=
  ((Looked.refl s.story).moved v).attempted

theorem attempted_of_stores {c : FactorCall} {f : c.Reply → FactorProg β}
    (hc : (toldFactor t c s).2.story = s.story)
    (hf : ∀ r s', s'.story = s.story → FactorAttempts t s' v ip (f r)) :
    FactorAttempts t s v ip (askFactor c >>= f) := by
  have h := hf (toldFactor t c s).1 (toldFactor t c s).2 hc
  unfold FactorAttempts at h
  rw [hc] at h
  exact h

/-- Bookkeeping that touches no counter, at the head of an attempt. -/
theorem attempted_of_bookkeeping {p : FactorProg α} {f : α → FactorProg β}
    (hp : p.Ends (toldFactor t) s fun _ s' => Moved v [] 0 s.story s'.story)
    (hf : ∀ a s', FactorAttempts t s' v ip (f a)) : FactorAttempts t s v ip (p >>= f) := by
  refine bind (hp.mono fun a s' h => (hf a s').mono fun _ s'' h' => ?_)
  obtain ⟨ops, n, hmoved, hout⟩ := h'
  have hlockout : s'.story.1.lockout v = s.story.1.lockout v := h.lockout
  rw [hlockout] at hout
  have htotal := h.trans hmoved
  rw [append_nil, Nat.zero_add] at htotal
  exact ⟨ops, n, htotal, hout⟩

theorem attempted_of_call {c : Call} {f : c.Reply → FactorProg β} (hc : Innocent c)
    (hf : ∀ r s', FactorAttempts t s' v ip (f r)) :
    FactorAttempts t s v ip (askFactor (.vault c) >>= f) :=
  attempted_of_bookkeeping (p := askFactor (.vault c)) (moved_call s.story hc v) hf

theorem attempted_of_lift {p : Prog α} {f : α → FactorProg β} (hp : p.Within Innocent)
    (hf : ∀ a s', FactorAttempts t s' v ip (f a)) : FactorAttempts t s v ip (lift p >>= f) :=
  attempted_of_bookkeeping
    (ends_lift (moved_of_within ((settles_settle t s.1).innocent hp) s.story v)) hf

theorem authChallenge_attempted {input : SecondFactorInput}
    {p : FactorProg (Except FactorError α)} (hp : ∀ s, FactorAttempts t s v ip p) :
    FactorAttempts t s v ip (SecondFactor.authChallenge input p) := by
  refine attempted_of_call ⟨trivial, rfl⟩ fun valid s' => ?_
  cases valid with
  | false => exact attempted_pure _
  | true => exact hp s'

/-- **The start of a ceremony** touches no counter. -/
theorem webauthnBegin_attempted (input : SecondFactorInput) (session : ℕ) (s : FactorStory) :
    FactorAttempts t s input.token.subject input.fingerprint.ip
      (SecondFactor.webauthnBegin input session) := by
  refine authChallenge_attempted fun s => attempted_of_call ⟨trivial, rfl⟩ fun user s₁ => ?_
  rcases user with _ | _ | user
  · exact attempted_pure _
  · exact attempted_pure _
  refine attempted_of_stores rfl fun creds s₂ _ => ?_
  rcases creds with _ | _ | _
  · exact attempted_pure _
  · exact attempted_pure _
  refine attempted_of_call ⟨rfl, rfl⟩ fun r s₃ => ?_
  cases r with
  | error => exact attempted_pure _
  | ok => exact attempted_pure _

variable (hcache : cfg.hasCache)
include hcache

theorem complete_attempted (input : SecondFactorInput) :
    FactorAttempts t s input.token.subject input.fingerprint.ip
      (SecondFactor.complete cfg input) := by
  have h := completeMFAIfChallenge_attempted (t := t) (s := s.story) hcache
    (settles_settle t s.1) input
  refine bind ((ends_lift h).mono fun r s' h' => ?_)
  cases r with
  | error => exact h'
  | ok => exact h'

/-- A signed assertion completes the login, or is refused for its counter or its flags. -/
theorem assertionProven_attempted (input : SecondFactorInput) (cred : WebAuthnCredential)
    (a : Assertion) : FactorAttempts t s input.token.subject input.fingerprint.ip
      (SecondFactor.assertionProven cfg input cred a) := by
  have verified : ∀ s, FactorAttempts t s input.token.subject input.fingerprint.ip (do
      lift (auditLog .twoFAVerify input.token.subject "webauthn")
      SecondFactor.complete cfg { input with method := methodWebAuthn }) := fun s =>
    attempted_of_lift auditLog_innocent fun _ _ =>
      complete_attempted hcache { input with method := methodWebAuthn }
  unfold SecondFactor.assertionProven
  split
  · refine attempted_of_lift (lockThenWrite_within (fun _ _ => ⟨trivial, rfl⟩) _) fun _ s₁ => ?_
    exact attempted_of_lift auditLog_innocent fun _ _ => attempted_pure _
  split
  · exact attempted_pure _
  refine attempted_of_stores rfl fun r s₁ _ => ?_
  cases r with
  | error => exact attempted_pure _
  | ok =>
    dsimp only
    split
    · exact verified s₁
    refine attempted_of_stores rfl fun r s₂ _ => ?_
    cases r with
    | error => exact attempted_pure _
    | ok => exact verified s₂

/-- **An assertion** counts no failure, on the account its challenge was issued for or any other. -/
theorem webauthnVerify_attempted (input : SecondFactorInput) (a : Assertion) (s : FactorStory) :
    FactorAttempts t s input.token.subject input.fingerprint.ip
      (SecondFactor.webauthnVerify cfg input a) := by
  refine authChallenge_attempted fun s => attempted_of_call ⟨trivial, rfl⟩ fun user s₁ => ?_
  rcases user with _ | _ | user
  · exact attempted_pure _
  · exact attempted_pure _
  refine attempted_of_call ⟨rfl, rfl⟩ fun r s₂ => ?_
  split
  · refine attempted_of_stores rfl fun existing s₃ _ => attempted_of_stores rfl fun r s₄ _ => ?_
    cases r with
    | none => exact attempted_pure _
    | some cred => exact assertionProven_attempted hcache input cred a
  · exact attempted_pure _

end FactorStory

end Vault42
