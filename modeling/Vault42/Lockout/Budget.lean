import Vault42.Lockout.Assertions

/-!
# The brute-force budget of a source

A history is a list of moves, each served alone and from beginning to end: logins, second-factor
attempts, WebAuthn ceremonies, password changes, resets, and what the environment does by itself.
`Move.ops` reads off a move what it did to the counters of one account, and `Move.effect` is the one
lemma about moves that the results on histories use.

A password attempt is a login. The handlers that ask a signed-in user for the password once more
(`ChangePassword`, `ConfirmPassword`, the account's `Delete`) are behind an access token of the
account and neither read nor write its lockout counters; the password they check is no move here.

The failure that opens a source's counter starts a window of `lockoutDuration`. Within it the source
has at most `lockoutThreshold` wrong passwords and second factors checked, unless its counter is
dropped or the account's counters are retired (`source_budget`). A password that is proven while a
second factor is owed does neither, so it gives nothing back.

This needs the account's generation to read the same throughout the window. The generation has a
fixed life of its own, started by the first reset; when it runs out inside the window the source
starts a new counter, and is given a second budget (`source_budget_doubled`). And it needs the
source's assertions to be signed: `VerifyFinish` asks no lockout and counts no failure, so a source
that is locked out has another second factor checked (`assertion_past_the_lock`).
-/

namespace Vault42

open Framework Program Counters AuthService

/-- What a history is made of. -/
inductive Move where
  | login (input : LoginInput)
  | secondFactor (input : SecondFactorInput)
  /-- The factor stores are part of the ceremony's moves: enrolment changes them at will in
  between. -/
  | webauthnBegin (stores : FactorWorld) (input : SecondFactorInput) (session : ℕ)
  | webauthnVerify (stores : FactorWorld) (input : SecondFactorInput) (a : Assertion)
  | updatePassword (v : UserID) (newPassword : String)
  /-- `ClearAccountLockout`, which a completed reset ends with. -/
  | clearAccountLockout (v : UserID)
  | nudge (n : Nudge)

namespace Move

variable (cfg : Settings) (t : ℕ)

/-- A program served on the factor stores, and the conversation it took. -/
def onStores {α : Type} (p : FactorProg α) (stores : FactorWorld) (w : World) : FactorStory :=
  (p.run (toldFactor t) ({ stores with world := w }, [])).2

def perform : Move → World → Story
  | .login input, w => ((AuthService.login cfg input).run (told t) (w, [])).2
  | .secondFactor input, w => ((verifySecondFactor cfg input).run (told t) (w, [])).2
  | .webauthnBegin stores input session, w =>
    (onStores t (SecondFactor.webauthnBegin input session) stores w).story
  | .webauthnVerify stores input a, w =>
    (onStores t (SecondFactor.webauthnVerify cfg input a) stores w).story
  | .updatePassword v newPassword, w =>
    ((PasswordHandler.updatePassword cfg v newPassword).run (told t) (w, [])).2
  | .clearAccountLockout v, w => ((Vault42.clearAccountLockout cfg v).run (told t) (w, [])).2
  | .nudge n, w => (Vault42.nudge n w, [])

/-- What a move did to the counters of an account. -/
def ops (u : UserID) (m : Move) (w : World) : List Op :=
  match m with
  | .nudge (.tick d) => [.tick d]
  | .nudge .sweepCache => [.sweep]
  | _ => marks u (m.perform cfg t w).2

/-- The move is an attempt on an account from an address. -/
def attempts (u : UserID) (ip : IPAddr) (w : World) : Move → Bool
  | .login input => input.ip == ip && names cfg w input u
  | .secondFactor input => input.token.subject == u && input.fingerprint.ip == ip
  | .webauthnVerify _ input _ => input.token.subject == u && input.fingerprint.ip == ip
  | _ => false

/-- The assertions that a move had checked and that no credential had signed. -/
def unsigned : Move → World → ℕ
  | .webauthnVerify stores input a, w =>
    refusals (onStores t (SecondFactor.webauthnVerify cfg input a) stores w).2
  | _, _ => 0

/-- The wrong passwords and second factors of an account that a source had checked in a move. -/
def wrongChecks (u : UserID) (ip : IPAddr) (m : Move) (w : World) : ℕ :=
  if m.attempts cfg u ip w then wrongs (m.perform cfg t w).2 + m.unsigned cfg t w else 0

/-- The move has no wrong assertion checked from the source on the account. -/
def Signed (u : UserID) (ip : IPAddr) (w : World) (m : Move) : Prop :=
  m.attempts cfg u ip w → m.unsigned cfg t w = 0

variable {cfg t} {u : UserID} {ip : IPAddr} {m : Move} {w : World}

/-- **What a move can do to an account**: at most one operation, and a wrong secret other than an
assertion is checked only from a source below the threshold, with the failure counted. -/
structure Effect (cfg : Settings) (t : ℕ) (u : UserID) (m : Move) (w : World) : Prop where
  lockout : ∃ op, (m.ops cfg t u w = [op] ∨ m.ops cfg t u w = [] ∧ op = .idle) ∧
    (m.perform cfg t w).1.lockout u = (w.lockout u).apply op
  refusedAt : (m.perform cfg t w).1.refusedAt = w.refusedAt
  wrong : ∀ ip, Signed cfg t u ip w m → m.wrongChecks cfg t u ip w = 0 ∨
    m.wrongChecks cfg t u ip w = 1 ∧ m.ops cfg t u w = [.fail ip] ∧
      (w.lockout u).standing ip < lockoutThreshold

/-- A request that is an attempt from one source, or none on this account. -/
theorem effect_of_touches {named : Prop} (hops : m.ops cfg t u w = marks u (m.perform cfg t w).2)
    (h : Touches u ip named (w, []) (m.perform cfg t w))
    (hattempt : ∀ ip', m.attempts cfg u ip' w → ip' = ip ∧ named) : m.Effect cfg t u w := by
  obtain ⟨ops, n, hfelt, hin, hout⟩ := h
  have hmarks : m.ops cfg t u w = ops := by
    rw [hops, hfelt.marks]
    exact List.append_nil ops
  have hwrongs : wrongs (m.perform cfg t w).2 = n := hfelt.wrongs.trans (Nat.zero_add n)
  by_cases hn : named
  · have houtcome := hin hn
    refine ⟨?_, hfelt.refusedAt, fun ip' hsigned => ?_⟩
    · rw [hmarks, hfelt.lockout]
      cases houtcome with
      | nothing => exact ⟨.idle, .inr ⟨rfl, rfl⟩, rfl⟩
      | failed | refused => exact ⟨.fail ip, .inl rfl, rfl⟩
      | cleared => exact ⟨.clear ip, .inl rfl, rfl⟩
    · unfold wrongChecks
      by_cases ha : m.attempts cfg u ip' w
      · obtain ⟨rfl, -⟩ := hattempt ip' ha
        rw [if_pos ha, hwrongs, hmarks, hsigned ha]
        cases houtcome with
        | nothing | failed | cleared => exact .inl rfl
        | refused hgate => exact .inr ⟨rfl, rfl, hgate⟩
      · exact .inl (if_neg ha)
  · have hnil := hout hn
    subst hnil
    refine ⟨⟨.idle, .inr ⟨hmarks, rfl⟩, hfelt.lockout⟩, hfelt.refusedAt, fun ip' _ => .inl ?_⟩
    exact if_neg fun ha => hn (hattempt ip' ha).2

theorem effect_of_op (op : Op) (hop : m.ops cfg t u w = [op] ∨ m.ops cfg t u w = [] ∧ op = .idle)
    (hlockout : (m.perform cfg t w).1.lockout u = (w.lockout u).apply op)
    (hrefused : (m.perform cfg t w).1.refusedAt = w.refusedAt)
    (hattempt : ∀ ip, m.attempts cfg u ip w = false) : m.Effect cfg t u w :=
  ⟨⟨op, hop, hlockout⟩, hrefused,
    fun ip _ => .inl (if_neg (Bool.eq_false_iff.mp (hattempt ip)))⟩

theorem effect_nudge (n : Nudge) : (Move.nudge n).Effect cfg t u w := by
  have same : ∀ {n : Nudge}, (Move.nudge n).ops cfg t u w = [] →
    (Vault42.nudge n w).cache = w.cache →
      (Vault42.nudge n w).clock = w.clock → (Vault42.nudge n w).refusedAt = w.refusedAt →
      (Move.nudge n).Effect cfg t u w := by
    intro n hops hcache hclock hrefused
    refine effect_of_op .idle (.inr ⟨hops, rfl⟩) ?_ hrefused fun _ => rfl
    show (Vault42.nudge n w).lockout u = w.lockout u
    unfold World.lockout
    rw [hcache, hclock]
  cases n with
  | tick d => exact effect_of_op (.tick d) (.inl rfl) rfl rfl fun _ => rfl
  | sweepCache =>
    refine effect_of_op .sweep (.inl rfl) ?_ rfl fun _ => rfl
    refine Counters.ext rfl (w.cache.slot_cleanup) (w.cache.slot_cleanup) ?_
    funext ip g
    exact w.cache.slot_cleanup
  | addUser =>
    refine same rfl ?_ ?_ ?_ <;>
    · simp only [Vault42.nudge]
      split <;> rfl
  | editUser | enrol | setCodes | disconnect => exact same rfl rfl rfl rfl

/-- **The one lemma about moves.** -/
theorem effect (hcache : cfg.hasCache)
    (htrap : ∀ email, cfg.isTrapUser email → cfg.trapSubject email ≠ u)
    (hroom : w.cache.HasRoom 2) (m : Move) : m.Effect cfg t u w := by
  cases m with
  | login input =>
    refine effect_of_touches rfl (login_touches hcache hroom htrap input) fun ip' ha => ?_
    have ha' : (input.ip == ip' && names cfg w input u) := ha
    rw [Bool.and_eq_true, beq_iff_eq] at ha'
    exact ⟨ha'.1.symm, ha'.2⟩
  | secondFactor input =>
    have h := verifySecondFactor_attempted (t := t) (s := (w, [])) hcache hroom input
    refine effect_of_touches rfl (h.touches (Iff.refl (input.token.subject = u))) fun ip' ha => ?_
    have ha' : (input.token.subject == u && input.fingerprint.ip == ip') := ha
    rw [Bool.and_eq_true, beq_iff_eq, beq_iff_eq] at ha'
    exact ⟨ha'.2.symm, ha'.1⟩
  | webauthnBegin stores input session =>
    have h := webauthnBegin_attempted (t := t) input session ({ stores with world := w }, [])
    exact effect_of_touches rfl (h.touches (Iff.refl (input.token.subject = u))) fun _ ha =>
      absurd ha Bool.false_ne_true
  | webauthnVerify stores input a =>
    have h := webauthnVerify_attempted (t := t) hcache input a ({ stores with world := w }, [])
    refine effect_of_touches rfl (h.touches (Iff.refl (input.token.subject = u))) fun ip' ha => ?_
    have ha' : (input.token.subject == u && input.fingerprint.ip == ip') := ha
    rw [Bool.and_eq_true, beq_iff_eq, beq_iff_eq] at ha'
    exact ⟨ha'.2.symm, ha'.1⟩
  | updatePassword v newPassword =>
    obtain ⟨n, h⟩ := felt_of_writing (updatePassword_writing cfg v newPassword) (w, []) u
    exact effect_of_op .idle (.inr ⟨h.marks, rfl⟩) h.lockout h.refusedAt fun _ => rfl
  | clearAccountLockout v =>
    have hroom₁ : w.cache.HasRoom 1 := hroom.weaken (by decide)
    obtain ⟨h, -⟩ := clearAccountLockout_moved (t := t) (s := (w, [])) hcache hroom₁ v
    by_cases hv : u = v
    · subst hv
      exact effect_of_op .retire (.inl h.marks) h.lockout h.refusedAt fun _ => rfl
    · have hfelt := h.felt_ne hv
      exact effect_of_op .idle (.inr ⟨hfelt.marks, rfl⟩) hfelt.lockout hfelt.refusedAt fun _ => rfl
  | nudge n => exact effect_nudge n

end Move

/-! ### Histories -/

section History

variable (cfg : Settings) (t : ℕ)

/-- The world after a history. -/
def World.after (w : World) (ms : List Move) : World :=
  ms.foldl (fun w m => (m.perform cfg t w).1) w

/-- Every move of a history meets a condition in the world it is made in. -/
def Along (P : World → Move → Prop) : World → List Move → Prop
  | _, [] => True
  | w, m :: ms => P w m ∧ Along P (m.perform cfg t w).1 ms

instance decidableAlong {P : World → Move → Prop} [∀ w m, Decidable (P w m)] :
    (w : World) → (ms : List Move) → Decidable (Along cfg t P w ms)
  | _, [] => .isTrue trivial
  | w, m :: ms =>
    have : Decidable (Along cfg t P (m.perform cfg t w).1 ms) := decidableAlong _ ms
    inferInstanceAs (Decidable (P w m ∧ Along cfg t P (m.perform cfg t w).1 ms))

/-- The wrong secrets of an account that a source had checked in a history. -/
def totalWrong (u : UserID) (ip : IPAddr) : World → List Move → ℕ
  | _, [] => 0
  | w, m :: ms => m.wrongChecks cfg t u ip w + totalWrong u ip (m.perform cfg t w).1 ms

/-- A cache that refuses nothing an attempt writes. -/
def Healthy (w : World) (_ : Move) : Prop := w.cache.HasRoom 2

/-- The move neither drops the source's counter nor retires the account's. -/
def Unforgiving (u : UserID) (ip : IPAddr) (w : World) (m : Move) : Prop :=
  .clear ip ∉ m.ops cfg t u w ∧ .retire ∉ m.ops cfg t u w

/-- The move is made before an instant. -/
def Before (ends : Time) (w : World) (_ : Move) : Prop := w.clock < ends

instance (w : World) (m : Move) : Decidable (Healthy w m) :=
  inferInstanceAs (Decidable (w.cache.HasRoom 2))

instance (u : UserID) (ip : IPAddr) (w : World) (m : Move) :
    Decidable (Unforgiving cfg t u ip w m) :=
  inferInstanceAs (Decidable (_ ∧ _))

instance (u : UserID) (ip : IPAddr) (w : World) (m : Move) :
    Decidable (Move.Signed cfg t u ip w m) :=
  inferInstanceAs (Decidable (_ → _))

instance (ends : Time) (w : World) (m : Move) : Decidable (Before ends w m) :=
  inferInstanceAs (Decidable (w.clock < ends))

end History

section Budget

variable {cfg : Settings} {t : ℕ} {u : UserID} {ip : IPAddr}

/-- Inside a window that stands at `k`, a source has what is left of the threshold. -/
theorem totalWrong_le (hcache : cfg.hasCache)
    (htrap : ∀ email, cfg.isTrapUser email → cfg.trapSubject email ≠ u) {g k : ℕ} {ends : Time}
    {w : World} {ms : List Move} (hwindow : (w.lockout u).Window ip g k ends)
    (hhealthy : Along cfg t Healthy w ms) (hbefore : Along cfg t (Before ends) w ms)
    (hclear : Along cfg t (Unforgiving cfg t u ip) w ms)
    (hsigned : Along cfg t (Move.Signed cfg t u ip) w ms) :
    totalWrong cfg t u ip w ms ≤ lockoutThreshold - k := by
  induction ms generalizing w k with
  | nil => exact Nat.zero_le _
  | cons m ms ih =>
    obtain ⟨hroom, hhealthy⟩ := hhealthy
    obtain ⟨-, hbefore⟩ := hbefore
    obtain ⟨hunforgiving, hclear⟩ := hclear
    obtain ⟨hassertion, hsigned⟩ := hsigned
    have heffect := m.effect (t := t) hcache htrap hroom
    obtain ⟨op, hop, hlockout⟩ := heffect.lockout
    show m.wrongChecks cfg t u ip w + totalWrong cfg t u ip (m.perform cfg t w).1 ms ≤ _
    -- what this move checks is within what is left
    have hmove : m.wrongChecks cfg t u ip w = 0 ∨
        m.wrongChecks cfg t u ip w = 1 ∧ op = .fail ip ∧ k < lockoutThreshold := by
      rcases heffect.wrong ip hassertion with hzero | ⟨hone, hfail, hgate⟩
      · exact .inl hzero
      · rw [hwindow.standing_eq] at hgate
        refine .inr ⟨hone, ?_, hgate⟩
        rcases hop with hop | ⟨hnil, -⟩
        · exact List.singleton_inj.mp (hop.symm.trans hfail)
        · rw [hnil] at hfail
          cases hfail
    by_cases hin : (m.perform cfg t w).1.clock < ends
    · have hnext : ((m.perform cfg t w).1.lockout u).Window ip g
          (if op = .fail ip then k + 1 else k) ends := by
        rw [hlockout]
        refine hwindow.step ?_ ?_ ?_
        · rintro rfl
          rcases hop with hop | ⟨-, hidle⟩
          · exact hunforgiving.1 (hop ▸ List.mem_singleton_self _)
          · cases hidle
        · rintro rfl
          rcases hop with hop | ⟨-, hidle⟩
          · exact hunforgiving.2 (hop ▸ List.mem_singleton_self _)
          · cases hidle
        · rw [← hlockout]
          exact hin
      have hrest := ih hnext hhealthy hbefore hclear hsigned
      rcases hmove with hzero | ⟨hone, rfl, hlt⟩
      · split at hrest <;> omega
      · rw [if_pos rfl] at hrest
        omega
    · -- the window is over, and so is the history
      cases ms with
      | nil =>
        show m.wrongChecks cfg t u ip w + 0 ≤ _
        omega
      | cons => exact absurd hbefore.1 hin

/-- **The brute-force budget of a source.** From the move whose failure opens the counter of a
source, as long as the generation of the account reads the same, nothing gives the budget back and
no assertion of the source is wrong, at most `lockoutThreshold` wrong passwords and second factors
from the source are checked before the window ends. -/
theorem source_budget (hcache : cfg.hasCache)
    (htrap : ∀ email, cfg.isTrapUser email → cfg.trapSubject email ≠ u) {w : World}
    {first : Move} {rest : List Move} (hfirst : .fail ip ∈ first.ops cfg t u w)
    (hopening : (w.lockout u).Opening ip) (hsteady : (w.lockout u).Steady)
    (hhealthy : Along cfg t Healthy w (first :: rest))
    (hbefore : Along cfg t (Before (w.clock + lockoutDuration)) (first.perform cfg t w).1 rest)
    (hclear : Along cfg t (Unforgiving cfg t u ip) (first.perform cfg t w).1 rest)
    (hsigned : Along cfg t (Move.Signed cfg t u ip) w (first :: rest)) :
    totalWrong cfg t u ip w (first :: rest) ≤ lockoutThreshold := by
  obtain ⟨hroom, hhealthy⟩ := hhealthy
  have heffect := first.effect (t := t) hcache htrap hroom
  obtain ⟨op, hop, hlockout⟩ := heffect.lockout
  have hfail : op = .fail ip := by
    rcases hop with hop | ⟨hnil, -⟩
    · rw [hop] at hfirst
      exact (List.mem_singleton.mp hfirst).symm
    · rw [hnil] at hfirst
      cases hfirst
  subst hfail
  have hwindow := window_of_opening hopening hsteady
  rw [← hlockout] at hwindow
  have hrest := totalWrong_le hcache htrap hwindow hhealthy hbefore hclear hsigned.2
  have hthreshold : lockoutThreshold = 5 := rfl
  show first.wrongChecks cfg t u ip w + totalWrong cfg t u ip (first.perform cfg t w).1 rest ≤ _
  rcases heffect.wrong ip hsigned.1 with hzero | ⟨hone, -, -⟩ <;> omega

end Budget

namespace Sample

def guess : Move := .login { loginInput with password := "no" }

theorem source_budget_guessed :
    totalWrong settings 0 "u" "1" world (guess :: List.replicate 6 guess) = 5 ∧
      totalWrong settings 0 "u" "1" world (guess :: List.replicate 6 guess) ≤ lockoutThreshold :=
  ⟨by decide +kernel,
    source_budget rfl (fun _ h => absurd h Bool.false_ne_true) (by decide +kernel)
      (by decide +kernel)
      (fun _ _ _ => rfl) (by decide +kernel) (by decide +kernel) (by decide +kernel)
      (by decide +kernel)⟩

/-- `alice` after a reset, twenty minutes later. -/
def afterReset : World :=
  world.after settings 0 [.clearAccountLockout "u", .nudge (.tick 1200000000000)]

/-- Four more guesses, eleven minutes, and another one. -/
def guesses : List Move :=
  [guess, guess, guess, guess, .nudge (.tick 660000000000), guess]

/-- **A second budget.** The reset's generation lives for thirty minutes. It runs out between the
fifth guess and the sixth, and the sixth is checked within the window of the first. -/
theorem source_budget_doubled :
    .fail "1" ∈ guess.ops settings 0 "u" afterReset ∧ (afterReset.lockout "u").Opening "1" ∧
      Along settings 0 Healthy afterReset (guess :: guesses) ∧
      Along settings 0 (Before (afterReset.clock + lockoutDuration))
        (guess.perform settings 0 afterReset).1 guesses ∧
      Along settings 0 (Unforgiving settings 0 "u" "1")
        (guess.perform settings 0 afterReset).1 guesses ∧
      Along settings 0 (Move.Signed settings 0 "u" "1") afterReset (guess :: guesses) ∧
      totalWrong settings 0 "u" "1" afterReset (guess :: guesses) = lockoutThreshold + 1 := by
  decide +kernel

/-- `alice` has a TOTP secret and a security key. -/
def keyed : World := { world with mfaMethods := fun _ => [methodTOTP, methodWebAuthn] }

def keySettings : Settings := { settings with hasMFA := true }

/-- Her key has signed nothing. -/
def keyStores : FactorWorld where
  world := world
  totpSecrets := []
  credentials := [⟨2, "u", "key", 0, none, false⟩]
  backupCodes := []
  totpStep := fun _ _ _ => none
  signed := fun _ _ _ => false

/-- The challenge that the right password is answered with, presented with a code. -/
def owed : SecondFactorInput where
  token := ⟨"u", 1, 1 + challengeTTL, 1, loginInput.fingerprint, [methodPassword], none⟩
  method := methodTOTP
  code := "000000"
  fingerprint := ⟨"1", "", "", ""⟩
  jkt := ""

/-- Four more wrong codes, and a ceremony with an assertion that no key signed. -/
def pastTheLock : List Move :=
  List.replicate 4 (.secondFactor owed) ++
    [.webauthnBegin keyStores owed 1, .webauthnVerify keyStores owed ⟨"key", 1, 0, false⟩]

def passwordKnown : World := keyed.after keySettings 0 [.login loginInput]

/-- **A second factor past the lock.** Five wrong codes lock the source out, and its assertion is
checked as the sixth. -/
theorem assertion_past_the_lock :
    .fail "1" ∈ (Move.secondFactor owed).ops keySettings 0 "u" passwordKnown ∧
      (passwordKnown.lockout "u").Opening "1" ∧
      Along keySettings 0 Healthy passwordKnown (.secondFactor owed :: pastTheLock) ∧
      Along keySettings 0 (Before (passwordKnown.clock + lockoutDuration))
        ((Move.secondFactor owed).perform keySettings 0 passwordKnown).1 pastTheLock ∧
      Along keySettings 0 (Unforgiving keySettings 0 "u" "1")
        ((Move.secondFactor owed).perform keySettings 0 passwordKnown).1 pastTheLock ∧
      totalWrong keySettings 0 "u" "1" passwordKnown (.secondFactor owed :: pastTheLock) =
        lockoutThreshold + 1 := by
  decide +kernel

end Sample

end Vault42
