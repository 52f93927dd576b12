import Vault42.Admin.Gateway

/-!
# Enrolment of an operator's second factor

`Conduct` says once what every request of the gateway does: in which order it reads its session, the
clock and the admin's row, from what it writes the row back, and what it has seen when it opens a
session. Both results about the second factor are read off it.

This module settles the row. The accepted time steps strictly increase whatever the schedule,
because the statement that records one compares (`accepted_lt`). The secret and its mark do not:
setup and verification write them back from the snapshot of the middleware, so an enrolment that has
completed is undone by a setup that was let in before it (`Sample.setup_undoes_enrolment`). With
snapshots that are still current when they are written back (`FreshSnapshot`) a verified secret
stays, and stays verified: `admin_totp_one_way`.
-/

namespace Vault42.Admin

open Framework Program List AuthHandler

variable {cfg : Settings}

/-! ### The conduct of a request -/

def AdminReq.code : AdminReq → String
  | .login _ _ totpCode => totpCode
  | .totpVerify _ code => code
  | .totpSetup _ => ""
  | .logout _ => ""
  | .other _ _ => ""

/-- The conversation has read the row `a`. -/
def Reads (past : List (Event adminSig)) (a : AdminUser) : Prop :=
  (∃ username, ⟨.getByUsername username, .ok (some a)⟩ ∈ past) ∨
    ∃ id, ⟨.getByID id, .ok (some a)⟩ ∈ past

/-- The conversation has got its session and its row from the middleware. -/
def Behind (past : List (Event adminSig)) (session : AdminSession) (a : AdminUser) : Prop :=
  (∃ hash, ⟨.getByTokenHash hash, .ok (some session)⟩ ∈ past) ∧
    ∃ id, ⟨.getByID id, .ok (some a)⟩ ∈ past

/-- In the conversation a code of the secret in the row `a` was accepted. -/
def Accepted (cfg : Settings) (code : String) (past : List (Event adminSig)) (a : AdminUser)
    (secret : ℕ) : Prop :=
  decryptTOTPSecret a.id a.totpSecretEnc = some secret ∧ ∃ now counter, ⟨.now, now⟩ ∈ past ∧
    validateTOTPCode cfg.hotp secret code now = some counter ∧
    ⟨.updateLastTOTPCounter a.id counter, .ok ()⟩ ∈ past

/-- The conversation has not written the row back. -/
def Unwritten (past : List (Event adminSig)) : Prop := ∀ user r, ⟨.update user, r⟩ ∉ past

/-- **What a request does**: `Conduct cfg req past c` says when it makes the call `c`. -/
def Conduct (cfg : Settings) (req : AdminReq) (past : List (Event adminSig)) (c : AdminCall) :
    Prop :=
  -- writing the row back is the last thing it does
  Unwritten past ∧
    match c with
    | .getByTokenHash _ => past = []
    | .getByID id => ∃ now hash session,
        past = [⟨.now, now⟩, ⟨.getByTokenHash hash, .ok (some session)⟩] ∧
          session.adminID = id ∧ session.revoked = false ∧ ¬ session.expiresAt < now
    | .update user => ∃ a, Reads past a ∧ user.id = a.id ∧ a.totpVerified = false ∧
        (user.totpVerified → user.totpSecretEnc = a.totpSecretEnc ∧
          (∃ auth code, req = .totpVerify auth code) ∧
            ∃ secret, Accepted cfg req.code past a secret)
    | .createSession session => ∃ a, Reads past a ∧ session.revoked = false ∧
        (a.totpVerified → a.totpSecretEnc ≠ .empty →
          ∃ secret, Accepted cfg req.code past a secret)
    | .revokeSession _ => ∃ session a, Behind past session a ∧ a.totpVerified
    | _ => True

/-- How a request ends: if it has passed the middleware, then with a row whose secret is verified,
or on a path of the enrolment. -/
def Ended (req : AdminReq) (past : List (Event adminSig)) (r : Response) : Prop :=
  r = .passed → ∃ auth path session a, req = .other auth path ∧ Behind past session a ∧
    (a.totpVerified ∨ isTOTPSetupPath path)

def conduct (cfg : Settings) (req : AdminReq) : Discipline adminSig := .history (Conduct cfg req)

/-- A conversation that has gone on without writing the row. -/
def Longer (past ψ : List (Event adminSig)) : Prop := Unwritten ψ ∧ past ⊆ ψ

section Conversations

variable {past ψ χ : List (Event adminSig)} {a : AdminUser} {code : String} {secret : ℕ}

theorem Unwritten.longer (h : Unwritten past) : Longer past past := ⟨h, fun _ he => he⟩

theorem Unwritten.cons (h : Unwritten past) {c : AdminCall} (r : c.Reply)
    (hc : ∀ user, c ≠ .update user) : Longer past (⟨c, r⟩ :: past) := by
  refine ⟨fun user r' hmem => ?_, fun _ => mem_cons_of_mem _⟩
  rcases mem_cons.mp hmem with heq | hmem
  · cases heq
    exact hc user rfl
  · exact h user r' hmem

theorem Longer.trans (h : Longer past ψ) (h' : Longer ψ χ) : Longer past χ :=
  ⟨h'.1, fun _ he => h'.2 (h.2 he)⟩

theorem Reads.mono (h : Reads past a) (hsub : past ⊆ ψ) : Reads ψ a := by
  rcases h with ⟨username, hmem⟩ | ⟨id, hmem⟩
  · exact .inl ⟨username, hsub hmem⟩
  · exact .inr ⟨id, hsub hmem⟩

theorem Accepted.mono (h : Accepted cfg code past a secret) (hsub : past ⊆ ψ) :
    Accepted cfg code ψ a secret := by
  obtain ⟨hsecret, now, counter, hnow, hvalid, hupdate⟩ := h
  exact ⟨hsecret, now, counter, hsub hnow, hvalid, hsub hupdate⟩

end Conversations

/-! ### The programs keep to it -/

section Programs

variable {req : AdminReq} {past : List (Event adminSig)} {a : AdminUser}

theorem ask_bind {α : Type} {c : AdminCall} {f : c.Reply → AdminProg α}
    {Q : List (Event adminSig) → α → Prop} (h : Conduct cfg req past c)
    (hf : ∀ r, (f r).Obeys (conduct cfg req) Q (⟨c, r⟩ :: past)) :
    (ask c >>= f).Obeys (conduct cfg req) Q past :=
  .call h fun r _ => hf r

theorem isLocked_conduct (h : Unwritten past) :
    (isLocked a).Obeys (conduct cfg req) (fun ψ _ => Longer past ψ) past := by
  unfold isLocked
  split
  · exact h.longer
  · exact ask_bind ⟨h, trivial⟩ fun r => h.cons r (by simp)

theorem handleFailedLogin_conduct (h : Unwritten past) :
    (handleFailedLogin cfg a).Obeys (conduct cfg req) (fun _ _ => True) past := by
  refine ask_bind ⟨h, trivial⟩ fun r => ?_
  have h₁ := (h.cons r (by simp)).1
  refine .ite ?_ trivial
  refine ask_bind ⟨h₁, trivial⟩ fun now => ?_
  exact ask_bind ⟨(h₁.cons now (by simp)).1, trivial⟩ fun _ => trivial

theorem refuse_conduct (h : Unwritten past) :
    (refuse cfg a).Obeys (conduct cfg req) (Ended req) past :=
  (handleFailedLogin_conduct h).bind nofun

/-- The second factor of a login: it answers, or the code the row asks for was accepted. -/
theorem secondFactor_conduct {code : String} (hcode : req.code = code) (h : Unwritten past) :
    (secondFactor cfg a code).Obeys (conduct cfg req)
      (fun ψ o => (∀ r, o = some r → Ended req ψ r) ∧
        (o = none → Longer past ψ ∧ (a.totpVerified → a.totpSecretEnc ≠ .empty →
          ∃ secret, Accepted cfg req.code ψ a secret))) past := by
  have refused : ∀ {ψ : List (Event adminSig)}, Unwritten ψ →
      (some <$> refuse cfg a).Obeys (conduct cfg req)
        (fun ψ o => (∀ r, o = some r → Ended req ψ r) ∧
          (o = none → Longer past ψ ∧ (a.totpVerified → a.totpSecretEnc ≠ .empty →
            ∃ secret, Accepted cfg req.code ψ a secret))) ψ := by
    intro ψ hψ
    refine (refuse_conduct hψ).bind fun χ r hr => ⟨?_, nofun⟩
    rintro r' ⟨⟩
    exact hr
  unfold secondFactor
  split
  · refine .ite (refused h) ?_
    split
    · refine ⟨?_, nofun⟩
      rintro r ⟨⟩ hp
      cases hp
    next secret hsecret =>
      refine ask_bind ⟨h, trivial⟩ fun (now : Time) => ?_
      have h₁ := h.cons (c := .now) now (by simp)
      split
      · exact refused h₁.1
      next counter hvalid =>
        refine .ite (refused h₁.1) ?_
        refine ask_bind ⟨h₁.1, trivial⟩ fun (r : Except Unit Unit) => ?_
        have h₂ := h₁.1.cons (c := .updateLastTOTPCounter a.id counter) r (by simp)
        cases r with
        | error => exact refused h₂.1
        | ok =>
          refine ⟨nofun, fun _ => ⟨h₁.trans h₂, fun _ _ => ⟨secret, hsecret, ?_⟩⟩⟩
          refine ⟨now, counter, mem_cons_of_mem _ mem_cons_self, ?_, mem_cons_self⟩
          rw [hcode]
          exact hvalid
  next hnot =>
    refine ⟨nofun, fun _ => ⟨h.longer, fun hverified henc => ?_⟩⟩
    exact absurd ⟨hverified, henc⟩ hnot

/-- A session is opened from a row whose second factor, if it has one, was proven. -/
theorem openSession_conduct (h : Unwritten past) (hreads : Reads past a)
    (hfactor : a.totpVerified → a.totpSecretEnc ≠ .empty →
      ∃ secret, Accepted cfg req.code past a secret) :
    (openSession cfg a).Obeys (conduct cfg req) (Ended req) past := by
  refine ask_bind ⟨h, trivial⟩ fun (r : Except Unit ℕ) => ?_
  have h₁ := h.cons (c := .randomBytes) r (by simp)
  cases r with
  | error => exact nofun
  | ok =>
    refine ask_bind ⟨h₁.1, trivial⟩ fun (r : Except Unit UUID) => ?_
    have h₂ := h₁.trans (h₁.1.cons (c := .randomUUID) r (by simp))
    cases r with
    | error => exact nofun
    | ok =>
      refine ask_bind ⟨h₂.1, trivial⟩ fun (now : Time) => ?_
      have h₃ := h₂.trans (h₂.1.cons (c := .now) now (by simp))
      refine ask_bind ⟨h₃.1, a, hreads.mono h₃.2, rfl, fun hv he => ?_⟩
        fun (r : Except Unit Unit) => ?_
      · obtain ⟨secret, hacc⟩ := hfactor hv he
        exact ⟨secret, hacc.mono h₃.2⟩
      · cases r with
        | error => exact nofun
        | ok =>
          refine ask_bind ⟨(h₃.1.cons _ (by simp)).1, trivial⟩ fun _ => ?_
          exact nofun

theorem login_conduct (username password code : String) :
    (login cfg username password code).Obeys
      (conduct cfg (.login username password code)) (Ended (.login username password code)) [] := by
  have hnil : Unwritten [] := nofun
  unfold login
  refine .ite nofun ?_
  refine ask_bind ⟨hnil, trivial⟩ fun (r : Except Unit (Option AdminUser)) => ?_
  have h₁ := hnil.cons (c := .getByUsername username) r (by simp)
  rcases r with e | _ | a
  · exact nofun
  · exact ask_bind ⟨h₁.1, trivial⟩ nofun
  · have hreads : Reads [⟨.getByUsername username, .ok (some a)⟩] a :=
      .inl ⟨username, mem_cons_self⟩
    refine (isLocked_conduct h₁.1).bind fun ψ locked hψ => ?_
    refine .ite nofun ?_
    refine ask_bind ⟨hψ.1, trivial⟩ fun (r : PasswordCheck) => ?_
    have h₂ := hψ.trans (hψ.1.cons (c := .verifyPassword password a.passwordHash) r (by simp))
    cases r with
    | overloaded => exact nofun
    | invalid => exact refuse_conduct h₂.1
    | valid =>
      refine (secondFactor_conduct rfl h₂.1).bind fun χ o ho => ?_
      cases o with
      | some r => exact ho.1 r rfl
      | none =>
        obtain ⟨hχ, hfactor⟩ := ho.2 rfl
        exact openSession_conduct hχ.1 (hreads.mono (h₂.trans hχ).2) hfactor

/-- The middleware: behind it the session and the row have been read. -/
theorem sessionAuth_conduct {auth : Authorization} {path : String}
    {next : AdminSession → AdminUser → AdminProg Response}
    (hnext : ∀ session a ψ, Unwritten ψ → Behind ψ session a →
      (a.totpVerified ∨ isTOTPSetupPath path) →
      (next session a).Obeys (conduct cfg req) (Ended req) ψ) :
    (sessionAuth auth path next).Obeys (conduct cfg req) (Ended req) [] := by
  have hnil : Unwritten [] := nofun
  unfold sessionAuth
  split
  · exact nofun
  · exact nofun
  · exact nofun
  next token =>
    refine ask_bind ⟨hnil, rfl⟩ fun (r : Except Unit (Option AdminSession)) => ?_
    have h₁ := hnil.cons (c := .getByTokenHash ⟨token⟩) r (by simp)
    rcases r with e | _ | session
    · exact nofun
    · exact nofun
    · by_cases hrevoked : session.revoked
      · simp only [hrevoked, if_true]
        exact nofun
      simp only [hrevoked, Bool.false_eq_true, if_false]
      refine ask_bind ⟨h₁.1, trivial⟩ fun (now : Time) => ?_
      have h₂ := h₁.trans (h₁.1.cons (c := .now) now (by simp))
      by_cases hexpired : session.expiresAt < now
      · simp only [hexpired, if_true]
        exact nofun
      simp only [hexpired, if_false]
      refine ask_bind ⟨h₂.1, now, ⟨token⟩, session, rfl, rfl, by simpa using hrevoked, hexpired⟩
        fun (r : Except Unit (Option AdminUser)) => ?_
      have h₃ := h₂.1.cons (c := .getByID session.adminID) r (by simp)
      rcases r with e | _ | a
      · exact nofun
      · exact nofun
      · refine (isLocked_conduct h₃.1).bind fun ψ locked hψ => ?_
        refine .ite nofun ?_
        by_cases hgate : (!a.totpVerified && !isTOTPSetupPath path)
        · simp only [hgate, if_true]
          exact nofun
        · simp only [hgate, Bool.false_eq_true, if_false]
          refine hnext session a ψ hψ.1
            ⟨⟨⟨token⟩, hψ.2 ?_⟩, session.adminID, hψ.2 mem_cons_self⟩ ?_
          · exact mem_cons_of_mem _ (mem_cons_of_mem _ mem_cons_self)
          · cases hv : a.totpVerified with
            | true => exact .inl rfl
            | false => exact .inr (by simpa [hv] using hgate)

theorem totpSetup_conduct (h : Unwritten past) (hreads : Reads past a) :
    (totpSetup a).Obeys (conduct cfg req) (Ended req) past := by
  unfold totpSetup
  by_cases hv : a.totpVerified
  · simp only [hv, if_true]
    exact nofun
  simp only [hv, Bool.false_eq_true, if_false]
  refine ask_bind ⟨h, trivial⟩ fun (r : Except Unit ℕ) => ?_
  have h₁ := h.cons (c := .generateTOTPSecret) r (by simp)
  cases r with
  | error => exact nofun
  | ok secret =>
    refine ask_bind ⟨h₁.1, trivial⟩ fun (r : Except Unit TOTPSecretEnc) => ?_
    have h₂ := h₁.trans (h₁.1.cons (c := .encryptTOTPSecret secret a.id) r (by simp))
    cases r with
    | error => exact nofun
    | ok =>
      refine ask_bind ⟨h₂.1, a, hreads.mono h₂.2, rfl, by simpa using hv, nofun⟩
        fun (r : Except Unit Unit) => ?_
      cases r with
      | error | ok => exact nofun

theorem totpVerify_conduct {auth : Authorization} {code : String} (h : Unwritten past)
    (hreads : Reads past a) :
    (totpVerify cfg a code).Obeys (conduct cfg (.totpVerify auth code))
      (Ended (.totpVerify auth code)) past := by
  unfold totpVerify
  by_cases hv : a.totpVerified
  · simp only [hv, if_true]
    exact nofun
  simp only [hv, Bool.false_eq_true, if_false]
  refine .ite nofun (.ite nofun ?_)
  split
  · exact nofun
  next secret hsecret =>
    refine ask_bind ⟨h, trivial⟩ fun (now : Time) => ?_
    have h₁ := h.cons (c := .now) now (by simp)
    split
    · exact nofun
    next counter hvalid =>
      refine .ite nofun ?_
      refine ask_bind ⟨h₁.1, trivial⟩ fun (r : Except Unit Unit) => ?_
      have h₂ := h₁.trans (h₁.1.cons (c := .updateLastTOTPCounter a.id counter) r (by simp))
      cases r with
      | error => exact nofun
      | ok u =>
        have hacc : Accepted cfg code
            (⟨.updateLastTOTPCounter a.id counter, .ok u⟩ :: ⟨.now, now⟩ :: past) a secret :=
          ⟨hsecret, now, counter, mem_cons_of_mem _ mem_cons_self, hvalid,
            mem_cons_self⟩
        refine ask_bind ⟨h₂.1, a, hreads.mono h₂.2, rfl, by simpa using hv,
          fun _ => ⟨rfl, ⟨auth, code, rfl⟩, secret, hacc⟩⟩ fun (r : Except Unit Unit) => ?_
        cases r with
        | error | ok => exact nofun

/-- **Every request conducts itself so.** -/
theorem program_conduct (cfg : Settings) (req : AdminReq) :
    (req.program cfg).Obeys (conduct cfg req) (Ended req) [] := by
  cases req with
  | login username password code => exact login_conduct username password code
  | totpSetup =>
    exact sessionAuth_conduct fun _ _ _ hun hbehind _ => totpSetup_conduct hun (.inr hbehind.2)
  | totpVerify =>
    exact sessionAuth_conduct fun _ _ _ hun hbehind _ => totpVerify_conduct hun (.inr hbehind.2)
  | logout =>
    refine sessionAuth_conduct fun session a ψ hun hbehind hgate => ?_
    have hverified : a.totpVerified := hgate.resolve_right (by decide)
    refine ask_bind ⟨hun, session, a, hbehind, hverified⟩ fun (r : Except Unit Unit) => ?_
    cases r with
    | error | ok => exact nofun
  | other auth path =>
    exact sessionAuth_conduct fun session a ψ _ hbehind hgate _ =>
      ⟨auth, path, session, a, rfl, hbehind, hgate⟩

end Programs

/-! ### The row -/

/-- **What a call does to the world.** It draws from the supply, counts failures or locks the row,
advances the accepted time step, writes the row back, opens a session or revokes one. -/
theorem effect_cases (cl : AdminCall) (w : AdminWorld) :
    (∃ n, (adminAnswer cl w).2 = { w with supply := n }) ∨
    (∃ n t, (adminAnswer cl w).2 =
      { w with admin := { w.admin with failedLoginCount := n, lockedUntil := t } }) ∨
    (∃ id counter, cl = .updateLastTOTPCounter id counter ∧ w.admin.lastTOTPCounter < counter ∧
      (adminAnswer cl w).2 = { w with admin := { w.admin with lastTOTPCounter := counter } }) ∨
    (∃ user, cl = .update user ∧ user.id = w.admin.id ∧ (adminAnswer cl w).2 =
      { w with
        admin := { w.admin with
          username := user.username
          role := user.role
          totpSecretEnc := user.totpSecretEnc
          totpVerified := user.totpVerified } }) ∨
    (∃ s, cl = .createSession s ∧ (adminAnswer cl w).2 = { w with sessions := s :: w.sessions }) ∨
    ∃ id, cl = .revokeSession id ∧ (adminAnswer cl w).2 =
      { w with
        sessions := w.sessions.map fun s =>
          if s.id = id then { s with revoked := true } else s } := by
  have same : (∃ n, w = { w with supply := n }) := ⟨w.supply, rfl⟩
  -- the statements that count and lock
  have counted : ∀ id f,
      (∀ a, ∃ n t, f a = { a with failedLoginCount := n, lockedUntil := t }) →
      (∃ n, w.onAdmin id f = { w with supply := n }) ∨ ∃ n t, w.onAdmin id f =
        { w with admin := { w.admin with failedLoginCount := n, lockedUntil := t } } := by
    intro id f hf
    unfold AdminWorld.onAdmin
    split
    · obtain ⟨n, t, heq⟩ := hf w.admin
      exact .inr ⟨n, t, by rw [heq]⟩
    · exact .inl same
  cases cl with
  | incrementFailedLogin id =>
    exact (counted id _ fun a => ⟨_, a.lockedUntil, rfl⟩).imp_right .inl
  | lockUntil id => exact (counted id _ fun a => ⟨a.failedLoginCount, _, rfl⟩).imp_right .inl
  | updateLastLogin id => exact (counted id _ fun a => ⟨_, _, rfl⟩).imp_right .inl
  | updateLastTOTPCounter id counter =>
    simp only [adminAnswer, AdminWorld.updateLastTOTPCounter]
    split
    next h => exact .inr (.inr (.inl ⟨id, counter, rfl, h.2, rfl⟩))
    next => exact .inl same
  | update user =>
    simp only [adminAnswer, AdminWorld.onAdmin]
    split
    next h => exact .inr (.inr (.inr (.inl ⟨user, rfl, h, rfl⟩)))
    next => exact .inl same
  | createSession s => exact .inr (.inr (.inr (.inr (.inl ⟨s, rfl, rfl⟩))))
  | revokeSession id => exact .inr (.inr (.inr (.inr (.inr ⟨id, rfl, rfl⟩))))
  | randomBytes | randomUUID | generateTOTPSecret => exact .inl ⟨w.supply + 1, rfl⟩
  | _ => exact .inl same

/-- Only a write back changes the enrolment in the row. -/
theorem enrolment_answer (cl : AdminCall) (w : AdminWorld) :
    ((adminAnswer cl w).2.admin.totpSecretEnc = w.admin.totpSecretEnc ∧
      (adminAnswer cl w).2.admin.totpVerified = w.admin.totpVerified) ∨
    ∃ user, cl = .update user ∧ user.id = w.admin.id ∧
      (adminAnswer cl w).2.admin.totpSecretEnc = user.totpSecretEnc ∧
      (adminAnswer cl w).2.admin.totpVerified = user.totpVerified := by
  rcases effect_cases cl w with ⟨_, h⟩ | ⟨_, _, h⟩ | ⟨_, _, -, -, h⟩ | ⟨user, hcl, hid, h⟩ |
    ⟨_, -, h⟩ | ⟨_, -, h⟩
  case inr.inr.inr.inl =>
    rw [h]
    exact .inr ⟨user, hcl, hid, rfl, rfl⟩
  all_goals
    rw [h]
    exact .inl ⟨rfl, rfl⟩

theorem counter_answer {cl : AdminCall} {w : AdminWorld} :
    w.admin.lastTOTPCounter ≤ (adminAnswer cl w).2.admin.lastTOTPCounter := by
  rcases effect_cases cl w with ⟨_, h⟩ | ⟨_, _, h⟩ | ⟨_, counter, -, hlt, h⟩ | ⟨_, -, -, h⟩ |
    ⟨_, -, h⟩ | ⟨_, -, h⟩
  case inr.inr.inl =>
    rw [h]
    exact le_of_lt hlt
  all_goals
    rw [h]

section Runs

variable {Init : AdminWorld → Prop}
  {ok ok' : Config (adminGateway cfg) → Label (adminGateway cfg) → Prop}
  {c d e : Config (adminGateway cfg)} {l : Label (adminGateway cfg)} {t u : ℕ}

/-- In `c`, the answer to thread `t` accepts the time step `counter`. -/
def AcceptsNext (c : Config (adminGateway cfg)) (t : ℕ) (counter : ℤ) : Prop :=
  ∃ th id, c.threads[t]? = some th ∧ th.pending = some (.updateLastTOTPCounter id counter) ∧
    (c.world.updateLastTOTPCounter id counter).1 = .ok ()

theorem AcceptsNext.lt {counter : ℤ} (h : AcceptsNext c t counter) :
    c.world.admin.lastTOTPCounter < counter := by
  obtain ⟨th, id, -, -, hok⟩ := h
  unfold AdminWorld.updateLastTOTPCounter at hok
  split at hok
  next h => exact h.2
  next => cases hok

theorem AcceptsNext.recorded {counter : ℤ} (h : AcceptsNext c t counter) (hs : Step c (.act t) d) :
    d.world.admin.lastTOTPCounter = counter := by
  obtain ⟨th, id, hth, hpend, hok⟩ := h
  cases hs with
  | @act _ th' cl k hth' hrest =>
    obtain rfl := Option.mem_unique hth hth'
    obtain rfl : cl = .updateLastTOTPCounter id counter := by
      simp only [Thread.pending, hrest] at hpend
      exact Option.some.inj hpend
    show (c.world.updateLastTOTPCounter id counter).2.admin.lastTOTPCounter = counter
    unfold AdminWorld.updateLastTOTPCounter at hok ⊢
    split
    · rfl
    next hnot =>
      rw [if_neg hnot] at hok
      cases hok

theorem counter_mono (hr : Run ok c d) :
    c.world.admin.lastTOTPCounter ≤ d.world.admin.lastTOTPCounter := by
  induction hr with
  | refl => exact le_rfl
  | snoc _ _ hs ih =>
    refine le_trans ih ?_
    cases hs with
    | spawn | fault | nudge => exact le_rfl
    | act => exact counter_answer

/-- **The accepted time steps strictly increase**, in every schedule. -/
theorem accepted_lt {counter counter' : ℤ} (h : AcceptsNext c t counter) (hs : Step c (.act t) d)
    (hr : Run ok d e) (h' : AcceptsNext e u counter') : counter < counter' :=
  calc counter = d.world.admin.lastTOTPCounter := (h.recorded hs).symm
    _ ≤ e.world.admin.lastTOTPCounter := counter_mono hr
    _ < counter' := h'.lt

/-- A setup or a verification that writes the row back finds the enrolment in it as it read it. -/
def FreshSnapshot (c : Config (adminGateway cfg)) (l : Label (adminGateway cfg)) : Prop :=
  ∀ t th user a, l = .act t →
    c.threads[t]? = some th → th.pending = some (.update user) → Reads th.past a →
    a.totpSecretEnc = c.world.admin.totpSecretEnc ∧ a.totpVerified = c.world.admin.totpVerified

/-- With fresh snapshots a step leaves a verified enrolment alone. -/
theorem enrolment_of_step (hc : Reachable Init ok c) (hok : FreshSnapshot c l) (hs : Step c l d)
    (hv : c.world.admin.totpVerified) :
    d.world.admin.totpSecretEnc = c.world.admin.totpSecretEnc ∧
      d.world.admin.totpVerified := by
  cases hs with
  | spawn | fault | nudge => exact ⟨rfl, hv⟩
  | @act t th cl k hth hrest =>
    rcases enrolment_answer cl c.world with ⟨henc, hver⟩ | ⟨user, rfl, -⟩
    · exact ⟨henc, hver.trans hv⟩
    · -- the writer has read the row as it is, and would not have gone on
      have hpend := Thread.pending_of_call hrest
      obtain ⟨-, a, hreads, -, hunverified, -⟩ :=
        hc.allows_history hth (program_conduct cfg th.req) hpend
      have hsame := (hok t th user a rfl hth hpend hreads).2
      rw [hv, hunverified] at hsame
      cases hsame

/-- **Admin TOTP state moves one way.** The time steps accepted for the admin strictly increase over
every run; and, from a state in which the secret is marked verified, no run whose writes are made
from fresh snapshots changes the secret or clears the mark. -/
theorem admin_totp_one_way (hc : Reachable Init ok c) :
    (∀ d e t u counter counter', AcceptsNext c t counter → Step c (.act t) d → Run anyStep d e →
      AcceptsNext e u counter' → counter < counter') ∧
    (c.world.admin.totpVerified → ∀ d, Run FreshSnapshot c d →
      d.world.admin.totpSecretEnc = c.world.admin.totpSecretEnc ∧
        d.world.admin.totpVerified) := by
  refine ⟨fun _ _ _ _ _ _ => accepted_lt, fun hv d hr => ?_⟩
  have hany := hc.unguarded
  induction hr with
  | refl => exact ⟨rfl, hv⟩
  | snoc hprev hok hs ih =>
    obtain ⟨henc, hver⟩ := ih
    have hreach := hany.run (hprev.mono fun _ _ _ => trivial)
    obtain ⟨henc', hver'⟩ := enrolment_of_step hreach hok hs hver
    exact ⟨henc'.trans henc, hver'⟩

end Runs

/-! ### Sample runs -/

namespace Sample

/-- A gateway whose operators' authenticators all show the same code. -/
def settings : Settings := ⟨3600000000000, 5, 1800000000000, fun _ _ => "000000"⟩

/-- An operator who has not enrolled. -/
def operator : AdminUser :=
  ⟨"a1", "root", .argon2id "hunter2" 1, "super_admin", .empty, false, none, 0, 0⟩

def enrolledOperator : AdminUser :=
  { operator with totpSecretEnc := .sealed "a1" 7, totpVerified := true }

def session (n : ℕ) : AdminSession := ⟨n, "a1", ⟨n⟩, 0, 9000000000000, false⟩

/-- Two sessions of the operator, fifty minutes into the day. -/
def world : AdminWorld := ⟨operator, [session 0, session 1], 3000000000000, 10⟩

/-- An enrolled operator, and no session. -/
def enrolledWorld : AdminWorld := ⟨enrolledOperator, [], 3000000000000, 10⟩

/-- No row is about to be written back. -/
def unwrittenTest (c : Config (adminGateway settings)) : Label (adminGateway settings) → Bool
  | .act t =>
    match c.pending t with
    | some (.update _) => false
    | _ => true
  | _ => true

theorem freshSnapshot_of_test (c : Config (adminGateway settings))
    (l : Label (adminGateway settings)) (h : unwrittenTest c l) : FreshSnapshot c l := by
  intro t th user a hl hth hpend
  subst hl
  have hp := (Config.pending_eq hth).trans hpend
  simp [unwrittenTest, hp] at h

def loggedIn : Config (adminGateway settings) :=
  (execAll unwrittenTest ⟨enrolledWorld, []⟩
    ([.spawn (AdminReq.login "root" "hunter2" "000000")] ++ .replicate 9 (.act 0))).getD
      ⟨enrolledWorld, []⟩

/-- The login spends a time step and leaves the enrolment as it is. -/
theorem enrolment_survives_login :
    loggedIn.threads.map Thread.result = [some (.loggedIn 10 6600000000000 false)] ∧
    loggedIn.world.admin.lastTOTPCounter = 99 ∧
    loggedIn.world.admin.totpSecretEnc = .sealed "a1" 7 ∧
    loggedIn.world.admin.totpVerified := by
  have hc : Reachable (fun w => w = enrolledWorld) anyStep
      (⟨enrolledWorld, []⟩ : Config (adminGateway settings)) := ⟨_, rfl, .refl _⟩
  have hr : Run FreshSnapshot ⟨enrolledWorld, []⟩ loggedIn := run_execAll freshSnapshot_of_test _ _
  exact ⟨rfl, by decide +kernel, (admin_totp_one_way hc).2 rfl loggedIn hr⟩

/-- A setup of the first session has been let in and is about to write; meanwhile the second session
sets up an authenticator and verifies it. -/
def enrolled : Config (adminGateway settings) :=
  (execAll (fun _ _ => true) ⟨world, []⟩
    ([.spawn (AdminReq.totpSetup (.bearer 0))] ++ .replicate 5 (.act 0) ++
      [.spawn (AdminReq.totpSetup (.bearer 1))] ++ .replicate 6 (.act 1) ++
      [.spawn (AdminReq.totpVerify (.bearer 1) "000000")] ++ .replicate 6 (.act 2))).getD
        ⟨world, []⟩

def undone : Config (adminGateway settings) :=
  (execAll (fun _ _ => true) enrolled [.act 0]).getD enrolled

/-- **A setup undoes an enrolment.** The second session has been told that its secret is verified;
the first one's setup puts another secret in its place and clears the mark. -/
theorem setup_undoes_enrolment :
    Reachable (fun w => w = world) anyStep enrolled ∧ Run anyStep enrolled undone ∧
    (enrolled.threads.map Thread.result =
      [none, some (.secret 11), some (.status "totp_verified")]) ∧
    (enrolled.world.admin.totpVerified ∧
      enrolled.world.admin.totpSecretEnc = .sealed "a1" 11) ∧
    undone.world.admin.totpVerified = false ∧
    undone.world.admin.totpSecretEnc = .sealed "a1" 10 := by
  refine ⟨⟨world, rfl, run_execAll (fun _ _ _ => trivial) _ _⟩,
    run_execAll (fun _ _ _ => trivial) _ _, rfl, ?_⟩
  decide +kernel

end Sample

end Vault42.Admin
