import Vault42.Admin.Enrolment

/-!
# The second factor of a session

The middleware asks whether the *operator* has enrolled, not whether the session in hand ever proved
the second factor. A session that was opened with the password alone is let through as soon as any
session of the operator has enrolled: `Sample.password_session_admitted`.

What does hold is that sessions opened after the enrolment are proven by their logins. So the gap is
closed in the runs in which an enrolment completes alone (`Alone`): no other request is in flight,
and every other session on record is revoked or has expired. In them every request that passes the
middleware to a route outside of the enrolment does so with a session in which a code of the
verified secret was accepted: `second_factor_per_session`.

The invariant is `PerSession`. While the row is marked verified, `Held` says of every session on
record that it is unusable or proven, and of every request under way that it has read the row as it
is now; `Conduct` then leaves no other request.
-/

namespace Vault42.Admin

open Framework Program List Option Thread

variable {s : AdminSession} {secret : ℕ} {cl : AdminCall} {t : ℕ}

variable {cfg : Settings} {c c' : Config (adminGateway cfg)} {l : Label (adminGateway cfg)}

/-- **The session is proven**: at its login, or in a verification of its own, a code of the secret
was accepted. -/
def Proven (c : Config (adminGateway cfg)) (sid : UUID) (secret : ℕ) : Prop :=
  ∃ (t : ℕ) (th : Thread (adminGateway cfg)) (a : AdminUser), c.threads[t]? = some th ∧
    Reads th.past a ∧ Accepted cfg th.req.code th.past a secret ∧
    ((∃ session, session.id = sid ∧ ⟨.createSession session, .ok ()⟩ ∈ th.past) ∨
      (∃ auth code, th.req = .totpVerify auth code) ∧
        ∃ hash session, session.id = sid ∧ ⟨.getByTokenHash hash, .ok (some session)⟩ ∈ th.past)

/-- The session is revoked, or has expired by then. -/
def Unusable (s : AdminSession) (now : Time) : Prop := s.revoked ∨ s.expiresAt < now

theorem Unusable.mono {now later : Time} (h : Unusable s now) (hle : now ≤ later) :
    Unusable s later := by
  rcases h with h | h
  · exact .inl h
  · exact .inr (lt_of_lt_of_le h hle)

theorem Proven.step {sid : UUID} (h : Proven c sid secret) (hs : Step c l c') :
    Proven c' sid secret := by
  obtain ⟨t, th, a, hth, hreads, hacc, hsession⟩ := h
  obtain ⟨th', hth', hreq, hsuf⟩ := hs.past hth
  have hsub := hsuf.subset
  refine ⟨t, th', a, hth', hreads.mono hsub, hreq ▸ hacc.mono hsub, ?_⟩
  rcases hsession with ⟨s, hs, hmem⟩ | ⟨hverify, hash, s, hs, hmem⟩
  · exact .inl ⟨s, hs, hsub hmem⟩
  · exact .inr ⟨hreq ▸ hverify, hash, s, hs, hsub hmem⟩

/-- **While the row is verified** with the secret: every session is unusable or proven, and what a
request under way has read is the row as it stands, or a session that its checks will refuse or that
is proven. -/
structure Held (c : Config (adminGateway cfg)) (secret : ℕ) : Prop where
  opens : decryptTOTPSecret c.world.admin.id c.world.admin.totpSecretEnc = some secret
  sessions : ∀ s ∈ c.world.sessions, Unusable s c.world.clock ∨ Proven c s.id secret
  rows : ∀ (t : ℕ) th cl a,
    c.threads[t]? = some th → th.pending = some cl → Reads th.past a →
    a.totpVerified ∧ a.totpSecretEnc = c.world.admin.totpSecretEnc ∧
      a.id = c.world.admin.id
  fetched : ∀ (t : ℕ) th cl hash
    s, c.threads[t]? = some th → th.pending = some cl →
    th.past = [⟨.getByTokenHash hash, .ok (some s)⟩] →
    Unusable s c.world.clock ∨ Proven c s.id secret
  timed : ∀ (t : ℕ) th cl now
    hash s, c.threads[t]? = some th → th.pending = some cl →
    th.past = [⟨.now, now⟩, ⟨.getByTokenHash hash, .ok (some s)⟩] →
    Unusable s now ∨ Proven c s.id secret

/-- **The invariant.** What the middleware has let through to a verified row is proven, and a
verified row is held. -/
structure PerSession (c : Config (adminGateway cfg)) : Prop where
  admitted : ∀ (t : ℕ) th s a,
    c.threads[t]? = some th → Behind th.past s a → a.totpVerified →
    ∃ secret, decryptTOTPSecret a.id a.totpSecretEnc = some secret ∧ Proven c s.id secret
  held : c.world.admin.totpVerified → ∃ secret, Held c secret

/-- Before the first request: no session, and a row that is verified has a secret that opens. -/
def Unopened (w : AdminWorld) : Prop :=
  w.sessions = [] ∧ (w.admin.totpVerified →
    ∃ secret, decryptTOTPSecret w.admin.id w.admin.totpSecretEnc = some secret)

/-- **An enrolment completes alone**: when a verification is about to mark the row, every other
request has ended or not begun, and every session but its own is revoked or has expired. -/
def Alone (c : Config (adminGateway cfg)) (l : Label (adminGateway cfg)) : Prop :=
  ∀ t th user, l = .act t →
    c.threads[t]? = some th → th.pending = some (.update user) → user.totpVerified →
    (∀ u tu, c.threads[u]? = some tu → u ≠ t →
      tu.pending = none ∨ tu.past = []) ∧
    ∀ s ∈ c.world.sessions, Unusable s c.world.clock ∨
      ∃ hash session, session.id = s.id ∧ ⟨.getByTokenHash hash, .ok (some session)⟩ ∈ th.past

/-! ### What a call does to the world -/

theorem id_answer {w : AdminWorld} :
    (adminAnswer cl w).2.admin.id = w.admin.id ∧ (adminAnswer cl w).2.clock = w.clock := by
  rcases effect_cases cl w with ⟨_, h⟩ | ⟨_, _, h⟩ | ⟨_, _, -, -, h⟩ | ⟨_, -, -, h⟩ | ⟨_, -, h⟩ |
    ⟨_, -, h⟩ <;> rw [h] <;> exact ⟨rfl, rfl⟩

/-- A session on record was there, or was there and has been revoked, or has just been opened. -/
theorem sessions_answer {w : AdminWorld}
    (hs : s ∈ (adminAnswer cl w).2.sessions) :
    s ∈ w.sessions ∨ s.revoked ∨ cl = .createSession s := by
  rcases effect_cases cl w with ⟨_, h⟩ | ⟨_, _, h⟩ | ⟨_, _, -, -, h⟩ | ⟨_, -, -, h⟩ | ⟨s', hcl, h⟩ |
    ⟨id, -, h⟩
  case inr.inr.inr.inr.inl =>
    rw [h] at hs
    rcases mem_cons.mp hs with rfl | hs
    · exact .inr (.inr hcl)
    · exact .inl hs
  case inr.inr.inr.inr.inr =>
    rw [h] at hs
    obtain ⟨s', hs', heq⟩ := mem_map.mp hs
    split at heq
    · exact .inr (.inl (by rw [← heq]))
    · exact .inl (heq ▸ hs')
  all_goals
    rw [h] at hs
    exact .inl hs

/-! ### The steps -/

section Steps

variable {Init : AdminWorld → Prop}
  {ok : Config (adminGateway cfg) → Label (adminGateway cfg) → Prop}

variable {th : Thread (adminGateway cfg)}

theorem conduct_of_reachable (hc : Reachable Init ok c) (hth : c.threads[t]? = some th)
    (hpend : th.pending = some cl) : Conduct cfg th.req th.past cl :=
  hc.allows_history hth (program_conduct cfg th.req) hpend

theorem clock_step (hs : Step c l c') : c.world.clock ≤ c'.world.clock := by
  cases hs with
  | spawn | fault => exact le_rfl
  | act => exact le_of_eq (id_answer).2.symm
  | nudge => exact Int.le_add_of_nonneg_right (Int.natCast_nonneg _)

/-- **What the middleware lets through stays proven.** The row has just been read: the session was
fetched and found neither revoked nor expired, so it is proven if the row is verified. -/
theorem admitted_step (hc : Reachable Init ok c) (h : PerSession c) (hs : Step c l c')
    {th' : Thread (adminGateway cfg)} {a : AdminUser}
    (hth' : c'.threads[t]? = some th') (hbehind : Behind th'.past s a) (hv : a.totpVerified) :
    ∃ secret, decryptTOTPSecret a.id a.totpSecretEnc = some secret ∧ Proven c' s.id secret := by
  -- what was behind the middleware before the step
  have before : ∀ {th : Thread (adminGateway cfg)}, c.threads[t]? = some th → Behind th.past s a →
      ∃ secret, decryptTOTPSecret a.id a.totpSecretEnc = some secret ∧ Proven c' s.id secret := by
    intro th hth hb
    obtain ⟨secret, hopens, hproven⟩ := h.admitted t th s a hth hb hv
    exact ⟨secret, hopens, hproven.step hs⟩
  rcases hs.thread hth' with hold | ⟨r, -, -, rfl⟩ | ⟨th, cl, k, r, hth, hrest, rfl, hreply⟩
  · exact before hold hbehind
  · obtain ⟨⟨hash, hmem⟩, -⟩ := hbehind
    cases hmem
  have hpend := pending_of_call hrest
  have hconduct := conduct_of_reachable hc hth hpend
  obtain ⟨⟨hash, hfetched⟩, id, hread⟩ := hbehind
  rcases mem_cons.mp hread with heq | hread'
  · -- the row was read in this step
    cases heq
    obtain ⟨-, now, hash', session, hpast, -, hrevoked, hexpired⟩ := hconduct
    obtain rfl : s = session := by
      rcases mem_cons.mp hfetched with heq | hfetched
      · cases heq
      rw [hpast] at hfetched
      rcases mem_pair.mp hfetched with heq | heq
      · cases heq
      · cases heq
        rfl
    rcases hreply with ⟨-, hr⟩ | ⟨-, hr⟩
    · have ha : c.world.admin = a := by
        have hrow : (.ok (if id = c.world.admin.id then some c.world.admin else none) :
            Except Unit (Option AdminUser)) = .ok (some a) := hr.symm
        split at hrow
        · exact some.inj (Except.ok.inj hrow)
        · cases hrow
      subst ha
      obtain ⟨secret, hheld⟩ := h.held hv
      rcases hheld.timed t th _ now hash' s hth hpend hpast with hun | hproven
      · rcases hun with hun | hun
        · rw [hrevoked] at hun
          cases hun
        · exact absurd hun hexpired
      · exact ⟨secret, hheld.opens, hproven.step hs⟩
    · cases hr
  · -- it was read before; the session, too
    rcases mem_cons.mp hfetched with heq | hfetched
    · cases heq
      obtain ⟨-, hpast⟩ := hconduct
      rw [hpast] at hread'
      cases hread'
    · exact before hth ⟨⟨hash, hfetched⟩, id, hread'⟩

/-- **A verified row stays held** by a step that does not touch the enrolment. -/
theorem Held.step (hc : Reachable Init ok c) (h : Held c secret)
    (hv : c.world.admin.totpVerified) (hs : Step c l c')
    (henc : c'.world.admin.totpSecretEnc = c.world.admin.totpSecretEnc)
    (hid : c'.world.admin.id = c.world.admin.id) : Held c' secret := by
  have hclock := clock_step hs
  have later : ∀ {s : AdminSession}, Unusable s c.world.clock ∨ Proven c s.id secret →
      Unusable s c'.world.clock ∨ Proven c' s.id secret :=
    fun hs' => hs'.imp (fun hu => hu.mono hclock) fun hp => hp.step hs
  refine ⟨by rw [henc, hid]; exact h.opens, ?_, ?_, ?_, ?_⟩
  · -- sessions: one that has just been opened was proven by its login
    intro s hmem
    cases hs with
    | spawn | fault | nudge => exact later (h.sessions s hmem)
    | @act t th cl k hth hrest =>
      rcases sessions_answer hmem with hold | hrevoked | rfl
      · exact later (h.sessions s hold)
      · exact .inl (.inl hrevoked)
      · right
        have hpend := pending_of_call hrest
        obtain ⟨-, a, hreads, -, hfactor⟩ := conduct_of_reachable hc hth hpend
        obtain ⟨hav, haenc, haid⟩ := h.rows t th _ a hth hpend hreads
        have hopens : decryptTOTPSecret a.id a.totpSecretEnc = some secret := by
          rw [haenc, haid]
          exact h.opens
        obtain ⟨secret', hacc⟩ := hfactor hav (by rintro he; rw [he] at hopens; cases hopens)
        obtain rfl : secret' = secret := some.inj (hacc.1.symm.trans hopens)
        have hlt : t < c.threads.length := (List.getElem?_eq_some_iff.mp hth).1
        refine ⟨t, _, a, getElem?_set_self hlt, hreads.mono ?_, hacc.mono ?_,
          .inl ⟨s, rfl, mem_cons_self⟩⟩
        · exact fun _ => mem_cons_of_mem _
        · exact fun _ => mem_cons_of_mem _
  · -- rows: one that has just been read is the row
    intro t th' cl' a hth' hpend' hreads
    rw [henc, hid]
    rcases hs.thread hth' with hold | ⟨r, -, -, rfl⟩ | ⟨th, cl, k, r, hth, hrest, rfl, hreply⟩
    · exact h.rows t th' cl' a hold hpend' hreads
    · rcases hreads with ⟨_, hmem⟩ | ⟨_, hmem⟩ <;> cases hmem
    have hpend := pending_of_call hrest
    have found : ∀ {b : Prop} [Decidable b], (.ok (if b then some c.world.admin else none) :
        Except Unit (Option AdminUser)) = .ok (some a) → c.world.admin = a := by
      intro b _ heq
      split at heq
      · exact some.inj (Except.ok.inj heq)
      · cases heq
    have old : Reads th.past a → a.totpVerified ∧
        a.totpSecretEnc = c.world.admin.totpSecretEnc ∧ a.id = c.world.admin.id :=
      h.rows t th cl a hth hpend
    have new : c.world.admin = a → a.totpVerified ∧
        a.totpSecretEnc = c.world.admin.totpSecretEnc ∧ a.id = c.world.admin.id := by
      rintro rfl
      exact ⟨hv, rfl, rfl⟩
    rcases hreads with ⟨username, hmem⟩ | ⟨id, hmem⟩
    · rcases mem_cons.mp hmem with heq | hmem
      · cases heq
        rcases hreply with ⟨-, hr⟩ | ⟨-, hr⟩
        · exact new (found hr.symm)
        · cases hr
      · exact old (.inl ⟨username, hmem⟩)
    · rcases mem_cons.mp hmem with heq | hmem
      · cases heq
        rcases hreply with ⟨-, hr⟩ | ⟨-, hr⟩
        · exact new (found hr.symm)
        · cases hr
      · exact old (.inr ⟨id, hmem⟩)
  · -- a session that has just been fetched is on record
    intro t th' cl' hash s hth' hpend' hpast'
    rcases hs.thread hth' with hold | ⟨r, -, -, rfl⟩ | ⟨th, cl, k, r, hth, hrest, rfl, hreply⟩
    · exact later (h.fetched t th' cl' hash s hold hpend' hpast')
    · cases hpast'
    · obtain ⟨heq, -⟩ := cons_eq_cons.mp hpast'
      cases heq
      rcases hreply with ⟨-, hr⟩ | ⟨-, hr⟩
      · have hfind : c.world.sessions.find? (fun s => s.tokenHash = hash) = some s :=
          (Except.ok.inj hr).symm
        exact later (h.sessions s (mem_of_find?_eq_some hfind))
      · cases hr
  · -- the clock that has just been read is the clock
    intro t th' cl' now hash s hth' hpend' hpast'
    rcases hs.thread hth' with hold | ⟨r, -, -, rfl⟩ | ⟨th, cl, k, r, hth, hrest, rfl, hreply⟩
    · exact (h.timed t th' cl' now hash s hold hpend' hpast').imp_right fun hp => hp.step hs
    · cases hpast'
    · obtain ⟨heq, hpast⟩ := cons_eq_cons.mp hpast'
      cases heq
      have hpend := pending_of_call hrest
      rcases hreply with ⟨-, hr⟩ | ⟨-, hr⟩
      · obtain rfl : now = c.world.clock := hr
        exact (h.fetched t th _ hash s hth hpend hpast).imp_right fun hp => hp.step hs
      · cases hr

/-- **A row that has just been verified, alone, is held**: the session that verified it is proven,
no other is usable, and no other request has begun. -/
theorem held_of_marked (hc : Reachable Init ok c) (hc' : Reachable Init ok c')
    {user : AdminUser} (hth : c.threads[t]? = some th) (hpend : th.pending = some (.update user))
    (hmark : user.totpVerified) (hid : user.id = c.world.admin.id)
    (halone : Alone c (.act t)) (hs : Step c (.act t) c')
    (henc' : c'.world.admin.totpSecretEnc = user.totpSecretEnc)
    (hid' : c'.world.admin.id = c.world.admin.id) : ∃ secret, Held c' secret := by
  obtain ⟨hidle, hsessions⟩ := halone t th user rfl hth hpend hmark
  obtain ⟨-, a, hreads, haid, -, hverify⟩ := conduct_of_reachable hc hth hpend
  obtain ⟨henc, hreq, secret, hacc⟩ := hverify hmark
  -- nobody is under way after the step
  have silent : ∀ {u : ℕ} {tu : Thread (adminGateway cfg)} {cl : AdminCall},
      c'.threads[u]? = some tu → tu.pending = some cl → tu.past = [] := by
    intro u tu cl htu hcl
    rcases hs.thread htu with hold | ⟨r, hl, -⟩ | ⟨th₁, cl₁, k, r, hth₁, hrest, rfl, hreply⟩
    · by_cases hut : u = t
      · subst hut
        -- the thread that wrote has said more than before
        obtain ⟨th₂, hth₂, -, hsuf⟩ := hs.past hth
        obtain rfl := mem_unique hold hth
        exfalso
        cases hs with
        | @act _ th₃ cl₃ k hth₃ =>
          obtain rfl := mem_unique hth hth₃
          have hlt : u < c.threads.length := (List.getElem?_eq_some_iff.mp hth).1
          have hset := htu.symm.trans (getElem?_set_self hlt)
          have hlen := congrArg (fun th => th.past.length)
            (some.inj hset)
          simp [resume] at hlen
      · rcases hidle u tu hold hut with hnone | hnil
        · rw [hnone] at hcl
          cases hcl
        · exact hnil
    · cases hl
    · have hlabel : u = t := by
        rcases hreply with ⟨hl, -⟩ | ⟨hl, -⟩
        · cases hl
          rfl
        · cases hl
      subst hlabel
      obtain rfl := mem_unique hth hth₁
      obtain rfl : cl₁ = .update user := by
        simp only [pending, hrest] at hpend
        exact some.inj hpend
      -- it has written the row back, and makes no further call
      exact absurd mem_cons_self ((conduct_of_reachable hc' htu hcl).1 user r)
  have proven : ∀ {sid : UUID}, (∃ hash session, session.id = sid ∧
      ⟨.getByTokenHash hash, .ok (some session)⟩ ∈ th.past) → Proven c' sid secret := by
    intro sid hfetched
    exact Proven.step ⟨t, th, a, hth, hreads, hacc, .inr ⟨hreq, hfetched⟩⟩ hs
  refine ⟨secret, ?_, ?_, ?_, ?_, ?_⟩
  · rw [henc', hid', henc, ← hid, haid]
    exact hacc.1
  · intro s hmem
    cases hs with
    | @act _ th₁ cl k hth₁ hrest =>
      obtain rfl := mem_unique hth hth₁
      obtain rfl : cl = .update user := by
        simp only [pending, hrest] at hpend
        exact some.inj hpend
      rcases sessions_answer hmem with hold | hrevoked | heq
      · rcases hsessions s hold with hun | hfetched
        · exact .inl (hun.mono (le_of_eq (id_answer).2.symm))
        · exact .inr (proven hfetched)
      · exact .inl (.inl hrevoked)
      · cases heq
  · intro u tu cl b htu hcl hb
    rw [silent htu hcl] at hb
    rcases hb with ⟨_, hmem⟩ | ⟨_, hmem⟩ <;> cases hmem
  · intro u tu cl hash s htu hcl hpast
    rw [silent htu hcl] at hpast
    cases hpast
  · intro u tu cl now hash s htu hcl hpast
    rw [silent htu hcl] at hpast
    cases hpast

/-- **In every run whose enrolments complete alone, the invariant holds.** -/
theorem perSession_of_reachable (hc : Reachable Unopened Alone c) : PerSession c := by
  refine hc.induct ?_ ?_
  · rintro w ⟨hsessions, hopens⟩
    have nobody : ∀ {t : ℕ} {th : Thread (adminGateway cfg)},
        ([] : List (Thread (adminGateway cfg)))[t]? = some th → False := by
      rintro t th ⟨⟩
    refine ⟨fun t th s a hth => (nobody hth).elim, fun hv => ?_⟩
    obtain ⟨secret, hsecret⟩ := hopens hv
    refine ⟨secret, hsecret, ?_, fun t th cl a hth => (nobody hth).elim,
      fun t th cl hash s hth => (nobody hth).elim,
      fun t th cl now hash s hth => (nobody hth).elim⟩
    intro s hs
    change s ∈ w.sessions at hs
    rw [hsessions] at hs
    cases hs
  intro c l c' hc ih hok hs
  refine ⟨fun t th s a => admitted_step hc ih hs, fun hv' => ?_⟩
  have hc' : Reachable Unopened Alone c' := hc.run (.snoc (.refl c) hok hs)
  have hid : c'.world.admin.id = c.world.admin.id := by
    cases hs with
    | act => exact (id_answer).1
    | _ => rfl
  -- a step that leaves the enrolment alone
  have quiet : c'.world.admin.totpSecretEnc = c.world.admin.totpSecretEnc →
      c'.world.admin.totpVerified = c.world.admin.totpVerified → ∃ secret, Held c' secret := by
    intro henc hver
    have hv : c.world.admin.totpVerified := hver.symm.trans hv'
    obtain ⟨secret, hheld⟩ := ih.held hv
    exact ⟨secret, hheld.step hc hv hs henc hid⟩
  cases hs with
  | spawn | fault | nudge => exact quiet rfl rfl
  | @act t th cl k hth hrest hfree =>
    rcases enrolment_answer cl c.world with ⟨henc, hver⟩ | ⟨user, rfl, huid, henc, hver⟩
    · exact quiet henc hver
    · have hpend := pending_of_call hrest
      exact held_of_marked hc hc' hth hpend (hver.symm.trans hv') huid hok (.act hth hrest hfree)
        henc hid

end Steps

/-! ### What passes the middleware -/

/-- The request has passed the middleware to a route outside of the enrolment. -/
def Passed (th : Thread (adminGateway cfg)) : Prop :=
  (∃ auth path, th.req = .other auth path ∧ isTOTPSetupPath path = false ∧
    th.result = some .passed) ∨
  ∃ id, th.pending = some (.revokeSession id) ∨ ∃ r, ⟨.revokeSession id, r⟩ ∈ th.past

/-- What has passed was behind the middleware with a verified row. -/
theorem Passed.behind {Init : AdminWorld → Prop}
    {ok : Config (adminGateway cfg) → Label (adminGateway cfg) → Prop} (hc : Reachable Init ok c)
    {th : Thread (adminGateway cfg)} (hth : c.threads[t]? = some th) (hpass : Passed th) :
    ∃ session a, Behind th.past session a ∧ a.totpVerified := by
  obtain ⟨hconf, hobeys⟩ := hc.obeys (fun _ _ _ _ => trivial) (fun _ _ _ _ => trivial) hth
    (program_conduct cfg th.req)
  rcases hpass with ⟨auth, path, hreq, hpath, hres⟩ | ⟨id, hpend | ⟨r, hmem⟩⟩
  · have hended : Ended th.req th.past .passed :=
      hc.ends_history hth (program_conduct cfg th.req) hres
    obtain ⟨_, _, session, a, hreq', hbehind, hgate⟩ := hended rfl
    rw [hreq] at hreq'
    cases hreq'
    refine ⟨session, a, hbehind, hgate.resolve_right fun h => ?_⟩
    rw [hpath] at h
    cases h
  · exact (conduct_of_reachable hc hth hpend).2
  · obtain ⟨earlier, ⟨-, session, a, ⟨⟨hash, hs⟩, aid, ha⟩, hv⟩, hsub⟩ :=
      Discipline.allows_of_mem hconf hmem
    exact ⟨session, a, ⟨⟨hash, hsub hs⟩, aid, hsub ha⟩, hv⟩

/-- **The second factor is per session**, in every run whose enrolments complete alone: what passes
the middleware to a route outside of the enrolment holds a session in which a code of the verified
secret was accepted, at its login or by a verification of its own. -/
theorem second_factor_per_session (hc : Reachable Unopened Alone c) {t : ℕ}
    {th : Thread (adminGateway cfg)} (hth : c.threads[t]? = some th) (hpass : Passed th) :
    ∃ session a secret, Behind th.past session a ∧ a.totpVerified ∧
      decryptTOTPSecret a.id a.totpSecretEnc = some secret ∧ Proven c session.id secret := by
  obtain ⟨session, a, hbehind, hv⟩ := hpass.behind hc hth
  obtain ⟨secret, hsecret, hproven⟩ :=
    (perSession_of_reachable hc).admitted t th session a hth hbehind hv
  exact ⟨session, a, secret, hbehind, hv, hsecret, hproven⟩

namespace Sample

/-- Before the first login of an operator who has not enrolled. -/
def firstDay : AdminWorld := ⟨operator, [], 3000000000000, 10⟩

/-- The enrolled operator logs in with a code, and asks for a route. -/
def served : Config (adminGateway settings) :=
  (execAll unwrittenTest ⟨enrolledWorld, []⟩
    ([.spawn (AdminReq.login "root" "hunter2" "000000")] ++ .replicate 9 (.act 0) ++
      [.spawn (AdminReq.other (.bearer 10) "/admin/users")] ++ .replicate 3 (.act 1))).getD
      ⟨enrolledWorld, []⟩

theorem alone_of_test (c : Config (adminGateway settings)) (l : Label (adminGateway settings))
    (h : unwrittenTest c l) : Alone c l := by
  intro t th user hl hth hpend
  subst hl
  have hp := (Config.pending_eq hth).trans hpend
  simp [unwrittenTest, hp] at h

/-- The request passes, and its session is proven by the login. -/
theorem code_session_admitted :
    served.threads.map Thread.result =
      [some (.loggedIn 10 6600000000000 false), some .passed] ∧
    ∃ th, served.threads[1]? = some th ∧ ∃ session a secret, Behind th.past session a ∧
      a.totpVerified ∧ decryptTOTPSecret a.id a.totpSecretEnc = some secret ∧
      Proven served session.id secret := by
  have hc : Reachable Unopened Alone served :=
    ⟨enrolledWorld, ⟨rfl, fun _ => ⟨7, rfl⟩⟩, run_execAll alone_of_test _ _⟩
  obtain ⟨th, hth, hreq, hres⟩ : ∃ th, served.threads[1]? = some th ∧
      th.req = .other (.bearer 10) "/admin/users" ∧ th.result = some .passed := ⟨_, rfl, rfl, rfl⟩
  have hpath : isTOTPSetupPath "/admin/users" = false := by decide +kernel
  exact ⟨rfl, th, hth, second_factor_per_session hc hth (.inl ⟨_, _, hreq, hpath, hres⟩)⟩

/-- Two sessions are opened with the password alone; the second one enrols an authenticator; then
the first one asks for a route. -/
def intruded : Config (adminGateway settings) :=
  (execAll (fun _ _ => true) ⟨firstDay, []⟩
    ([.spawn (AdminReq.login "root" "hunter2" "")] ++ .replicate 7 (.act 0) ++
      [.spawn (AdminReq.login "root" "hunter2" "")] ++ .replicate 7 (.act 1) ++
      [.spawn (AdminReq.totpSetup (.bearer 12))] ++ .replicate 6 (.act 2) ++
      [.spawn (AdminReq.totpVerify (.bearer 12) "000000")] ++ .replicate 6 (.act 3) ++
      [.spawn (AdminReq.other (.bearer 10) "/admin/users")] ++ .replicate 3 (.act 4))).getD
      ⟨firstDay, []⟩

/-- The conversation has had a code accepted, and has opened or been let in with the session. -/
def provesTest (sid : UUID) (past : List (Event adminSig)) : Bool :=
  past.any (fun e => match e with
    | ⟨.updateLastTOTPCounter _ _, .ok _⟩ => true
    | _ => false) &&
  past.any fun e => match e with
    | ⟨.createSession session, _⟩ => session.id == sid
    | ⟨.getByTokenHash _, .ok (some session)⟩ => session.id == sid
    | _ => false

theorem provesTest_of_proven {c : Config (adminGateway settings)} {sid : UUID}
    (h : Proven c sid secret) : (c.threads.any fun th => provesTest sid th.past) := by
  obtain ⟨t, th, a, hth, -, ⟨-, now, counter, -, -, hmem⟩, hsession⟩ := h
  refine any_eq_true.mpr ⟨th, mem_of_getElem? hth, Bool.and_eq_true_iff.mpr
    ⟨any_eq_true.mpr ⟨_, hmem, rfl⟩, ?_⟩⟩
  rcases hsession with ⟨s, hs, hmem⟩ | ⟨-, hash, s, hs, hmem⟩
  · exact any_eq_true.mpr ⟨_, hmem, beq_iff_eq.mpr hs⟩
  · exact any_eq_true.mpr ⟨_, hmem, beq_iff_eq.mpr hs⟩

/-- **A session of the password alone is let through**, since another one has enrolled: no code was
ever accepted in it. -/
theorem password_session_admitted :
    Reachable Unopened anyStep intruded ∧
    ∃ th session, intruded.threads[4]? = some th ∧ Passed th ∧ session.id = 11 ∧
      ⟨.getByTokenHash ⟨10⟩, .ok (some session)⟩ ∈ th.past ∧
      ∀ secret, ¬ Proven intruded session.id secret := by
  refine ⟨⟨firstDay, ⟨rfl, nofun⟩, run_execAll (fun _ _ _ => trivial) _ _⟩, ?_⟩
  obtain ⟨th, session, hth, hreq, hres, hid, hmem⟩ : ∃ th session, intruded.threads[4]? = some th ∧
      th.req = .other (.bearer 10) "/admin/users" ∧ th.result = some .passed ∧ session.id = 11 ∧
      th.past[2]? = some ⟨.getByTokenHash ⟨10⟩, .ok (some session)⟩ :=
    ⟨_, _, rfl, rfl, rfl, rfl, rfl⟩
  have hpath : isTOTPSetupPath "/admin/users" = false := by decide +kernel
  refine ⟨th, session, hth, .inl ⟨_, _, hreq, hpath, hres⟩, hid, List.mem_of_getElem? hmem, ?_⟩
  intro secret hproven
  have htest := provesTest_of_proven hproven
  rw [hid] at htest
  revert htest
  decide +kernel

end Sample

end Vault42.Admin
