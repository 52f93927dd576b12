import Vault42.Service.Clerical
import Vault42.Service.PasswordReset

/-!
# One reset link at a time

Every mint of a link and every password change begins by taking the account's pointer
`pwreset_user:U` and dropping the link it points at. That makes a *section* of each of them: from
the taking of the pointer to the writing of the new one, or to the end of the change. What the cache
then holds for the account depends on where in its section the thread is (`Stage`), and outside of
every section the account has at most the link its pointer points at, with a pointer that lives as
long as the link does (`Pointed`).

The source does not keep two sections of one account apart. Two mints that both find no pointer
store two links, the pointer names one of them, and the other can be redeemed for its hour, whatever
password is set in the meantime (`Sample.reset_links_overlap`). As long as the sections of an
account do not overlap (`apart`), there is one link at most, and a password change leaves none.

Main declarations:

* `linking`, the discipline of the sections, and `serve_linking`;
* `Recedes`: what every step outside the sections does to the links of an account;
* `Links`, the invariant, and `one_reset_link`.
-/

namespace Vault42

open Framework Program Option PasswordHandler Duration

/-! ### Sections -/

/-- Where a thread is in the section of an account. -/
inductive Stage where
  | idle
  /-- It took the pointer, and has yet to drop the link the pointer named. -/
  | retiring (u : UserID) (h : TokenHash)
  /-- No link of the account is left. -/
  | cleared (u : UserID)
  /-- It stored a link the pointer does not name yet. -/
  | minted (u : UserID) (h : TokenHash)
deriving DecidableEq

/-- The account whose section it is. -/
def Stage.of : Stage → Option UserID
  | idle => none
  | retiring u _ => some u
  | cleared u => some u
  | minted u _ => some u

/-- What a conversation says about reset links. -/
structure Linking where
  stage : Stage
  /-- A random value that was drawn and not stored as a token so far. -/
  token : Option ℕ
  /-- The links it stored. -/
  stored : List (UserID × TokenHash)
  /-- The accounts whose password it has changed, to the last step of the change. -/
  changed : List UserID

namespace Linking

def start : Linking := ⟨.idle, none, [], []⟩

def next (φ : Linking) : (c : Call) → c.Reply → Linking
  | .random, x => { φ with token := some x }
  | .cacheGetAndDelete (.pwresetUser u), .ok (some (.digest h)) =>
    { φ with stage := .retiring u h }
  | .cacheGetAndDelete (.pwresetUser u), _ => { φ with stage := .cleared u }
  | .cacheDelete (.reset _), _ =>
    match φ.stage with
    | .retiring u _ => { φ with stage := .cleared u }
    | _ => φ
  | .cacheSet (.reset h) (.user u) _, _ =>
    { φ with stage := .minted u h, token := none, stored := (u, h) :: φ.stored }
  | .cacheSet (.pwresetUser _) _ _, _ => { φ with stage := .idle }
  -- the last call of `updatePassword`
  | .cacheDelete (.confirm u), _ => { φ with stage := .idle, changed := u :: φ.changed }
  | _, _ => φ

/-- The calls on the keys of a link come in the order of a section. -/
def Allows (φ : Linking) : Call → Prop
  | .cacheGetAndDelete (.pwresetUser _) => φ.stage = .idle
  | .cacheDelete (.reset h) => ∃ u, φ.stage = .retiring u h
  | .cacheDelete (.confirm u) => φ.stage = .cleared u
  | .cacheDelete (.pwresetUser _) => False
  | .cacheSet (.reset h) v ttl =>
    ∃ u, φ.stage = .cleared u ∧ v = .user u ∧ ttl = hour ∧ φ.token = some h.ofToken
  | .cacheSet (.pwresetUser u) v ttl =>
    ∃ h, φ.stage = .minted u h ∧ v = .digest h ∧ ttl = hour
  | .cacheSet _ _ _ => False
  | .cacheSetIfNotExists (.importClaimSent _) _ _ => True
  | .cacheSetIfNotExists (.forcedResetSent _) _ _ => True
  | .cacheSetIfNotExists _ _ _ => False
  | .cacheIncrement (.lockoutGeneration _) _ => True
  | .cacheIncrement _ _ => False
  | _ => True

/-- The cache takes what it is told to write. -/
def Admits : (c : Call) → c.Reply → Prop
  | .cacheGetAndDelete _, r => ∃ v, r = .ok v
  | .cacheDelete _, r => r = .ok ()
  | .cacheSet _ _ _, r => r = .ok ()
  | _, _ => True

end Linking

/-- **The discipline of sections.** -/
def linking : Discipline vault where
  Phase := Linking
  start := .start
  Allows := Linking.Allows
  Admits := fun _ => Linking.Admits
  next := Linking.next

/-- The calls that are nothing to a link. -/
def Unlinked : Call → Prop
  | .random => False
  | .cacheSet _ _ _ => False
  | .cacheDelete _ => False
  | .cacheGetAndDelete _ => False
  | .cacheSetIfNotExists _ _ _ => False
  | .cacheIncrement _ _ => False
  | _ => True

theorem ignores_unlinked : linking.Ignores Unlinked := by
  intro φ c hc
  cases c with
  | random | cacheSet | cacheDelete | cacheGetAndDelete | cacheSetIfNotExists | cacheIncrement =>
    cases hc
  | _ => exact ⟨trivial, fun _ => rfl⟩

/-! ### The programs keep to it -/

section Programs

variable {φ : Linking} {cfg : Settings}

/-- A call that is nothing to a link, at the head of a sequence. -/
theorem linking_ask_bind {α : Type} {c : Call} {f : c.Reply → Prog α}
    {Q : linking.Phase → α → Prop} (hc : Unlinked c) (hf : ∀ r, (f r).Obeys linking Q φ) :
    (ask c >>= f).Obeys linking Q φ :=
  (Within.call hc).obeys_bind ignores_unlinked hf

theorem linking_auditLog_bind {α : Type} {kind : AuditKind} {u : UserID} {reason : String}
    {p : Prog α} {Q : linking.Phase → α → Prop} (hp : p.Obeys linking Q φ) :
    (auditLog kind u reason >>= fun _ => p).Obeys linking Q φ :=
  linking_ask_bind trivial fun _ => hp

/-- A mint begins with the link before it gone. -/
theorem retireLink_linking (u : UserID) (hφ : φ.stage = .idle) :
    (retireLink u).Obeys linking (fun ψ _ => ψ = { φ with stage := .cleared u }) φ := by
  refine .call hφ fun r hr => ?_
  obtain ⟨v, rfl⟩ : ∃ v, r = .ok v := hr
  cases v with
  | none => exact rfl
  | some v =>
    cases v with
    | digest => exact .call ⟨u, rfl⟩ fun _ _ => rfl
    | _ => exact rfl

theorem storeLink_linking (u : UserID) {token : ℕ} (hcache : cfg.hasCache)
    (hφ : φ.stage = .idle) (htok : φ.token = some token) :
    (storeLink cfg u token).Obeys linking (fun ψ _ => ψ.stage = .idle) φ := by
  unfold storeLink
  rw [if_pos hcache]
  refine (retireLink_linking u hφ).bind ?_
  rintro _ _ rfl
  refine .call ⟨u, rfl, rfl, rfl, htok⟩ fun _ _ => ?_
  exact .call ⟨sha256Hex token, rfl, rfl, rfl⟩ fun _ _ => rfl

theorem resetRequest_linking (email : String) (hcache : cfg.hasCache)
    (hφ : φ.stage = .idle) :
    (resetRequest cfg email).Obeys linking (fun ψ _ => ψ.stage = .idle) φ := by
  unfold resetRequest
  split
  · exact hφ
  refine linking_ask_bind trivial fun _ => ?_
  refine .call trivial fun token _ => ?_
  refine linking_ask_bind trivial fun found => ?_
  match found with
  | .error _ | .ok none => exact hφ
  | .ok (some user) =>
    refine .ite hφ ?_
    have hstore := storeLink_linking (φ := linking.next φ .random token) user.id hcache hφ rfl
    refine hstore.bind fun ψ _ hψ => ?_
    refine .ite ?_ (linking_auditLog_bind hψ)
    exact linking_ask_bind trivial fun _ => linking_auditLog_bind hψ

theorem mailResetLink_linking (kind : AuthService.ResetLinkKind) (u : UserID)
    (hφ : φ.stage = .idle) :
    (AuthService.mailResetLink kind u).Obeys linking (fun ψ _ => ψ.stage = .idle) φ := by
  have hreserve : linking.Allows φ
      (.cacheSetIfNotExists (kind.reserveKey u) (.count 1) importClaimTTL) := by
    cases kind <;> trivial
  refine .call hreserve fun reserved _ => ?_
  match reserved with
  | .error _ | .ok false => exact hφ
  | .ok true =>
    refine (retireLink_linking u hφ).bind ?_
    rintro _ _ rfl
    refine .call trivial fun token _ => ?_
    refine .call ⟨u, rfl, rfl, rfl, rfl⟩ fun r hr => ?_
    obtain rfl : r = .ok () := hr
    refine .call ⟨sha256Hex token, rfl, rfl, rfl⟩ fun _ _ => ?_
    exact obeys_perform trivial fun _ _ => rfl

theorem dropPending_linking (u : UserID) (hcache : cfg.hasCache) (hφ : φ.stage = .idle) :
    (dropPending cfg u).Obeys linking
      (fun ψ _ => ψ.stage = .idle ∧ ψ.changed ≠ []) φ := by
  unfold dropPending
  rw [if_pos hcache]
  refine .call hφ fun r hr => ?_
  obtain ⟨v, rfl⟩ : ∃ v, r = .ok v := hr
  have hlast : ∀ {ψ : Linking}, ψ.stage = .cleared u →
      (ask (.cacheDelete (.confirm u)) >>= fun _ => (pure () : Prog Unit)).Obeys linking
        (fun ψ _ => ψ.stage = .idle ∧ ψ.changed ≠ []) ψ := by
    intro ψ hψ
    exact .call hψ fun _ _ => ⟨rfl, List.cons_ne_nil _ _⟩
  cases v with
  | none => exact hlast rfl
  | some v =>
    cases v with
    | digest => exact .call ⟨u, rfl⟩ fun _ _ => hlast rfl
    | _ => exact hlast rfl

/-- How a password change ends: out of its section, and if it succeeds it has been through it. -/
def Linking.Ended {ε : Type} (ψ : Linking) (r : Except ε Unit) : Prop :=
  ψ.stage = .idle ∧ (r = .ok () → ψ.changed ≠ [])

theorem refusal_linking {ε : Type} {e : ε} (hφ : φ.stage = .idle) :
    (pure (.error e) : Prog (Except ε Unit)).Obeys linking Linking.Ended φ :=
  ⟨hφ, nofun⟩

theorem updatePassword_linking (u : UserID) (password : String) (hcache : cfg.hasCache)
    (hφ : φ.stage = .idle) :
    (updatePassword cfg u password).Obeys linking Linking.Ended φ := by
  unfold updatePassword breached
  have hbreach : (if cfg.hibpEnabled then ask (.isBreached password) else pure false).Within
      Unlinked := .ite (.call trivial) trivial
  refine hbreach.obeys_bind ignores_unlinked fun b => ?_
  refine .ite (refusal_linking hφ) ?_
  refine linking_ask_bind trivial fun history => ?_
  refine (reused_within (fun _ _ => trivial) password _).obeys_bind ignores_unlinked fun b => ?_
  refine .ite (refusal_linking hφ) ?_
  refine linking_ask_bind trivial fun hash => ?_
  match hash with
  | none => exact refusal_linking hφ
  | some hash =>
    refine linking_ask_bind trivial fun stored => ?_
    match stored with
    | .error _ | .ok false => exact refusal_linking hφ
    | .ok true =>
      refine linking_ask_bind trivial fun _ => ?_
      refine (lockThenWrite_within (fun _ _ => trivial) (.user u)).obeys_bind ignores_unlinked
        fun b => ?_
      cases b with
      | false => exact refusal_linking hφ
      | true =>
        refine (dropPending_linking u hcache hφ).bind ?_
        rintro ψ - ⟨hidle, hchanged⟩
        exact ⟨hidle, fun _ => hchanged⟩

theorem finishReset_linking (user : User) (hφ : φ.stage = .idle) (hchanged : φ.changed ≠ []) :
    (finishReset cfg user).Obeys linking Linking.Ended φ := by
  have done : ∀ r : Except PasswordError Unit, (pure r : Prog _).Obeys linking Linking.Ended φ :=
    fun r => ⟨hφ, fun _ => hchanged⟩
  have lifted : (liftForcedReset user).Obeys linking Linking.Ended φ := by
    refine .ite (linking_ask_bind trivial fun r => ?_) (linking_auditLog_bind (done _))
    match r with
    | .error e => exact done _
    | .ok () => exact linking_auditLog_bind (linking_auditLog_bind (done _))
  have cleared : (clearAccountLockout cfg user.id).Obeys linking (fun ψ _ => ψ = φ) φ := by
    refine .ite rfl ?_
    refine .call trivial fun r hr => ?_
    obtain rfl : r = .ok () := hr
    refine .call trivial fun r _ => ?_
    cases r <;> exact rfl
  unfold finishReset
  refine cleared.bind ?_
  rintro _ _ rfl
  refine linking_ask_bind trivial fun _ => ?_
  refine .ite (linking_ask_bind trivial fun r => ?_) lifted
  match r with
  | .error e => exact done _
  | .ok () => exact lifted

theorem resetConfirm_linking (minLength token : ℕ) (password : String)
    (hcache : cfg.hasCache) (hφ : φ.stage = .idle) :
    (resetConfirm cfg minLength token password).Obeys linking Linking.Ended φ := by
  refine .ite (refusal_linking hφ) (.ite (refusal_linking hφ) ?_)
  refine .call trivial fun r hr => ?_
  obtain ⟨v, rfl⟩ : ∃ v, r = .ok v := hr
  cases v with
  | none => exact refusal_linking hφ
  | some v =>
    cases v with
    | user =>
      refine .ite (refusal_linking hφ) ?_
      refine linking_ask_bind trivial fun found => ?_
      match found with
      | .error _ | .ok none => exact refusal_linking hφ
      | .ok (some user) =>
        refine .ite (refusal_linking hφ) ?_
        refine (updatePassword_linking user.id password hcache hφ).bind ?_
        rintro ψ r ⟨hidle, hchanged⟩
        match r with
        | .error e => exact refusal_linking hidle
        | .ok () => exact finishReset_linking user hidle (hchanged rfl)
    | _ => exact refusal_linking hφ

theorem changePassword_linking (minLength : ℕ) (subject : UserID)
    (currentPassword newPassword : String) (hcache : cfg.hasCache) (hφ : φ.stage = .idle) :
    (changePassword cfg minLength subject currentPassword newPassword).Obeys linking
      Linking.Ended φ := by
  refine .ite (refusal_linking hφ) ?_
  refine linking_ask_bind trivial fun found => ?_
  match found with
  | .error _ | .ok none => exact refusal_linking hφ
  | .ok (some user) =>
    refine linking_ask_bind trivial fun r => ?_
    match r with
    | .overloaded | .malformed | .verified false => exact refusal_linking hφ
    | .verified true =>
      refine (updatePassword_linking user.id newPassword hcache hφ).bind ?_
      rintro ψ r ⟨hidle, hchanged⟩
      match r with
      | .error e => exact refusal_linking hidle
      | .ok () => exact linking_auditLog_bind ⟨hidle, fun _ => hchanged rfl⟩

/-- What a request that has been served knows: it is out of its section, and a password change that
succeeded has been through it. -/
def Linking.post (req : ResetReq) (ψ : Linking) (r : Except PasswordError Unit) : Prop :=
  ψ.stage = .idle ∧ (req.setsPassword → r = .ok () → ψ.changed ≠ [])

/-- **Every request keeps to its section.** -/
theorem serve_linking (hcache : cfg.hasCache) (minLength : ℕ) (req : ResetReq) :
    (req.serve cfg minLength).Obeys linking (Linking.post req) linking.start := by
  cases req with
  | request email =>
    exact (resetRequest_linking email hcache rfl).mono fun ψ r h => ⟨h, nofun⟩
  | link kind u =>
    exact (mailResetLink_linking kind u rfl).bind fun ψ _ h => ⟨h, nofun⟩
  | confirm token password =>
    exact (resetConfirm_linking minLength token password hcache rfl).mono
      fun ψ r h => ⟨h.1, fun _ => h.2⟩
  | change subject currentPassword newPassword =>
    exact (changePassword_linking minLength subject currentPassword newPassword hcache rfl).mono
      fun ψ r h => ⟨h.1, fun _ => h.2⟩

end Programs

/-! ### The links of an account -/

/-- `ResetConfirm` would redeem the link for the account. -/
def Redeemable (w : World) (u : UserID) (h : TokenHash) : Prop :=
  w.cache.get w.clock (.reset h) = some (.user u)

/-- The account has at most the link its pointer names, and the pointer outlives it. -/
def Pointed (w : World) (u : UserID) : Prop :=
  ∀ h, Redeemable w u h → ∃ e e', w.cache.slot (.reset h) = some e ∧
    w.cache.slot (.pwresetUser u) = some e' ∧ e'.value = .digest h ∧
    ∀ t, w.clock ≤ t → e.expired t = false → e'.expired t = false

/-- What the cache holds for an account whose section a thread is in. -/
def Stands (w : World) : Stage → Prop
  | .idle => True
  | .retiring u h => ∀ h', Redeemable w u h' → h' = h
  | .cleared u => ∀ h, ¬ Redeemable w u h
  | .minted u h => (∀ h', Redeemable w u h' → h' = h) ∧
      (w.cache.slot (.reset h)).ExpiresBy (w.clock + hour)

/-- **What a step outside the sections of an account does to its links**: none is added, and the
pointer stays as long as it can be read. -/
structure Recedes (u : UserID) (w w' : World) : Prop where
  clock : w.clock ≤ w'.clock
  link : ∀ h, Redeemable w' u h →
    Redeemable w u h ∧ w'.cache.slot (.reset h) = w.cache.slot (.reset h)
  pointer : ∀ e, w.cache.slot (.pwresetUser u) = some e → e.expired w'.clock = false →
    w'.cache.slot (.pwresetUser u) = some e
  span : ∀ h, (w.cache.slot (.reset h)).ExpiresBy (w.clock + Duration.hour) →
    (w'.cache.slot (.reset h)).ExpiresBy (w'.clock + Duration.hour)

section Recedes

variable {u : UserID} {w w' : World} {h : TokenHash}

theorem redeemable_iff : Redeemable w u h ↔ ∃ e, w.cache.slot (.reset h) = some e ∧
    e.value = .user u ∧ e.expired w.clock = false := by
  unfold Redeemable MemoryCache.get Slot.read
  cases w.cache.slot (.reset h) with
  | none => simp
  | some e =>
    cases hx : e.expired w.clock <;> simp [hx]

theorem Recedes.pointed (h : Recedes u w w') (hp : Pointed w u) : Pointed w' u := by
  intro h' hred
  obtain ⟨hold, hslot⟩ := h.link h' hred
  obtain ⟨e, e', he, he', hval, hspan⟩ := hp h' hold
  obtain ⟨e₁, he₁, -, hlive⟩ := redeemable_iff.mp hred
  obtain rfl : e = e₁ := some.inj (he.symm.trans (hslot.symm.trans he₁))
  exact ⟨e, e', he₁, h.pointer e' he' (hspan _ h.clock hlive), hval,
    fun t ht => hspan t (h.clock.trans ht)⟩

/-- What a section left stands as long as the account's links only recede. -/
theorem Stands.recede {st : Stage} (hst : Stands w st)
    (h : ∀ u, st.of = some u → Recedes u w w') : Stands w' st := by
  cases st with
  | idle => trivial
  | retiring u | cleared u => exact fun h' hred => hst h' ((h u rfl).link h' hred).1
  | minted u k => exact ⟨fun h' hred => hst.1 h' ((h u rfl).link h' hred).1, (h u rfl).span k hst.2⟩

/-- A step that touches no key of a link. -/
theorem recedes_of_slots (hclock : w'.clock = w.clock)
    (hlinks : ∀ h, w'.cache.slot (.reset h) = w.cache.slot (.reset h))
    (hpointer : w'.cache.slot (.pwresetUser u) = w.cache.slot (.pwresetUser u)) :
    Recedes u w w' where
  clock := hclock.ge
  link h hred := by
    refine ⟨?_, hlinks h⟩
    unfold Redeemable MemoryCache.get at hred ⊢
    rw [← hlinks h, ← hclock]
    exact hred
  pointer e he _ := hpointer.trans he
  span h hs := by rw [hlinks h, hclock]; exact hs

theorem recedes_nudge (n : Nudge) : Recedes u w (nudge n w) := by
  cases n with
  | tick d =>
    refine ⟨?_, fun h hred => ⟨?_, rfl⟩, fun e he _ => he, fun h hs => hs.mono ?_⟩
    · show w.clock ≤ w.clock + d
      lia
    · obtain ⟨e, he, hval, hlive⟩ := redeemable_iff.mp hred
      refine redeemable_iff.mpr ⟨e, he, hval, ?_⟩
      rw [Bool.eq_false_iff] at hlive ⊢
      refine fun hx => hlive (e.expired_mono ?_ hx)
      show w.clock ≤ w.clock + d
      lia
    · show w.clock + hour ≤ w.clock + d + hour
      lia
  | sweepCache =>
    have hslot : ∀ k, (nudge .sweepCache w).cache.slot k = (w.cache.slot k).swept w.clock :=
      fun k => w.cache.slot_cleanup
    refine ⟨le_rfl, fun h hred => ?_, fun e he hlive => ?_, fun h hs => ?_⟩
    · obtain ⟨e, he, hval, hlive⟩ := redeemable_iff.mp hred
      rw [hslot] at he
      obtain ⟨hold, -⟩ := mem_filter_iff.mp he
      refine ⟨redeemable_iff.mpr ⟨e, hold, hval, hlive⟩, ?_⟩
      rw [hslot, he]
      exact hold.symm
    · rw [hslot, he]
      exact Slot.swept_some hlive
    · rw [hslot]
      exact hs.swept
  | addUser x =>
    have hsame : (nudge (.addUser x) w).cache = w.cache ∧
        (nudge (.addUser x) w).clock = w.clock := by
      simp only [nudge]
      split <;> exact ⟨rfl, rfl⟩
    refine recedes_of_slots hsame.2 (fun h => ?_) ?_ <;> rw [hsame.1]
  | editUser | enrol | setCodes | disconnect => exact recedes_of_slots rfl (fun _ => rfl) rfl

end Recedes

/-! ### What an answered call does to links -/

/-- **A step of a thread, as far as links go.** Most calls leave the phase alone; the others are the
steps of a section, in order. -/
inductive LinkStep (w : World) (φ : Linking) : World → Linking → Prop where
  | aside {w' : World} (hrec : ∀ u, Recedes u w w') (hsupply : w.supply ≤ w'.supply) :
      LinkStep w φ w' φ
  | draw {w' : World} (hrec : ∀ u, Recedes u w w') (hsupply : w'.supply = w.supply + 1) :
      LinkStep w φ w' { φ with token := some w.supply }
  /-- The pointer is taken, and names a link. -/
  | named {w' : World} {u : UserID} {h : TokenHash} {e : MemEntry CacheValue}
    (hidle : φ.stage = .idle)
      (hrec : ∀ v, v ≠ u → Recedes v w w') (hlinks : ∀ h, Redeemable w' u h → Redeemable w u h)
      (hpointer : w.cache.slot (.pwresetUser u) = some e) (hval : e.value = .digest h)
      (hsupply : w'.supply = w.supply) : LinkStep w φ w' { φ with stage := .retiring u h }
  /-- There is no pointer that could name a link. -/
  | unnamed {w' : World} {u : UserID} (hidle : φ.stage = .idle)
      (hrec : ∀ v, v ≠ u → Recedes v w w') (hlinks : ∀ h, Redeemable w' u h → Redeemable w u h)
      (hnone : ∀ e h, w.cache.slot (.pwresetUser u) = some e → e.value = .digest h →
        e.expired w.clock)
      (hsupply : w'.supply = w.supply) : LinkStep w φ w' { φ with stage := .cleared u }
  | dropped {w' : World} {u : UserID} {h : TokenHash} (hstage : φ.stage = .retiring u h)
      (hrec : ∀ v, Recedes v w w') (hgone : ¬ Redeemable w' u h) (hsupply : w'.supply = w.supply) :
      LinkStep w φ w' { φ with stage := .cleared u }
  | stored {w' : World} {u : UserID} {h : TokenHash} (hstage : φ.stage = .cleared u)
      (htoken : φ.token = some h.ofToken) (hrec : ∀ v, v ≠ u → Recedes v w w')
      (hlinks : ∀ h', Redeemable w' u h' → h' = h ∨ Redeemable w u h')
      (hspan : (w'.cache.slot (.reset h)).ExpiresBy (w'.clock + Duration.hour))
      (hsupply : w'.supply = w.supply) :
      LinkStep w φ w' { φ with stage := .minted u h, token := none, stored := (u, h) :: φ.stored }
  | pointed {w' : World} {u : UserID} {h : TokenHash} (hstage : φ.stage = .minted u h)
      (hrec : ∀ v, v ≠ u → Recedes v w w') (hclock : w'.clock = w.clock)
      (hlinks : ∀ h', w'.cache.slot (.reset h') = w.cache.slot (.reset h'))
      (hpointer : w'.cache.slot (.pwresetUser u) =
        some ⟨.digest h, some (w.clock + Duration.hour)⟩)
      (hsupply : w'.supply = w.supply) : LinkStep w φ w' { φ with stage := .idle }
  | finished {w' : World} {u : UserID} (hstage : φ.stage = .cleared u)
      (hrec : ∀ v, Recedes v w w') (hsupply : w'.supply = w.supply) :
      LinkStep w φ w' { φ with stage := .idle, changed := u :: φ.changed }

section Answer

variable {w : World} {φ : Linking}

/-- Dropping a key: a link is gone with it, and a pointer that is not the key stays. -/
theorem recedes_delete {k : CacheKey} (hk : ∀ u, k ≠ .pwresetUser u) (u : UserID) :
    Recedes u w { w with cache := w.cache.delete k } where
  clock := le_rfl
  link h hred := by
    obtain ⟨e, he, hval, hlive⟩ := redeemable_iff.mp hred
    have hslot : (w.cache.delete k).slot (.reset h) = _ := w.cache.slot_delete
    have he' : (w.cache.delete k).slot (.reset h) = some e := he
    rw [he'] at hslot
    split at hslot
    · cases hslot
    · exact ⟨redeemable_iff.mpr ⟨e, hslot.symm, hval, hlive⟩, he'.trans hslot⟩
  pointer e he _ := (w.cache.slot_delete).trans ((if_neg (Ne.symm (hk u))).trans he)
  span h hs := by
    have hslot : (w.cache.delete k).slot (.reset h) = if .reset h = k then none else _ :=
      w.cache.slot_delete
    show ((w.cache.delete k).slot (.reset h)).ExpiresBy _
    rw [hslot]
    split
    · rintro e ⟨⟩
    · exact hs

/-- Taking a key that is no pointer. -/
theorem recedes_getAndDelete {k : CacheKey} (hk : ∀ u, k ≠ .pwresetUser u) (u : UserID) :
    Recedes u w { w with cache := (w.cache.getAndDelete w.clock k).2 } := by
  unfold MemoryCache.getAndDelete
  split
  · exact recedes_of_slots rfl (fun _ => rfl) rfl
  · exact recedes_delete hk u

variable {u : UserID}

/-- Taking the pointer of one account is nothing to another, and adds no link. -/
theorem recedes_takePointer {v : UserID} (hne : v ≠ u) :
    Recedes v w { w with cache := (w.cache.getAndDelete w.clock (.pwresetUser u)).2 } := by
  refine recedes_of_slots rfl (fun h => ?_) ?_
  · exact w.cache.slot_getAndDelete_ne (by simp)
  · exact w.cache.slot_getAndDelete_ne (by simpa using hne)

/-- The call that opens the section of an account. -/
theorem linkStep_takePointer (t : ℕ) (hidle : φ.stage = .idle) :
    LinkStep w φ (answer t (.cacheGetAndDelete (.pwresetUser u)) w).2
      (φ.next (.cacheGetAndDelete (.pwresetUser u))
        (answer t (.cacheGetAndDelete (.pwresetUser u)) w).1) := by
  have hlinks : ∀ h, Redeemable { w with
      cache := (w.cache.getAndDelete w.clock (.pwresetUser u)).2 } u h → Redeemable w u h := by
    intro h hred
    have hslot : (w.cache.getAndDelete w.clock (.pwresetUser u)).2.slot (.reset h) =
        w.cache.slot (.reset h) := w.cache.slot_getAndDelete_ne (by simp)
    unfold Redeemable MemoryCache.get at hred ⊢
    rw [← hslot]
    exact hred
  have hrec : ∀ v, v ≠ u → Recedes v w { w with
      cache := (w.cache.getAndDelete w.clock (.pwresetUser u)).2 } :=
    fun _ => recedes_takePointer
  -- what the pointer was read as
  have hreply : (answer t (.cacheGetAndDelete (.pwresetUser u)) w).1 =
      .ok ((w.cache.slot (.pwresetUser u)).read w.clock) := by
    simp only [answer, MemoryCache.getAndDelete, MemoryCache.get]
    split
    next h => rw [h]
    next h => rw [h]
  have hunnamed : (∀ h, (w.cache.slot (.pwresetUser u)).read w.clock ≠ some (.digest h)) →
      LinkStep w φ { w with cache := (w.cache.getAndDelete w.clock (.pwresetUser u)).2 }
        { φ with stage := .cleared u } := by
    intro hread
    refine .unnamed hidle hrec hlinks (fun e h he hval => ?_) rfl
    by_contra hlive
    rw [Bool.not_eq_true] at hlive
    refine hread h ?_
    rw [he, Slot.read, filter_some, hlive, ← hval]
    rfl
  show LinkStep w φ { w with cache := (w.cache.getAndDelete w.clock (.pwresetUser u)).2 } _
  rw [hreply]
  cases hread : (w.cache.slot (.pwresetUser u)).read w.clock with
  | none => exact hunnamed fun h hd => by cases hread.symm.trans hd
  | some v =>
    cases v with
    | digest =>
      obtain ⟨e, he, hval⟩ := map_eq_some_iff.mp hread
      exact .named hidle hrec hlinks (filter_eq_some_iff.mp he).1 hval rfl
    | _ => exact hunnamed fun h hd => by cases hread.symm.trans hd

theorem expiryOf_hour (now : Time) : expiryOf now hour = some (now + hour) :=
  if_pos (by decide)

theorem linkStep_store (t : ℕ) {h : TokenHash} (hstage : φ.stage = .cleared u)
    (htoken : φ.token = some h.ofToken) (hadm : w.cache.admits (.reset h)) :
    LinkStep w φ (answer t (.cacheSet (.reset h) (.user u) hour) w).2
      { φ with stage := .minted u h, token := none, stored := (u, h) :: φ.stored } := by
  have hslot : ∀ k, (answer t (.cacheSet (.reset h) (.user u) hour) w).2.cache.slot k =
      if k = .reset h then some ⟨.user u, expiryOf w.clock hour⟩ else w.cache.slot k :=
    fun k => MemoryCache.slot_set hadm
  -- what can be redeemed is the new link, or stood before
  have hlinks : ∀ v h', Redeemable (answer t (.cacheSet (.reset h) (.user u) hour) w).2 v h' →
      h' = h ∧ v = u ∨ h' ≠ h ∧ Redeemable w v h' := by
    intro v h' hred
    obtain ⟨e, he, hval, hlive⟩ := redeemable_iff.mp hred
    rw [hslot] at he
    by_cases hh : h' = h
    · subst hh
      rw [if_pos rfl] at he
      obtain rfl := some.inj he
      exact .inl ⟨rfl, (CacheValue.user.inj hval).symm⟩
    · rw [if_neg (by simpa using hh)] at he
      exact .inr ⟨hh, redeemable_iff.mpr ⟨e, he, hval, hlive⟩⟩
  have hspan : ((answer t (.cacheSet (.reset h) (.user u) hour) w).2.cache.slot
      (.reset h)).ExpiresBy (w.clock + hour) := by
    rw [hslot, if_pos rfl, expiryOf_hour]
    intro e he
    obtain rfl := some.inj he
    exact ⟨_, rfl, le_rfl⟩
  refine .stored hstage htoken (fun v hne => ?_) (fun h' hred => ?_) hspan rfl
  · refine ⟨le_rfl, fun h' hred => ?_, fun e he _ => ?_, fun h' hs => ?_⟩
    · obtain ⟨-, hv⟩ | ⟨hh, hold⟩ := hlinks v h' hred
      · exact absurd hv hne
      · exact ⟨hold, (hslot _).trans (if_neg (by simpa using hh))⟩
    · exact ((hslot _).trans (if_neg (by simp))).trans he
    · by_cases hh : h' = h
      · subst hh
        exact hspan
      · rw [hslot, if_neg (by simpa using hh)]
        exact hs
  · exact (hlinks u h' hred).imp And.left And.right

theorem linkStep_point (t : ℕ) {h : TokenHash} (hstage : φ.stage = .minted u h)
    (hadm : w.cache.admits (.pwresetUser u)) :
    LinkStep w φ (answer t (.cacheSet (.pwresetUser u) (.digest h) hour) w).2
      { φ with stage := .idle } := by
  have hslot : ∀ k,
      (answer t (.cacheSet (.pwresetUser u) (.digest h) hour) w).2.cache.slot k =
        if k = .pwresetUser u then some ⟨.digest h, expiryOf w.clock hour⟩
        else w.cache.slot k :=
    fun k => MemoryCache.slot_set hadm
  refine .pointed hstage (fun v hne => ?_) rfl (fun h' => ?_) ?_ rfl
  · refine recedes_of_slots rfl (fun h' => ?_) ?_
    · exact (hslot _).trans (if_neg (by simp))
    · exact (hslot _).trans (if_neg (by simpa using hne))
  · exact (hslot _).trans (if_neg (by simp))
  · rw [hslot, if_pos rfl, expiryOf_hour]

/-- A call that leaves the cache and the clock alone. -/
theorem linkStep_of_same {w' : World} (hcache : w'.cache = w.cache) (hclock : w'.clock = w.clock)
    (hsupply : w.supply ≤ w'.supply) : LinkStep w φ w' φ := by
  refine .aside (fun u => recedes_of_slots hclock (fun h => ?_) ?_) hsupply <;> rw [hcache]

/-- **Every call a section allows is one of its steps.** -/
theorem linkStep_of_answer (t : ℕ) (cl : Call) (hallows : φ.Allows cl)
    (hadm : ∀ k v ttl, cl = .cacheSet k v ttl → w.cache.admits k) :
    LinkStep w φ (answer t cl w).2 (φ.next cl (answer t cl w).1) := by
  cases cl with
  | random => exact .draw (fun u => recedes_of_slots rfl (fun _ => rfl) rfl) rfl
  | cacheGetAndDelete k =>
    cases k with
    | pwresetUser => exact linkStep_takePointer t hallows
    | _ => exact .aside (recedes_getAndDelete (by simp)) le_rfl
  | cacheDelete k =>
    cases k with
    | pwresetUser => cases hallows
    | reset h =>
      obtain ⟨u, hstage⟩ := hallows
      have hnext : φ.next (.cacheDelete (.reset h)) (answer t (.cacheDelete (.reset h)) w).1 =
          { φ with stage := .cleared u } := by
        simp only [Linking.next, hstage]
      rw [hnext]
      refine .dropped hstage (recedes_delete (by simp)) (fun hred => ?_) rfl
      obtain ⟨e, he, -, -⟩ := redeemable_iff.mp hred
      have hslot : (w.cache.delete (.reset h)).slot (.reset h) = none :=
        (w.cache.slot_delete).trans (if_pos rfl)
      exact nomatch (hslot.symm.trans he)
    | confirm => exact .finished hallows (recedes_delete (by simp)) rfl
    | _ => exact .aside (recedes_delete (by simp)) le_rfl
  | cacheSet k =>
    cases k with
    | reset =>
      obtain ⟨u, hstage, rfl, rfl, htoken⟩ := hallows
      exact linkStep_store t hstage htoken (hadm _ _ _ rfl)
    | pwresetUser =>
      obtain ⟨h, hstage, rfl, rfl⟩ := hallows
      exact linkStep_point t hstage (hadm _ _ _ rfl)
    | _ => cases hallows
  | cacheSetIfNotExists k v ttl =>
    have hne : ∀ {k'}, k' ≠ k → (w.cache.setIfNotExists w.clock k v ttl).2.slot k' =
        w.cache.slot k' := w.cache.slot_setIfNotExists_ne
    cases k with
    | importClaimSent u | forcedResetSent u =>
      exact .aside (fun u => recedes_of_slots rfl (fun _ => hne (by simp)) (hne (by simp))) le_rfl
    | _ => cases hallows
  | cacheIncrement k ttl =>
    have hne : ∀ {k'}, k' ≠ k → (w.cache.increment w.clock k ttl).2.slot k' =
        w.cache.slot k' := w.cache.slot_increment_ne
    cases k with
    | lockoutGeneration u =>
      exact .aside (fun u => recedes_of_slots rfl (fun _ => hne (by simp)) (hne (by simp))) le_rfl
    | _ => cases hallows
  | hashPassword =>
    exact linkStep_of_same rfl rfl (Nat.le_succ _)
  | updatePassword u hash =>
    have hsame : (answer t (.updatePassword u hash) w).2.cache = w.cache ∧
        (answer t (.updatePassword u hash) w).2.clock = w.clock ∧
        (answer t (.updatePassword u hash) w).2.supply = w.supply := by
      simp only [answer]
      split <;> exact ⟨rfl, rfl, rfl⟩
    exact linkStep_of_same hsame.1 hsame.2.1 hsame.2.2.ge
  | createDevice d =>
    have hsame : (answer t (.createDevice d) w).2.cache = w.cache ∧
        (answer t (.createDevice d) w).2.clock = w.clock ∧
        (answer t (.createDevice d) w).2.supply = w.supply := by
      simp only [answer]
      split <;> exact ⟨rfl, rfl, rfl⟩
    exact linkStep_of_same hsame.1 hsame.2.1 hsame.2.2.ge
  | _ => exact linkStep_of_same rfl rfl le_rfl

end Answer

/-! ### The invariant -/

/-- **Sections.** No two threads are in the section of one account; what the cache holds for an
account is what the thread in its section left, and outside of every section the pointer names the
only link. -/
structure Sections (w : World) (ps : List (ResetReq × Linking)) : Prop where
  alone : ∀ {u t t' φ φ'}, At ps t φ → At ps t' φ' → φ.stage.of = some u →
    φ'.stage.of = some u → t = t'
  free : ∀ {u}, (∀ t φ, At ps t φ → φ.stage.of ≠ some u) → Pointed w u
  held : ∀ {t φ}, At ps t φ → Stands w φ.stage

/-- The token of the link was drawn, and no thread has it in hand any more. -/
def Spent (n : ℕ) (ps : List (ResetReq × Linking)) (h : TokenHash) : Prop :=
  h.ofToken < n ∧ ∀ t φ, At ps t φ → φ.token ≠ some h.ofToken

/-- **Tokens.** A token is drawn once, by one thread, and stored once. -/
structure Tokens (w : World) (ps : List (ResetReq × Linking)) : Prop where
  drawn : ∀ {t φ x}, At ps t φ → φ.token = some x → x < w.supply
  unique : ∀ {t t' φ φ' x}, At ps t φ → At ps t' φ' → φ.token = some x → φ'.token = some x → t = t'
  stored : ∀ {t φ u h}, At ps t φ → (u, h) ∈ φ.stored → Spent w.supply ps h
  cached : ∀ {u h}, Redeemable w u h → Spent w.supply ps h

section Invariant

variable {w w' : World} {ps : List (ResetReq × Linking)} {t : ℕ} {φ φ' : Linking} {req : ResetReq}

variable {u : UserID}

/-- Outside of every section, and where a thread has just left one empty. -/
theorem pointed_of_none (h : ∀ k, ¬ Redeemable w u k) : Pointed w u :=
  fun k hred => absurd hred (h k)

/-- A thread goes on in its section, or opens or leaves one. -/
theorem Sections.set (h : Sections w ps) (hat : At ps t φ)
    (henter : ∀ u, φ'.stage.of = some u →
      φ.stage.of = some u ∨ ∀ t' ψ, At ps t' ψ → ψ.stage.of ≠ some u)
    (hrec : ∀ u, φ.stage.of ≠ some u → φ'.stage.of ≠ some u → Recedes u w w')
    (hheld : Stands w' φ'.stage)
    (hleft : ∀ u, φ.stage.of = some u → φ'.stage.of ≠ some u → Pointed w' u) :
    Sections w' (ps.set t (req, φ')) := by
  -- no other thread is in the section this thread is in
  have others : ∀ {u t' ψ}, φ'.stage.of = some u → t' ≠ t → At ps t' ψ → ψ.stage.of ≠ some u := by
    intro u t' ψ hof hne hat' hof'
    rcases henter u hof with hold | hnone
    · exact hne (h.alone hat' hat hof' hold)
    · exact hnone t' ψ hat' hof'
  refine ⟨?_, ?_, ?_⟩
  · intro u t₁ t₂ φ₁ φ₂ hat₁ hat₂ hof₁ hof₂
    rcases hat₁.of_set with ⟨rfl, rfl⟩ | ⟨hne₁, hold₁⟩ <;>
      rcases hat₂.of_set with ⟨rfl, rfl⟩ | ⟨hne₂, hold₂⟩
    · rfl
    · exact absurd hof₂ (others hof₁ hne₂ hold₂)
    · exact absurd hof₁ (others hof₂ hne₁ hold₁)
    · exact h.alone hold₁ hold₂ hof₁ hof₂
  · intro u hnone
    have hself : φ'.stage.of ≠ some u := hnone t φ' hat.set_self
    by_cases hof : φ.stage.of = some u
    · exact hleft u hof hself
    · refine (hrec u hof hself).pointed (h.free fun t' ψ hat' => ?_)
      by_cases hne : t' = t
      · subst hne
        rw [hat'.unique hat]
        exact hof
      · exact hnone t' ψ (hat'.set_ne hne)
  · intro t' ψ hat'
    rcases hat'.of_set with ⟨rfl, rfl⟩ | ⟨hne, hat'⟩
    · exact hheld
    · refine (h.held hat').recede fun u hof => ?_
      have hself : φ.stage.of ≠ some u := fun hφ => hne (h.alone hat' hat hof hφ)
      have hself' : φ'.stage.of ≠ some u := fun hφ' => others hφ' hne hat' hof
      exact hrec u hself hself'

theorem Sections.move (h : Sections w ps) (hrec : ∀ u, Recedes u w w') : Sections w' ps :=
  ⟨h.alone, fun hnone => (hrec _).pointed (h.free hnone),
    fun hat => (h.held hat).recede fun u _ => hrec u⟩

/-- **A section keeps its place in order**, as long as it is opened while nobody else is in one of
the same account. -/
theorem Sections.step (h : Sections w ps) (hat : At ps t φ) (hs : LinkStep w φ w' φ')
    (hopen : ∀ u, φ.stage = .idle → φ'.stage.of = some u →
      ∀ t' ψ, At ps t' ψ → ψ.stage.of ≠ some u) :
    Sections w' (ps.set t (req, φ')) := by
  have hst := h.held hat
  -- the thread opens a section, or stays in the one it is in
  have enters : ∀ u, φ.stage = .idle → φ'.stage.of = some u → (∀ v, v ≠ u → Recedes v w w') →
      Stands w' φ'.stage → Sections w' (ps.set t (req, φ')) := by
    intro u hidle hof hrec hstands
    refine h.set hat (fun v hv => .inr ?_) (fun v _ hv => hrec v ?_) hstands fun v hv => ?_
    · obtain rfl := mem_unique hof hv
      exact hopen u hidle hof
    · rintro rfl
      exact hv hof
    · rw [hidle] at hv
      cases hv
  have stays : φ.stage.of = φ'.stage.of → (∀ v, φ'.stage.of ≠ some v → Recedes v w w') →
      Stands w' φ'.stage → Sections w' (ps.set t (req, φ')) := by
    intro hsame hrec hstands
    exact h.set hat (fun v hv => .inl (hsame.trans hv)) (fun v _ => hrec v) hstands
      fun v hv hnot => absurd (hsame.symm.trans hv) hnot
  cases hs with
  | aside hrec | draw hrec => exact stays rfl (fun u _ => hrec u) (hst.recede fun u _ => hrec u)
  | @named u k e hidle hrec hlinks hpointer hval =>
    refine enters u hidle rfl hrec fun k' hred => ?_
    -- the pointer that was taken names the only link
    obtain ⟨-, e', -, he', hval', -⟩ := h.free (hopen u hidle rfl) k' (hlinks k' hred)
    obtain rfl := mem_unique hpointer he'
    exact CacheValue.digest.inj (hval'.symm.trans hval)
  | @unnamed u hidle hrec hlinks hnothing =>
    refine enters u hidle rfl hrec fun k' hred => ?_
    -- a link that can be redeemed has a pointer that can be read
    have hold := hlinks k' hred
    obtain ⟨e, e', he, he', hval', hspan⟩ := h.free (hopen u hidle rfl) k' hold
    obtain ⟨e₁, he₁, -, hlive⟩ := redeemable_iff.mp hold
    obtain rfl := mem_unique he he₁
    have hexp := hnothing e' k' he' hval'
    rw [hspan _ le_rfl hlive] at hexp
    cases hexp
  | @dropped u k hstage hrec hgone =>
    rw [hstage] at hst
    refine stays (by rw [hstage]; rfl) (fun v _ => hrec v) fun k' hred => ?_
    obtain rfl := hst k' ((hrec u).link k' hred).1
    exact hgone hred
  | @stored u k hstage htoken hrec hlinks hspan =>
    rw [hstage] at hst
    refine stays (by rw [hstage]; rfl) (fun v hof => ?_) ⟨fun k' hred => ?_, hspan⟩
    · exact hrec v fun heq => hof (congrArg some heq.symm)
    · exact (hlinks k' hred).resolve_right (hst k')
  | @pointed u k hstage hrec hclock hlinks hpointer =>
    rw [hstage] at hst
    refine h.set hat (by rintro _ ⟨⟩) (fun v hof _ => ?_) trivial fun v hof _ => ?_
    · refine hrec v fun heq => hof ?_
      rw [hstage, heq]
      rfl
    · rw [hstage] at hof
      obtain rfl : u = v := some.inj hof
      intro k' hred
      obtain ⟨e, he, hval, hlive⟩ := redeemable_iff.mp hred
      rw [hlinks] at he
      rw [hclock] at hlive
      obtain rfl := hst.1 k' (redeemable_iff.mpr ⟨e, he, hval, hlive⟩)
      refine ⟨e, _, (hlinks k').trans he, hpointer, rfl, fun x _ hx => ?_⟩
      -- the link was stored before its pointer, for the same time
      obtain ⟨y, hy, hle⟩ := hst.2 e he
      simp only [MemEntry.expired, hy, decide_eq_false_iff_not] at hx ⊢
      lia
  | @finished u hstage hrec =>
    rw [hstage] at hst
    refine h.set hat (by rintro _ ⟨⟩) (fun v _ _ => hrec v) trivial fun v hof _ => ?_
    rw [hstage] at hof
    obtain rfl : u = v := some.inj hof
    exact pointed_of_none fun k hred => hst k ((hrec u).link k hred).1

variable {k : TokenHash}

section

variable (hs : LinkStep w φ w' φ')
include hs

/-- **A link that can be redeemed** could be redeemed before, or its token was in hand and is not
any more. -/
theorem LinkStep.link (hred : Redeemable w' u k) :
    Redeemable w u k ∨ φ.token = some k.ofToken ∧ φ'.token = none := by
  have elsewhere : ∀ {v : UserID}, (∀ x, x ≠ v → Recedes x w w') →
      (∀ h, Redeemable w' v h → Redeemable w v h) → Redeemable w u k := by
    intro v hrec hlinks
    by_cases hv : u = v
    · subst hv
      exact hlinks k hred
    · exact ((hrec u hv).link k hred).1
  cases hs with
  | aside hrec | draw hrec => exact .inl ((hrec u).link k hred).1
  | named _ hrec hlinks | unnamed _ hrec hlinks => exact .inl (elsewhere hrec hlinks)
  | dropped hstage hrec => exact .inl ((hrec u).link k hred).1
  | @stored v k' hstage htoken hrec hlinks =>
    by_cases hv : u = v
    · subst hv
      rcases hlinks k hred with rfl | hold
      · exact .inr ⟨htoken, rfl⟩
      · exact .inl hold
    · exact .inl ((hrec u hv).link k hred).1
  | pointed hstage hrec hclock hlinks =>
    refine .inl (elsewhere hrec fun h hred => ?_)
    unfold Redeemable MemoryCache.get at hred ⊢
    rw [← hlinks h, ← hclock]
    exact hred
  | finished hstage hrec => exact .inl ((hrec u).link k hred).1

theorem LinkStep.supply_le : w.supply ≤ w'.supply := by
  cases hs <;> lia

/-- A token in hand was in hand, or is the next of the supply. -/
theorem LinkStep.token {x : ℕ} (hx : φ'.token = some x) :
    φ.token = some x ∨ x = w.supply ∧ w'.supply = w.supply + 1 := by
  cases hs with
  | draw hrec hsupply => exact .inr ⟨(some.inj hx).symm, hsupply⟩
  | stored => cases hx
  | _ => exact .inl hx

/-- A link on record was on record, or its token was in hand and is not any more. -/
theorem LinkStep.record (hk : (u, k) ∈ φ'.stored) :
    (u, k) ∈ φ.stored ∨ φ.token = some k.ofToken ∧ φ'.token = none := by
  cases hs with
  | stored hstage htoken =>
    rcases List.mem_cons.mp hk with heq | hold
    · obtain ⟨-, rfl⟩ := Prod.mk.inj heq
      exact .inr ⟨htoken, rfl⟩
    · exact .inl hold
  | _ => exact .inl hk

/-- A change of a password is completed where no link is left. -/
theorem LinkStep.completed (hu : u ∈ φ'.changed) :
    u ∈ φ.changed ∨ φ.stage = .cleared u ∧ ∀ v, Recedes v w w' := by
  cases hs with
  | finished hstage hrec =>
    rcases List.mem_cons.mp hu with rfl | hold
    · exact .inr ⟨hstage, hrec⟩
    · exact .inl hold
  | _ => exact .inl hu

end

theorem Spent.step (h : Spent w.supply ps k) (hat : At ps t φ) (hs : LinkStep w φ w' φ') :
    Spent w'.supply (ps.set t (req, φ')) k := by
  refine ⟨lt_of_lt_of_le h.1 hs.supply_le, fun t' ψ hat' htok => ?_⟩
  rcases hat'.of_set with ⟨rfl, rfl⟩ | ⟨-, hat'⟩
  · rcases hs.token htok with hold | ⟨hnew, -⟩
    · exact h.2 _ φ hat hold
    · exact absurd h.1 (by rw [hnew]; exact lt_irrefl _)
  · exact h.2 t' ψ hat' htok

/-- **Tokens stay unique.** -/
theorem Tokens.step (h : Tokens w ps) (hat : At ps t φ) (hs : LinkStep w φ w' φ') :
    Tokens w' (ps.set t (req, φ')) := by
  -- a token this thread has just stored is in nobody's hand
  have spent : ∀ {k : TokenHash}, φ.token = some k.ofToken → φ'.token = none →
      Spent w'.supply (ps.set t (req, φ')) k := by
    intro k htok hnone
    refine ⟨lt_of_lt_of_le (h.drawn hat htok) hs.supply_le, fun t' ψ hat' htok' => ?_⟩
    rcases hat'.of_set with ⟨rfl, rfl⟩ | ⟨hne, hat'⟩
    · rw [hnone] at htok'
      cases htok'
    · exact hne (h.unique hat' hat htok' htok)
  -- nobody else has the next of the supply
  have next : ∀ {t' ψ x}, t' ≠ t → At ps t' ψ → ψ.token = some x → φ'.token = some x → False := by
    intro t' ψ x hne hat' hψ hφ'
    rcases hs.token hφ' with hold | ⟨rfl, -⟩
    · exact hne (h.unique hat' hat hψ hold)
    · exact absurd (h.drawn hat' hψ) (lt_irrefl _)
  refine ⟨?_, ?_, ?_, ?_⟩
  · intro t' ψ x hat' hx
    rcases hat'.of_set with ⟨rfl, rfl⟩ | ⟨-, hat'⟩
    · rcases hs.token hx with hold | ⟨rfl, hsupply⟩
      · exact lt_of_lt_of_le (h.drawn hat hold) hs.supply_le
      · rw [hsupply]
        exact Nat.lt_succ_self _
    · exact lt_of_lt_of_le (h.drawn hat' hx) hs.supply_le
  · intro t₁ t₂ φ₁ φ₂ x hat₁ hat₂ hx₁ hx₂
    rcases hat₁.of_set with ⟨rfl, rfl⟩ | ⟨hne₁, hold₁⟩ <;>
      rcases hat₂.of_set with ⟨rfl, rfl⟩ | ⟨hne₂, hold₂⟩
    · rfl
    · exact (next hne₂ hold₂ hx₂ hx₁).elim
    · exact (next hne₁ hold₁ hx₁ hx₂).elim
    · exact h.unique hold₁ hold₂ hx₁ hx₂
  · intro t' ψ u k hat' hk
    rcases hat'.of_set with ⟨rfl, rfl⟩ | ⟨-, hat'⟩
    · rcases hs.record hk with hold | ⟨htok, hnone⟩
      · exact (h.stored hat hold).step hat hs
      · exact spent htok hnone
    · exact (h.stored hat' hk).step hat hs
  · intro u k hred
    rcases hs.link hred with hold | ⟨htok, hnone⟩
    · exact (h.cached hold).step hat hs
    · exact spent htok hnone

theorem Tokens.move (h : Tokens w ps) (hrec : ∀ u, Recedes u w w')
    (hsupply : w'.supply = w.supply) :
    Tokens w' ps := by
  refine ⟨fun hat hx => ?_, h.unique, fun hat hk => ?_, fun hred => ?_⟩ <;> rw [hsupply]
  · exact h.drawn hat hx
  · exact h.stored hat hk
  · exact h.cached ((hrec _).link _ hred).1

end Invariant

/-! ### Runs -/

def Call.writesCache : Call → Bool
  | .cacheSet _ _ _ => true
  | .cacheDelete _ => true
  | .cacheGetAndDelete _ => true
  | .cacheSetIfNotExists _ _ _ => true
  | .cacheIncrement _ _ => true
  | _ => false

section Runs

variable {cfg : Settings} {minLength : ℕ}

/-- **A cache that accepts every write**: none fails, and none is refused for want of room. -/
def accepting (c : Config (resetService cfg minLength)) : Label (resetService cfg minLength) → Prop
  | .act t => ∀ k v ttl, c.pending t = some (.cacheSet k v ttl) →
      (World.cache c.world).admits k
  | .fault t => ∀ cl : Call, c.pending t = some cl → cl.writesCache = false
  | _ => True

/-- **Sections of one account do not overlap**: the pointer is taken when nobody is between taking
it and the end of the mint or the password change. -/
def apart (c : Config (resetService cfg minLength)) (l : Label (resetService cfg minLength)) :
    Prop :=
  accepting c l ∧ ∀ t u, l = .act t → c.pending t = some (.cacheGetAndDelete (.pwresetUser u)) →
    ∀ (t' : ℕ) th, c.threads[t']? = some th →
      (linking.phase th.past).stage.of ≠ some u

/-- Every account has at most the link its pointer names, and no token is known before it is
drawn. -/
structure World.Linked (w : World) : Prop where
  pointed : ∀ u, Pointed w u
  drawn : ∀ u h, Redeemable w u h → h.ofToken < w.supply

variable {ps : List (ResetReq × Linking)}

theorem Spent.spawn {n : ℕ} {k : TokenHash} (h : Spent n ps k) (req : ResetReq) :
    Spent n (ps ++ [(req, .start)]) k := by
  refine ⟨h.1, fun t φ hat htoken => ?_⟩
  exact h.2 t φ (hat.of_snoc (by rintro rfl; cases htoken)) htoken

/-- A thread is not in the section of an account before its first call, and has no token. -/
theorem spawn_links {w : World} {req : ResetReq} (h : Sections w ps ∧ Tokens w ps) :
    Sections w (ps ++ [(req, .start)]) ∧ Tokens w (ps ++ [(req, .start)]) := by
  obtain ⟨hsec, htok⟩ := h
  refine ⟨⟨?_, ?_, ?_⟩, ⟨?_, ?_, ?_, fun hred => (htok.cached hred).spawn req⟩⟩
  · intro u t t' φ φ' hat hat' hof hof'
    exact hsec.alone (hat.of_snoc (by rintro rfl; cases hof))
      (hat'.of_snoc (by rintro rfl; cases hof')) hof hof'
  · exact fun hnone => hsec.free fun t φ hat => hnone t φ hat.append
  · intro t φ hat
    rcases hat.of_append with hat | ⟨-, rfl⟩
    · exact hsec.held hat
    · trivial
  · intro t φ x hat hx
    exact htok.drawn (hat.of_snoc (by rintro rfl; cases hx)) hx
  · intro t t' φ φ' x hat hat' hx hx'
    exact htok.unique (hat.of_snoc (by rintro rfl; cases hx))
      (hat'.of_snoc (by rintro rfl; cases hx')) hx hx'
  · intro t φ u k hat hk
    exact (htok.stored (hat.of_snoc (by rintro rfl; cases hk)) hk).spawn req

/-- A call that fails without writing to the cache says nothing about links. -/
theorem next_of_failed {φ : Linking} {cl : Call} {r : cl.Reply} (hr : Fault cl r)
    (hcl : cl.writesCache = false) : φ.next cl r = φ ∧ Linking.Admits cl r := by
  cases cl with
  | random => cases hr
  | cacheSet | cacheDelete | cacheGetAndDelete | cacheSetIfNotExists | cacheIncrement => cases hcl
  | _ => exact ⟨rfl, trivial⟩

/-- A cache that accepts the call admits the reply. -/
theorem admits_of_accepting {w : World} (t : ℕ) (cl : Call)
    (hadm : ∀ k v ttl, cl = .cacheSet k v ttl → w.cache.admits k) :
    Linking.Admits cl (answer t cl w).1 := by
  cases cl with
  | cacheSet k v ttl =>
    show (w.cache.set w.clock k v ttl).1 = .ok ()
    rw [MemoryCache.set, MemoryCache.store_of_admits (hadm k v ttl rfl)]
  | cacheDelete => exact rfl
  | cacheGetAndDelete => exact ⟨_, rfl⟩
  | _ => trivial

/-- Of the calls that are made outside of a section, only one leads inside. -/
theorem opens_of_next {φ : Linking} {cl : Call} {r : cl.Reply} {u : UserID}
    (hallows : φ.Allows cl) (hidle : φ.stage = .idle) (hof : (φ.next cl r).stage.of = some u) :
    cl = .cacheGetAndDelete (.pwresetUser u) := by
  have stays : φ.stage.of ≠ some u := by
    rw [hidle]
    exact nofun
  cases cl with
  | cacheGetAndDelete k =>
    cases k with
    | pwresetUser v =>
      suffices h : some v = some u by rw [some.inj h]
      rcases r with e | x
      · exact hof
      · rcases x with _ | x
        · exact hof
        · cases x <;> exact hof
    | _ => exact absurd hof stays
  | cacheDelete k =>
    cases k with
    | reset =>
      obtain ⟨v, hstage⟩ := hallows
      rw [hidle] at hstage
      cases hstage
    | confirm => cases hof
    | _ => exact absurd hof stays
  | cacheSet k v =>
    cases k with
    | reset =>
      obtain ⟨v, hstage, -⟩ := hallows
      rw [hidle] at hstage
      cases hstage
    | pwresetUser => cases hof
    | _ => cases hallows
  | _ => exact absurd hof stays

theorem supply_nudge (n : Nudge) (w : World) : (nudge n w).supply = w.supply := by
  cases n with
  | addUser =>
    simp only [nudge]
    split <;> rfl
  | _ => rfl

/-- **The links of every account are in order along every run whose sections are apart.** -/
theorem links_keeps (hcache : cfg.hasCache) :
    Keeps (M := resetService cfg minLength) World.Linked apart linking Linking.post
      (fun w ps => Sections w ps ∧ Tokens w ps) where
  program := serve_linking hcache minLength
  init w hw := by
    refine ⟨⟨fun hat => absurd hat not_at_nil, fun _ => hw.pointed _,
      fun hat => absurd hat not_at_nil⟩,
      ⟨fun hat => absurd hat not_at_nil, fun hat => absurd hat not_at_nil,
        fun hat => absurd hat not_at_nil, fun hred => ⟨hw.drawn _ _ hred, ?_⟩⟩⟩
    exact fun t φ hat => absurd hat not_at_nil
  spawn w ps r h := spawn_links h
  act c t th cl _ h hth hpend _ hok hallows := by
    have hpending := (Config.pending_eq hth).trans hpend
    have hadm : ∀ k v ttl, cl = .cacheSet k v ttl → (World.cache c.world).admits k := by
      rintro k v ttl rfl
      exact hok.1 k v ttl hpending
    have hat : At (c.phases linking) t (linking.phase th.past) := ⟨_, c.phases_getElem? linking hth⟩
    have hs := linkStep_of_answer t cl hallows hadm
    refine ⟨admits_of_accepting t cl hadm, h.1.step hat hs fun u hidle hof => ?_, h.2.step hat hs⟩
    obtain rfl := opens_of_next hallows hidle hof
    rintro t' ψ ⟨req, hψ⟩
    obtain ⟨th', hth', heq⟩ := map_eq_some_iff.mp ((List.getElem?_map ..).symm.trans hψ)
    obtain ⟨-, rfl⟩ := Prod.mk.inj heq
    exact hok.2 t u rfl hpending t' th' hth'
  fault c t th cl r _ h hth hpend hr hok _ := by
    have hpending := (Config.pending_eq hth).trans hpend
    obtain ⟨hnext, hadm⟩ := next_of_failed hr (hok.1 cl hpending)
    have hat : At (c.phases linking) t (linking.phase th.past) := ⟨_, c.phases_getElem? linking hth⟩
    have hs : LinkStep c.world (linking.phase th.past) c.world (linking.phase th.past) :=
      linkStep_of_same rfl rfl le_rfl
    have heq : linking.next (linking.phase th.past) cl r = linking.phase th.past := hnext
    rw [heq]
    refine ⟨hadm, h.1.step hat hs fun u hidle hof => ?_, h.2.step hat hs⟩
    rw [hidle] at hof
    cases hof
  nudge c n _ h _ := by
    exact ⟨h.1.move fun u => recedes_nudge n,
      h.2.move (fun u => recedes_nudge n) (supply_nudge n c.world)⟩

variable {c c' : Config (resetService cfg minLength)} {l : Label (resetService cfg minLength)}

/-- **What a step of the service does to links**: a request arrives, a thread takes a step, or the
world moves by itself. -/
theorem links_of_step (hcache : cfg.hasCache) (hc : Reachable World.Linked apart c)
    (hok : apart c l) (hs : Step c l c') :
    (∃ req, c'.world = c.world ∧ c'.phases linking = c.phases linking ++ [(req, .start)]) ∨
    (∃ t req φ φ', At (c.phases linking) t φ ∧ LinkStep c.world φ c'.world φ' ∧
      c'.phases linking = (c.phases linking).set t (req, φ')) ∨
    (∀ u, Recedes u c.world c'.world) ∧ World.supply c'.world = World.supply c.world ∧
      c'.phases linking = c.phases linking := by
  obtain ⟨-, hD⟩ := (links_keeps hcache).reachable hc
  cases hs with
  | spawn req =>
    refine .inl ⟨req, rfl, ?_⟩
    unfold Config.phases
    rw [List.map_append]
    rfl
  | @act t th cl k hth hrest =>
    obtain ⟨-, hob⟩ := hD t th hth
    rw [hrest] at hob
    have hpending := (Config.pending_eq hth).trans (Thread.pending_of_call hrest)
    have hadm : ∀ k v ttl, cl = .cacheSet k v ttl → (World.cache c.world).admits k := by
      rintro key v ttl rfl
      exact hok.1 key v ttl hpending
    refine .inr (.inl ⟨t, th.req, _, _, ⟨_, c.phases_getElem? linking hth⟩,
      linkStep_of_answer t cl hob.1 hadm, ?_⟩)
    exact phases_set c linking t _ _
  | @fault t th cl k r hth hrest hr =>
    have hpending := (Config.pending_eq hth).trans (Thread.pending_of_call hrest)
    obtain ⟨hnext, -⟩ := next_of_failed (φ := linking.phase th.past) hr (hok.1 cl hpending)
    refine .inr (.inl ⟨t, th.req, _, _, ⟨_, c.phases_getElem? linking hth⟩,
      linkStep_of_same rfl rfl le_rfl, ?_⟩)
    rw [← hnext]
    exact phases_set c linking t _ _
  | nudge n => exact .inr (.inr ⟨fun u => recedes_nudge n, supply_nudge n c.world, rfl⟩)

/-- The link has been stored, or is there to be redeemed. -/
def Minted (c : Config (resetService cfg minLength)) (u : UserID) (h : TokenHash) : Prop :=
  Redeemable c.world u h ∨ ∃ t φ, At (c.phases linking) t φ ∧ (u, h) ∈ φ.stored

/-- Thread `t` has carried a change of the account's password through: it has made the last call of
`updatePassword`. -/
def Completed (c : Config (resetService cfg minLength)) (t : ℕ) (u : UserID) : Prop :=
  ∃ φ, At (c.phases linking) t φ ∧ u ∈ φ.changed

/-- A password change that is completed has left nothing to redeem of what was minted before. -/
theorem dead_of_run (hcache : cfg.hasCache) (hc : Reachable World.Linked apart c)
    (hr : Run apart c c') {t : ℕ} {u : UserID} {h : TokenHash}
    (hspent : Spent (World.supply c.world) (c.phases linking) h) (hnot : ¬ Completed c t u) :
    Spent (World.supply c'.world) (c'.phases linking) h ∧
      (Completed c' t u → ¬ Redeemable c'.world u h) := by
  induction hr with
  | refl => exact ⟨hspent, fun hdone => absurd hdone hnot⟩
  | @snoc d d' l hprev hok hs ih =>
    obtain ⟨hspent, hdead⟩ := ih
    have hd : Reachable World.Linked apart d := hc.run hprev
    obtain ⟨⟨hsec, -⟩, -⟩ := (links_keeps hcache).reachable hd
    rcases links_of_step hcache hd hok hs with ⟨req, hw, hps⟩ |
      ⟨t', req, φ, φ', hat, hlink, hps⟩ | ⟨hrec, hsupply, hps⟩
    · rw [hw, hps]
      refine ⟨hspent.spawn req, ?_⟩
      rintro ⟨ψ, hat', hu⟩
      rw [hps] at hat'
      exact hdead ⟨ψ, hat'.of_snoc (by rintro rfl; cases hu), hu⟩
    · rw [hps]
      refine ⟨hspent.step hat hlink, ?_⟩
      rintro ⟨ψ, hat', hu⟩ hred
      -- the token is out of hand, so the link was there before the step
      have hold : Redeemable d.world u h :=
        (hlink.link hred).resolve_right fun htok => hspent.2 t' φ hat htok.1
      rw [hps] at hat'
      rcases hat'.of_set with ⟨rfl, rfl⟩ | ⟨-, hat'⟩
      · rcases hlink.completed hu with hdone | ⟨hstage, -⟩
        · exact hdead ⟨φ, hat, hdone⟩ hold
        · have hst := hsec.held hat
          rw [hstage] at hst
          exact hst h hold
      · exact hdead ⟨ψ, hat', hu⟩ hold
    · rw [hps, hsupply]
      refine ⟨hspent, ?_⟩
      rintro ⟨ψ, hat', hu⟩ hred
      rw [hps] at hat'
      exact hdead ⟨ψ, hat', hu⟩ ((hrec u).link h hred).1

theorem Sections.link_unique {w : World} (h : Sections w ps) {u : UserID} {k k' : TokenHash}
    (hk : Redeemable w u k) (hk' : Redeemable w u k') : k = k' := by
  by_cases hsome : ∃ t φ, At ps t φ ∧ φ.stage.of = some u
  · obtain ⟨t, φ, hat, hof⟩ := hsome
    have hst := h.held hat
    cases hstage : φ.stage with
    | idle =>
      rw [hstage] at hof
      cases hof
    | retiring v =>
      rw [hstage] at hof hst
      obtain rfl : v = u := some.inj hof
      rw [hst k hk, hst k' hk']
    | cleared v =>
      rw [hstage] at hof hst
      obtain rfl : v = u := some.inj hof
      exact absurd hk (hst k)
    | minted v =>
      rw [hstage] at hof hst
      obtain rfl : v = u := some.inj hof
      rw [hst.1 k hk, hst.1 k' hk']
  · have hpointed : Pointed w u := h.free fun t φ hat hof => hsome ⟨t, φ, hat, hof⟩
    obtain ⟨-, e, -, he, hval, -⟩ := hpointed k hk
    obtain ⟨-, e', -, he', hval', -⟩ := hpointed k' hk'
    obtain rfl := mem_unique he he'
    exact CacheValue.digest.inj (hval.symm.trans hval')

/-- **One reset link at a time.** Over a cache that accepts every write, and as long as the mints
and password changes of an account do not overlap in the cache, there is at every moment at most one
link of an account that can be redeemed, and once a password change is completed, which is what
every request that set a password has done, nothing that was minted before can be. -/
theorem one_reset_link (hcache : cfg.hasCache) {c c' : Config (resetService cfg minLength)}
    (hc : Reachable World.Linked apart c) (hr : Run apart c c') :
    (∀ u h h', Redeemable c.world u h → Redeemable c.world u h' → h = h') ∧
    (∀ t th, c.threads[t]? = some th →
      ResetReq.setsPassword th.req → th.result = some (.ok ()) → ∃ u, Completed c t u) ∧
    ∀ t u h, Minted c u h → ¬ Completed c t u → Completed c' t u → ¬ Redeemable c'.world u h := by
  obtain ⟨⟨hsec, htok⟩, hD⟩ := (links_keeps hcache).reachable hc
  refine ⟨fun _ _ _ => hsec.link_unique, ?_, ?_⟩
  · intro t th hth hset hres
    obtain ⟨-, hob⟩ := hD t th hth
    rw [Thread.rest_of_result hres] at hob
    obtain ⟨-, hchanged⟩ : Linking.post th.req (linking.phase th.past) (.ok ()) := hob
    obtain ⟨u, hu⟩ := List.exists_mem_of_ne_nil _ (hchanged hset rfl)
    exact ⟨u, _, ⟨_, c.phases_getElem? linking hth⟩, hu⟩
  · intro t u h hminted hnot hdone
    have hspent : Spent (World.supply c.world) (c.phases linking) h := by
      rcases hminted with hred | ⟨t', φ, hat, hk⟩
      · exact htok.cached hred
      · exact htok.stored hat hk
    exact (dead_of_run hcache hc hr hspent hnot).2 hdone

/-! ### Links at work -/

/-- `accepting` as a test, for schedules without failures. -/
def acceptingTest (c : Config (resetService cfg minLength)) :
    Label (resetService cfg minLength) → Bool
  | .act t =>
    match c.pending t with
    | some (.cacheSet k _ _) => (World.cache c.world).admits k
    | _ => true
  | .fault _ => false
  | _ => true

def apartTest (c : Config (resetService cfg minLength)) (l : Label (resetService cfg minLength)) :
    Bool :=
  acceptingTest c l &&
    match l with
    | .act t =>
      match c.pending t with
      | some (.cacheGetAndDelete (.pwresetUser u)) =>
        c.threads.all fun th => (linking.phase th.past).stage.of != some u
      | _ => true
    | _ => true

theorem accepting_of_test (h : acceptingTest c l) : accepting c l := by
  cases l with
  | act =>
    intro k v ttl hpend
    simp only [acceptingTest, hpend] at h
    exact h
  | fault => cases h
  | _ => trivial

theorem apart_of_test (h : apartTest c l) : apart c l := by
  obtain ⟨haccept, hrest⟩ := Bool.and_eq_true_iff.mp h
  refine ⟨accepting_of_test haccept, ?_⟩
  rintro t u rfl hpend t' th hth
  simp only [hpend] at hrest
  have hne := List.all_eq_true.mp hrest th (List.mem_of_getElem? hth)
  simpa using hne

instance (c : Config (resetService cfg minLength)) (t : ℕ) (u : UserID) :
    Decidable (Completed c t u) :=
  decidable_of_iff (((c.phases linking)[t]?.any fun p => decide (u ∈ p.2.changed))) <| by
    rw [Option.any_eq_true]
    constructor
    · rintro ⟨⟨req, φ⟩, hφ, hu⟩
      exact ⟨φ, ⟨req, hφ⟩, of_decide_eq_true hu⟩
    · rintro ⟨φ, ⟨req, hφ⟩, hu⟩
      exact ⟨(req, φ), hφ, decide_eq_true hu⟩

end Runs

namespace Sample

theorem world_linked : World.Linked world where
  pointed _ := pointed_of_none nofun
  drawn _ _ hred := nomatch hred

/-- Alice asks for a reset link, and again when the first has been stored. -/
def requested : Config (resetService settings 1) :=
  (execAll apartTest ⟨world, []⟩
    ([.spawn (.request "a")] ++ .replicate 7 (.act 0) ++ [.spawn (.request "a")] ++
      .replicate 8 (.act 1))).getD ⟨world, []⟩

/-- Then the password is changed. -/
def changedPassword : Config (resetService settings 1) :=
  (execAll apartTest requested
    ([.spawn (.change "u" "pw" "new")] ++ .replicate 14 (.act 2))).getD requested

theorem one_reset_link_changed :
    (Redeemable requested.world "u" (sha256Hex 2) ∧ Completed changedPassword 2 "u") ∧
      (∀ h, Redeemable requested.world "u" h → sha256Hex 2 = h) ∧
      ¬ Redeemable changedPassword.world "u" (sha256Hex 2) := by
  have hred : Redeemable requested.world "u" (sha256Hex 2) := by
    unfold Redeemable
    decide +kernel
  have hdone : Completed changedPassword 2 "u" := by decide +kernel
  have hnot : ¬ Completed requested 2 "u" := by decide +kernel
  have hc : Reachable World.Linked apart requested :=
    ⟨world, world_linked, run_execAll (fun _ _ => apart_of_test) _ _⟩
  have hr : Run apart requested changedPassword := run_execAll (fun _ _ => apart_of_test) _ _
  obtain ⟨hone, -, hdead⟩ := one_reset_link rfl hc hr
  exact ⟨⟨hred, hdone⟩, fun h hh => hone "u" _ h hred hh, hdead 2 "u" _ (.inl hred) hnot hdone⟩

/-- Two requests take the pointer, and find none, before either has stored its link. -/
def overlapped : Config (resetService settings 1) :=
  (execAll acceptingTest ⟨world, []⟩
    ([.spawn (.request "a"), .spawn (.request "a")] ++ .replicate 4 (.act 0) ++
      .replicate 4 (.act 1) ++ .replicate 3 (.act 0) ++ .replicate 3 (.act 1))).getD ⟨world, []⟩

/-- Then the password is changed. -/
def survived : Config (resetService settings 1) :=
  (execAll acceptingTest overlapped
    ([.spawn (.change "u" "pw" "new")] ++ .replicate 14 (.act 2))).getD overlapped

/-- **Two links at once.** The requests overlap, both links can be redeemed, and the one the pointer
does not name outlives the password change. -/
theorem reset_links_overlap :
    Reachable World.Linked accepting overlapped ∧ Run accepting overlapped survived ∧
      Redeemable overlapped.world "u" (sha256Hex 1) ∧
      Redeemable overlapped.world "u" (sha256Hex 2) ∧
      ¬ Completed overlapped 2 "u" ∧ Completed survived 2 "u" ∧
      Redeemable survived.world "u" (sha256Hex 1) := by
  refine ⟨⟨world, world_linked, ?_⟩, ?_, ?_⟩
  · exact run_execAll (fun _ _ => accepting_of_test) _ _
  · exact run_execAll (fun _ _ => accepting_of_test) _ _
  · unfold Redeemable
    decide +kernel

end Sample

end Vault42
