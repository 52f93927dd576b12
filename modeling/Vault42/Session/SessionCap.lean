import Vault42.Session.Revocation
import Mathlib.Data.Finset.Card

/-!
# The cap on concurrent sessions

`CreateWithinCap` counts a user's families and inserts a new one in one transaction, and a lock per
user keeps two such transactions apart. Rotations do not take the lock, and between `MarkUsed` and
`Create` a rotation's family has no row that the count can see. So the count is of what is active,
while the bound needs a count of what can become active again: a family *claims* a session
(`Claims`) when it has a live row that a refresh would still accept, when a refresh has passed its
expiry check on a row that is still live, or when a rotation has spent the row and not yet written
the successor.

If every count sees all the claims there are (`countsClaims`), the cap holds in every state:
`session_cap`. The code does not ensure that, and `session_cap_exceeded` is a run with a cap of one
that ends with two active families.

* `claims_step`: a step gives no family a claim it did not have, but for the commit of a login.
* `Capped.step`: there is always a set that has all the claims and is no larger than the cap, and
  smaller while an admitted login is open.
-/

namespace Vault42

open Framework Program List Custody

variable {cap : ℤ} {s' : TokenStore} {ps : List (Req × Custody)} {u : UserID} {x : Txn} {now : Time}
  {s : TokenStore}

/-! ### Claims -/

/-- **The family claims a session of the user**: it holds a live row, or can still come to hold
one. -/
inductive Claims (u : UserID) (now : Time) (s : TokenStore) (ps : List (Req × Custody)) (f : UUID) :
    Prop where
  /-- A live row that a refresh would accept. -/
  | row {r : Row} (hr : r ∈ s.rows) (hlive : r.live) (huser : r.userID = u)
      (hfam : r.familyID = f) (hexp : now ≤ r.expiresAt)
  /-- A refresh has passed the expiry check of a row that is still live. -/
  | timed {t : ℕ} {φ : Custody} {stored : RefreshToken} {at_ : Time} {r : Row} (hat : At ps t φ)
      (hrot : φ.rotation = .timed stored at_) (hexp : at_ ≤ stored.expiresAt)
      (huser : stored.userID = u) (hfam : stored.familyID = f) (hr : r ∈ s.rows)
      (hid : r.id = stored.id) (hlive : r.live)
  /-- A rotation is between `MarkUsed` and `Create`. -/
  | spent {t : ℕ} {φ : Custody} {stored : RefreshToken} (hat : At ps t φ)
      (hrot : φ.rotation = .spent stored) (huser : stored.userID = u) (hfam : stored.familyID = f)

section Step

variable {t : ℕ} {w : World} {φ φ' : Custody} {cl : Call} {n' : ℕ} {req : Req} {f : UUID}

/-- What identifies a row never changes. -/
theorem Row.Ages.columns {r r' : Row} (h : r.Ages r') :
    r'.userID = r.userID ∧ r'.expiresAt = r.expiresAt := by
  have huser := congrArg Row.userID h.pristine
  have hexp := congrArg Row.expiresAt h.pristine
  exact ⟨huser, hexp⟩

/-- How a rotation comes to have passed its expiry check. -/
theorem TableStep.timed (h : TableStep cap t w φ cl s' n' φ') {stored : RefreshToken} {at_ : Time}
    (hrot : φ'.rotation = .timed stored at_) :
    φ.rotation = .timed stored at_ ∨
      φ.rotation = .read stored ∧ at_ = w.clock ∧ φ'.notes = φ.noteClock w.clock := by
  cases h with
  | clock =>
    cases hρ : φ.rotation with
    | read =>
      simp only [hρ, readClock, Rotation.timed.injEq] at hrot
      exact .inr ⟨by rw [hrot.1], hrot.2.symm, rfl⟩
    | _ =>
      simp only [hρ, readClock] at hrot
      exact .inl hrot
  | read => cases hrot
  | create =>
    cases hρ : φ.rotation with
    | spent =>
      simp only [hρ, close] at hrot
      cases hrot
    | _ =>
      simp only [hρ, close] at hrot
      exact .inl hrot
  | spend hmay =>
    obtain ⟨tok, a, hρ, -⟩ := hmay
    simp only [hρ, Custody.spend] at hrot
    cases hrot
  | lose hmay =>
    obtain ⟨tok, a, hρ, -⟩ := hmay
    simp only [hρ, Custody.lose] at hrot
    cases hrot
  | _ => exact .inl hrot

theorem TableStep.spent (h : TableStep cap t w φ cl s' n' φ') {stored : RefreshToken}
    (hrot : φ'.rotation = .spent stored) :
    φ.rotation = .spent stored ∨ ∃ at_ r, φ.rotation = .timed stored at_ ∧
      at_ ≤ stored.expiresAt ∧ r ∈ w.tokens.rows ∧ r.id = stored.id ∧ r.live := by
  cases h with
  | clock => exact .inl (spent_of_readClock hrot)
  | read => cases hrot
  | create => exact absurd hrot close_ne_spent
  | spend hmay hr hspend =>
    obtain ⟨tok, a, hρ, rfl, -, -, hexp⟩ := hmay
    simp only [hρ, Custody.spend, Rotation.spent.injEq] at hrot
    subst hrot
    obtain ⟨hid, hlive⟩ := live_of_spendable hspend
    exact .inr ⟨a, _, hρ, hexp, hr, hid, hlive⟩
  | lose => exact .inl (spent_of_lose hrot)
  | _ => exact .inl hrot

/-- The family of a login that commits. -/
def Admits (t : ℕ) (w : World) (φ : Custody) (u : UserID) (f : UUID) : Prop :=
  ∃ x ∈ w.tokens.txns, x.owner = t ∧ φ.txn = .inserted ∧
    ∃ row, x.inserted = some row ∧ row.userID = u ∧ row.familyID = f

/-- **A step gives no family a claim it did not have**, but for the commit of a login. -/
theorem claims_step (hL : Ledger w.tokens w.supply ps) (h : TableStep cap t w φ cl s' n' φ')
    (hat : At ps t φ) (hcap : 0 < cap) (hc : Claims u w.clock s' (ps.set t (req, φ')) f) :
    Claims u w.clock w.tokens ps f ∨
      Admits t w φ u f ∧ cl = .tokens .commit ∧ φ'.txn = .none := by
  obtain ⟨born, hborn, hrows, -, -⟩ := h.rows
  cases hc with
  | row hr hlive huser hfam hexp =>
    rcases hrows _ hr with hb | ⟨r₀, hr₀, hage⟩
    · -- a row just committed is the successor of a spent token, or the first row of a login
      cases hborn _ hb with
      | created hfresh htxn hkind =>
        rcases hkind with ⟨hle, -⟩ | ⟨stored, hsucc⟩
        · exact absurd hcap (not_lt.mpr hle)
        · exact .inl (.spent hat hsucc.rotation (hsucc.user.symm.trans huser)
            (hsucc.family.symm.trans hfam))
      | committed hx howner hrow =>
        have hfit := hL.own_fits hat _ hx howner
        exact .inr ⟨⟨_, hx, howner, hfit.of_inserted hrow, _, hrow, huser, hfam⟩, rfl, rfl⟩
    · obtain ⟨hu, he⟩ := hage.columns
      exact .inl (.row hr₀ (hage.live hlive) (hu.symm.trans huser) (hage.familyID.symm.trans hfam)
        (he ▸ hexp))
  | timed hψ hrot hexp huser hfam hr hid hlive =>
    rename_i v ψ stored at_ r
    -- the thread had passed its check before, or passes it now, on a row that was live before
    have hψ₀ : ∃ ψ₀, At ps v ψ₀ ∧ (ψ₀.rotation = .timed stored at_ ∨
        ψ₀.rotation = .read stored ∧ at_ = w.clock) := by
      rcases hψ.of_set with ⟨rfl, rfl⟩ | ⟨-, hψ⟩
      · exact ⟨φ, hat, (h.timed hrot).imp_right fun h => ⟨h.1, h.2.1⟩⟩
      · exact ⟨ψ, hψ, .inl hrot⟩
    obtain ⟨ψ₀, hψ₀, hcase⟩ := hψ₀
    have hst : ψ₀.rotation.stored = some stored := by
      rcases hcase with h₀ | ⟨h₀, -⟩ <;> rw [h₀] <;> rfl
    rcases hrows _ hr with hb | ⟨r₀, hr₀, hage⟩
    · obtain ⟨r₁, hr₁, hid₁, -⟩ := hL.stored_family hψ₀ hst
      exact absurd (hid₁.trans hid.symm) (((hborn _ hb).id hL hat).2.2 r₁ hr₁)
    · have hid₀ : r₀.id = stored.id := hage.id.symm.trans hid
      rcases hcase with h₀ | ⟨h₀, rfl⟩
      · exact .inl (.timed hψ₀ h₀ hexp huser hfam hr₀ hid₀ (hage.live hlive))
      · obtain ⟨hu, hf, he⟩ := hL.row_of_stored hψ₀ hst hr₀ hid₀
        exact .inl (.row hr₀ (hage.live hlive) (hu.trans huser) (hf.trans hfam) (he ▸ hexp))
  | spent hψ hrot huser hfam =>
    rcases hψ.of_set with ⟨rfl, rfl⟩ | ⟨-, hψ⟩
    · rcases h.spent hrot with h₀ | ⟨at_, r, h₀, hexp, hr, hid, hlive⟩
      · exact .inl (.spent hat h₀ huser hfam)
      · exact .inl (.timed hat h₀ hexp huser hfam hr hid hlive)
    · exact .inl (.spent hψ hrot huser hfam)

/-- **A login that the count has let through**: it may insert, or has inserted. -/
def Custody.Admitted (cap : ℤ) (u : UserID) (φ : Custody) : Prop :=
  (∃ n, φ.txn = .counted u n ∧ (n : ℤ) < cap) ∨ φ.txn = .inserted

/-- A transaction that holds the user's session lock after a step held it before, or takes it now,
when nobody else holds it. -/
theorem TableStep.sessionLock (h : TableStep cap t w φ cl s' n' φ') (hx : x ∈ s'.txns)
    (hlock : x.sessionLock = some u) :
    (∃ y ∈ w.tokens.txns, y.owner = x.owner ∧ y.sessionLock = some u) ∨
      x.owner = t ∧ φ'.txn = .sessionsLocked u ∧ w.tokens.sessionsLocked t u = false := by
  cases h with
  | begin =>
    rcases mem_cons.mp hx with rfl | hx
    · cases hlock
    · exact .inl ⟨x, (mem_filter_owner hx).1, rfl, hlock⟩
  | lockSessions htxn hfree =>
    rcases mem_updateTxn hx with hx | ⟨y, hy, hown, rfl⟩
    · exact .inl ⟨x, hx.1, rfl, hlock⟩
    · cases hlock
      exact .inr ⟨hown, rfl, hfree⟩
  | insert | refuse | revokeScope =>
    rcases mem_updateTxn hx with hx | ⟨y, hy, -, rfl⟩
    · exact .inl ⟨x, hx.1, rfl, hlock⟩
    · exact .inl ⟨y, hy, rfl, hlock⟩
  | @lockScope sc =>
    rcases mem_updateTxn hx with hx | ⟨y, hy, -, rfl⟩
    · exact .inl ⟨x, hx.1, rfl, hlock⟩
    · refine .inl ⟨y, hy, (owner_lock y _ _).symm, ?_⟩
      cases sc <;> exact hlock
  | commit => exact .inl ⟨x, (mem_filter_owner hx).1, rfl, hlock⟩
  | rollback => exact .inl ⟨x, (mem_filter_owner hx).1, rfl, hlock⟩
  | _ => exact .inl ⟨x, hx, rfl, hlock⟩

/-- A thread is admitted by its count, and stays admitted until it commits. -/
theorem TableStep.admitted (h : TableStep cap t w φ cl s' n' φ') (hadm : φ'.Admitted cap u)
    (hfits : ∀ y ∈ w.tokens.txns, y.owner = t → y.Fits φ.txn)
    (hheld : ∃ y ∈ w.tokens.txns, y.owner = t ∧ y.sessionLock = some u) :
    φ.Admitted cap u ∨ ∃ x, cl = .tokens (.countInTxn u) ∧ w.tokens.txnOf t = some x ∧
      (w.tokens.countActiveFamilies u x.startedAt : ℤ) < cap := by
  cases h with
  | begin | lockSessions | lockScope | revokeScope | commit | rollback =>
    rcases hadm with ⟨n, hn, -⟩ | hn <;> cases hn
  | count htxn hx =>
    rcases hadm with ⟨n, hn, hlt⟩ | hn
    · cases hn
      exact .inr ⟨_, rfl, hx, hlt⟩
    · cases hn
  | insert hfresh hborn htxn hn =>
    -- the lock the transaction holds is that of the user it counted
    obtain ⟨y, hy, hown, hlock⟩ := hheld
    have hfit := hfits y hy hown
    rw [htxn] at hfit
    rw [hfit.2.2] at hlock
    cases hlock
    exact .inl (.inl ⟨_, htxn, hn⟩)
  | _ => exact .inl hadm

end Step

/-- **The cap, as an invariant.** Some set of families has all the user's claims and is no larger
than the cap, and there is room in it for the family of a login that has been let through. -/
structure Capped (cap : ℤ) (u : UserID) (now : Time) (s : TokenStore)
    (ps : List (Req × Custody)) : Prop where
  lock_unique : ∀ {x y}, x ∈ s.txns → y ∈ s.txns → x.sessionLock = some u →
    y.sessionLock = some u → x.owner = y.owner
  room : ∃ S : Finset UUID, (∀ f, Claims u now s ps f → f ∈ S) ∧ (S.card : ℤ) ≤ cap ∧
    ∀ x ∈ s.txns, x.sessionLock = some u → ∀ φ, At ps x.owner φ → φ.Admitted cap u →
      (S.card : ℤ) < cap

namespace Capped

section Step

variable {t : ℕ} {w : World} {φ φ' : Custody} {cl : Call} {n' : ℕ} {req : Req}

theorem step_lock_unique (hC : Capped cap u w.clock w.tokens ps)
    (h : TableStep cap t w φ cl s' n' φ') {y : Txn} (hx : x ∈ s'.txns) (hy : y ∈ s'.txns)
    (hxu : x.sessionLock = some u) (hyu : y.sessionLock = some u) : x.owner = y.owner := by
  have alone : ∀ {z : Txn}, w.tokens.sessionsLocked t u = false → z ∈ w.tokens.txns →
      z.sessionLock = some u → z.owner = t := by
    intro z hfree hz hzu
    by_contra hne
    have hheld : w.tokens.sessionsLocked t u :=
      any_eq_true.mpr ⟨z, hz, by simp [hne, hzu]⟩
    rw [hfree] at hheld
    cases hheld
  rcases h.sessionLock hx hxu with ⟨x₀, hx₀, hxo, hxl⟩ | ⟨hxt, -, hfree⟩
  · rcases h.sessionLock hy hyu with ⟨y₀, hy₀, hyo, hyl⟩ | ⟨hyt, -, hfree⟩
    · rw [← hxo, ← hyo]
      exact hC.lock_unique hx₀ hy₀ hxl hyl
    · rw [hyt, ← hxo]
      exact alone hfree hx₀ hxl
  · rcases h.sessionLock hy hyu with ⟨y₀, hy₀, hyo, hyl⟩ | ⟨hyt, -, -⟩
    · rw [hxt, ← hyo]
      exact (alone hfree hy₀ hyl).symm
    · rw [hxt, hyt]

/-- Who is admitted after a step was admitted before, or has just counted to less than the cap. -/
theorem admitted_cases (hL : Ledger w.tokens w.supply ps) (h : TableStep cap t w φ cl s' n' φ')
    (hat : At ps t φ) (hx : x ∈ s'.txns) (hlock : x.sessionLock = some u) {ψ : Custody}
    (hψ : At (ps.set t (req, φ')) x.owner ψ) (hadm : ψ.Admitted cap u) :
    (∃ y ∈ w.tokens.txns, y.sessionLock = some u ∧ ∃ ψ₀, At ps y.owner ψ₀ ∧ ψ₀.Admitted cap u) ∨
      ∃ z, cl = .tokens (.countInTxn u) ∧ w.tokens.txnOf t = some z ∧
        (w.tokens.countActiveFamilies u z.startedAt : ℤ) < cap := by
  rcases h.sessionLock hx hlock with ⟨y, hy, hown, hyu⟩ | ⟨hxt, htxn, -⟩
  · rcases hψ.of_set with ⟨hxt, rfl⟩ | ⟨-, hψ⟩
    · rcases h.admitted hadm (hL.own_fits hat) ⟨y, hy, hown.trans hxt, hyu⟩ with hadm₀ | hcount
      · refine .inl ⟨y, hy, hyu, φ, ?_, hadm₀⟩
        rw [hown, hxt]
        exact hat
      · exact .inr hcount
    · exact .inl ⟨y, hy, hyu, ψ, by rw [hown]; exact hψ, hadm⟩
  · -- the lock has just been taken: nothing is counted yet
    rw [hxt] at hψ
    rw [hψ.unique hat.set_self, Custody.Admitted, htxn] at hadm
    rcases hadm with ⟨n, hn, -⟩ | hn <;> cases hn

theorem card_activeFamilies (s : TokenStore) (u : UserID) (now : Time) :
    (s.activeFamilies u now).toFinset.card = s.countActiveFamilies u now :=
  toFinset_card_of_nodup (nodup_dedup _)

theorem step_room (hC : Capped cap u w.clock w.tokens ps) (hL : Ledger w.tokens w.supply ps)
    (h : TableStep cap t w φ cl s' n' φ') (hat : At ps t φ) (hcap : 0 < cap)
    (hcounts : ∀ z, cl = .tokens (.countInTxn u) → w.tokens.txnOf t = some z →
      ∀ f, Claims u w.clock w.tokens ps f → f ∈ w.tokens.activeFamilies u z.startedAt) :
    ∃ S : Finset UUID, (∀ f, Claims u w.clock s' (ps.set t (req, φ')) f → f ∈ S) ∧
      (S.card : ℤ) ≤ cap ∧ ∀ x ∈ s'.txns, x.sessionLock = some u → ∀ ψ,
        At (ps.set t (req, φ')) x.owner ψ → ψ.Admitted cap u → (S.card : ℤ) < cap := by
  obtain ⟨S, hS, hle, hlt⟩ := hC.room
  by_cases hcount : ∃ z, cl = .tokens (.countInTxn u) ∧ w.tokens.txnOf t = some z ∧
      (w.tokens.countActiveFamilies u z.startedAt : ℤ) < cap
  · -- a count below the cap has seen every claim: the families counted are the new set
    obtain ⟨z, hcl, hz, hlt'⟩ := hcount
    refine ⟨(w.tokens.activeFamilies u z.startedAt).toFinset, ?_, ?_, ?_⟩
    · intro f hf
      rw [mem_toFinset]
      rcases claims_step hL h hat hcap hf with hf₀ | ⟨-, hcommit, -⟩
      · exact hcounts z hcl hz f hf₀
      · rw [hcl] at hcommit
        cases hcommit
    · rw [card_activeFamilies]
      exact le_of_lt hlt'
    · intro _ _ _ _ _ _
      rw [card_activeFamilies]
      exact hlt'
  by_cases hnew : ∃ f, Admits t w φ u f ∧ cl = .tokens .commit ∧ φ'.txn = .none
  · -- a login commits: there was room for its family, and its lock is gone
    obtain ⟨f₀, ⟨x, hx, howner, htxn, row, hrow, huser, hfam⟩, -, hnone⟩ := hnew
    have hfit := hL.own_fits hat x hx howner
    rw [htxn] at hfit
    obtain ⟨-, row', hrow', hlock⟩ := hfit
    obtain rfl := Option.mem_unique hrow hrow'
    rw [huser] at hlock
    have hroom : (S.card : ℤ) < cap := hlt x hx hlock φ (by rw [howner]; exact hat) (.inr htxn)
    refine ⟨insert f₀ S, ?_, ?_, ?_⟩
    · intro f hf
      rcases claims_step hL h hat hcap hf with hf₀ | ⟨⟨y, hy, hyo, -, r, hr, -, hrf⟩, -, -⟩
      · exact Finset.mem_insert_of_mem (hS f hf₀)
      · obtain rfl : y = x :=
          inj_on_of_nodup_map hL.owners hy hx (hyo.trans howner.symm)
        obtain rfl := Option.mem_unique hr hrow
        rw [← hrf, hfam]
        exact Finset.mem_insert_self _ _
    · have hcard := Finset.card_insert_le f₀ S
      omega
    · intro x' hx' hlock' ψ hψ hadm
      exfalso
      -- whoever held the user's lock was this thread
      have hx't : x'.owner = t := by
        rcases h.sessionLock hx' hlock' with ⟨y, hy, hyo, hyl⟩ | ⟨hx't, -, -⟩
        · rw [← hyo, hC.lock_unique hy hx hyl hlock, howner]
        · exact hx't
      rcases h.txn (hL.own_fits hat) hx' with ⟨-, hne⟩ | ⟨-, hfit'⟩
      · exact hne hx't
      · rw [hnone] at hfit'
        exact hfit'
  · refine ⟨S, ?_, hle, ?_⟩
    · intro f hf
      rcases claims_step hL h hat hcap hf with hf₀ | hadmits
      · exact hS f hf₀
      · exact absurd ⟨f, hadmits⟩ hnew
    · intro x hx hlock ψ hψ hadm
      rcases admitted_cases hL h hat hx hlock hψ hadm with ⟨y, hy, hyu, ψ₀, hψ₀, hadm₀⟩ | hcount'
      · exact hlt y hy hyu ψ₀ hψ₀ hadm₀
      · exact absurd hcount' hcount

end Step

section Frame

section

variable (hC : Capped cap u now s ps)
include hC

/-- Fewer claims, fewer transactions: the same set has room. -/
theorem mono {now' : Time} {ps' : List (Req × Custody)} (hsub : s'.txns ⊆ s.txns)
    (hclaims : ∀ f, Claims u now' s' ps' f → Claims u now s ps f)
    (hphase : ∀ x ∈ s.txns, ∀ φ, At ps' x.owner φ → φ.Admitted cap u → At ps x.owner φ) :
    Capped cap u now' s' ps' := by
  obtain ⟨S, hS, hle, hlt⟩ := hC.room
  refine ⟨fun hx hy => hC.lock_unique (hsub hx) (hsub hy), S, ?_, hle, ?_⟩
  · intro f hf
    exact hS f (hclaims f hf)
  · intro x hx hlock φ hφ hadm
    exact hlt x (hsub hx) hlock φ (hphase x (hsub hx) φ hφ hadm) hadm

theorem spawn (req : Req) : Capped cap u now s (ps ++ [(req, .start)]) := by
  refine hC.mono (Subset.refl _) ?_ ?_
  · intro f hf
    cases hf with
    | row hr hlive huser hfam hexp => exact .row hr hlive huser hfam hexp
    | timed hat hrot hexp huser hfam hr hid hlive =>
      exact .timed (hat.of_snoc (by rintro rfl; cases hrot)) hrot hexp huser hfam hr hid hlive
    | spent hat hrot huser hfam =>
      exact .spent (hat.of_snoc (by rintro rfl; cases hrot)) hrot huser hfam
  · intro x _ φ hφ hadm
    rcases hφ.of_append with hφ | ⟨-, rfl⟩
    · exact hφ
    · rcases hadm with ⟨n, hn, -⟩ | hn <;> cases hn

theorem rollback (t : ℕ) : Capped cap u now (s.rollback t) ps := by
  refine hC.mono (fun x hx => (mem_filter_owner hx).1) ?_ fun _ _ _ h _ => h
  intro f hf
  cases hf with
  | row hr hlive huser hfam hexp => exact .row hr hlive huser hfam hexp
  | timed hat hrot hexp huser hfam hr hid hlive =>
    exact .timed hat hrot hexp huser hfam hr hid hlive
  | spent hat hrot huser hfam => exact .spent hat hrot huser hfam

theorem tick (d : ℕ) : Capped cap u (now + d) s ps := by
  refine hC.mono (Subset.refl _) ?_ fun _ _ _ h _ => h
  intro f hf
  cases hf with
  | row hr hlive huser hfam hexp =>
    exact .row hr hlive huser hfam
      (le_trans (Int.le_add_of_nonneg_right (Int.natCast_nonneg d)) hexp)
  | timed hat hrot hexp huser hfam hr hid hlive =>
    exact .timed hat hrot hexp huser hfam hr hid hlive
  | spent hat hrot huser hfam => exact .spent hat hrot huser hfam

end

end Frame

end Capped

/-! ### The condition on a run -/

/-- The families of a user with a live row that a refresh would accept. -/
def TokenStore.openFamilies (s : TokenStore) (u : UserID) (now : Time) : List UUID :=
  ((s.rows.filter fun r => r.userID == u && r.live && decide (now ≤ r.expiresAt)).map
    fun r => r.familyID).dedup

/-- A world in which the user has at most `cap` sessions open. -/
def World.WithinCap (cap : ℤ) (u : UserID) (w : World) : Prop :=
  w.WellFormed ∧ ((w.tokens.openFamilies u w.clock).length : ℤ) ≤ cap

/-- **Every count sees every claim**: whenever a login counts the user's sessions, the families that
claim one are among those it counts. -/
def countsClaims {cfg : Settings} (u : UserID) (c : Config (service cfg)) :
    Label (service cfg) → Prop
  | .act t => ∀ x, c.pending t = some (.tokens (.countInTxn u)) → c.world.tokens.txnOf t = some x →
      ∀ f, Claims u c.world.clock c.world.tokens (c.phases (custody cfg)) f →
        f ∈ c.world.tokens.activeFamilies u x.startedAt
  | _ => True

/-- The families that claim a session, listed. -/
def claimants (u : UserID) (now : Time) (s : TokenStore) (ps : List (Req × Custody)) : List UUID :=
  s.openFamilies u now ++ ps.flatMap fun p =>
    match p.2.rotation with
    | .timed stored at_ =>
      if at_ ≤ stored.expiresAt ∧ stored.userID = u ∧
          s.rows.any (fun r => r.id == stored.id && r.live) then [stored.familyID] else []
    | .spent stored => if stored.userID = u then [stored.familyID] else []
    | _ => []

theorem mem_claimants
    {f : UUID} (h : Claims u now s ps f) : f ∈ claimants u now s ps := by
  cases h with
  | row hr hlive huser hfam hexp =>
    refine mem_append_left _ ?_
    rw [TokenStore.openFamilies, mem_dedup, mem_map]
    exact ⟨_, mem_filter.mpr ⟨hr, by simp [huser, hlive, hexp]⟩, hfam⟩
  | timed hat hrot hexp huser hfam hr hid hlive =>
    rename_i t φ stored at_ r
    obtain ⟨req, hp⟩ := hat
    refine mem_append_right _ (mem_flatMap.mpr ⟨_, mem_of_getElem? hp, ?_⟩)
    have hany : s.rows.any (fun r => r.id == stored.id && r.live) :=
      any_eq_true.mpr ⟨r, hr, by simp [hid, hlive]⟩
    simp only [hrot]
    rw [if_pos ⟨hexp, huser, hany⟩, hfam]
    exact mem_singleton_self f
  | spent hat hrot huser hfam =>
    obtain ⟨req, hp⟩ := hat
    refine mem_append_right _ (mem_flatMap.mpr ⟨_, mem_of_getElem? hp, ?_⟩)
    simp only [hrot]
    rw [if_pos huser, hfam]
    exact mem_singleton_self f

def countsClaimsTest {cfg : Settings} (u : UserID) (c : Config (service cfg)) :
    Label (service cfg) → Bool
  | .act t =>
    match c.pending t, c.world.tokens.txnOf t with
    | some (.tokens (.countInTxn _)), some x =>
      (claimants u c.world.clock c.world.tokens (c.phases (custody cfg))).all fun f =>
        (c.world.tokens.activeFamilies u x.startedAt).contains f
    | _, _ => true
  | _ => true

theorem countsClaims_of_test {cfg : Settings} (u : UserID) (c : Config (service cfg))
    (l : Label (service cfg)) (h : countsClaimsTest u c l) : countsClaims u c l := by
  cases l with
  | act =>
    intro x hpend hx f hf
    simp only [countsClaimsTest, hpend, hx, all_eq_true, contains_iff_mem] at h
    exact h f (mem_claimants hf)
  | spawn | fault | nudge => trivial

theorem TokenStore.WellFormed.capped {n : ℕ} (h : s.WellFormed n)
    (hopen : ((s.openFamilies u now).length : ℤ) ≤ cap) :
    Capped cap u now s [] := by
  have idle : ∀ {x}, x ∉ s.txns := by
    intro x hx
    rw [h.txns] at hx
    cases hx
  refine ⟨fun hx => absurd hx idle, (s.openFamilies u now).toFinset, ?_, ?_,
    fun x hx => absurd hx idle⟩
  · intro f hf
    cases hf with
    | row hr hlive huser hfam hexp =>
      have hmem := mem_claimants (.row hr hlive huser hfam hexp : Claims u now s [] f)
      rw [mem_toFinset]
      simpa [claimants] using hmem
    | timed hat | spent hat => exact absurd hat not_at_nil
  · have hnodup : (s.openFamilies u now).Nodup := nodup_dedup _
    rw [toFinset_card_of_nodup hnodup]
    exact hopen

theorem capped_invariant (cfg : Settings) (u : UserID) (hcap : 0 < cfg.maxSessionsPerUser) :
    TableInvariant cfg (World.WithinCap cfg.maxSessionsPerUser u) (countsClaims u)
      (fun now s n ps => Ledger s n ps ∧ Capped cfg.maxSessionsPerUser u now s ps) where
  init _ hw := ⟨hw.1.ledger, hw.1.capped hw.2⟩
  spawn _ _ _ _ r h := ⟨h.1.spawn r, h.2.spawn r⟩
  refused w ps t r φ b ν h hat := by
    have hstep : TableStep cfg.maxSessionsPerUser t w φ .now w.tokens w.supply _ := .aside .now b ν
    exact ⟨h.1.step hstep ⟨r, hat⟩, h.2.step_lock_unique hstep,
      h.2.step_room h.1 hstep ⟨r, hat⟩ hcap fun z hcl => by cases hcl⟩
  step c t r φ cl s' n' φ' _ h hat hpend hok hstep := by
    refine ⟨h.1.step hstep ⟨r, hat⟩, h.2.step_lock_unique hstep,
      h.2.step_room h.1 hstep ⟨r, hat⟩ hcap ?_⟩
    rintro z rfl hz
    exact hok z hpend hz
  tick _ _ _ _ d h := ⟨h.1, h.2.tick d⟩
  disconnect _ _ _ _ t h := ⟨h.1.rollback t, h.2.rollback t⟩

/-- **The session cap.** From a state with at most `N` sessions open, along every run whose counts
see every claim, a user never has more than `N` families with an unused, unrevoked, unexpired
row. -/
theorem session_cap {cfg : Settings} {u : UserID} {c : Config (service cfg)}
    (hcap : 0 < cfg.maxSessionsPerUser)
    (hc : Reachable (World.WithinCap cfg.maxSessionsPerUser u) (countsClaims u) c) :
    (c.world.tokens.countActiveFamilies u c.world.clock : ℤ) ≤ cfg.maxSessionsPerUser := by
  obtain ⟨⟨-, hC⟩, -⟩ := (capped_invariant cfg u hcap).keeps.reachable hc
  obtain ⟨S, hS, hle, -⟩ := hC.room
  rw [← Capped.card_activeFamilies]
  have hsub : (c.world.tokens.activeFamilies u c.world.clock).toFinset ⊆ S := by
    intro f hf
    rw [List.mem_toFinset, TokenStore.activeFamilies, List.mem_dedup, List.mem_map] at hf
    obtain ⟨r, hr, hfam⟩ := hf
    obtain ⟨hr, hact⟩ := List.mem_filter.mp hr
    simp only [Row.active, Bool.and_eq_true, beq_iff_eq, Bool.not_eq_true',
      decide_eq_true_eq] at hact
    obtain ⟨⟨⟨huser, hrev⟩, hused⟩, hexp⟩ := hact
    refine hS f (.row hr ?_ huser hfam (le_of_lt hexp))
    simp [Row.live, hrev, hused]
  have hcard := Finset.card_le_card hsub
  omega

namespace Sample

/-- The deployment with a cap on sessions. -/
def withCap (n : ℤ) : Settings :=
  { settings with maxSessionsPerUser := n, strictSessionLimit := true }

theorem world_withinCap (n : ℤ) (hn : 0 ≤ n) : world.WithinCap n "u" := ⟨world_wellFormed, hn⟩

/-- A cap of two: a login, a refresh that finishes, and a second login. -/
def fullHouse : Config (service (withCap 2)) :=
  (execAll (countsClaimsTest "u") ⟨world, []⟩
    ([.spawn (.login loginInput)] ++ acts 0 29 ++ [.spawn (.refresh (refreshInput 3))] ++
      acts 1 12 ++ [.spawn (.login loginInput)] ++ acts 2 28)).getD ⟨world, []⟩

theorem fullHouse_reachable :
    Reachable (World.WithinCap (withCap 2).maxSessionsPerUser "u") (countsClaims "u") fullHouse :=
  ⟨world, world_withinCap 2 (by decide), run_execAll (countsClaims_of_test "u") _ _⟩

/-- A cap of one: a login, a refresh that has spent its token, a second login that finds nothing to
count; then the refresh goes on. -/
def overCap : Config (service (withCap 1)) :=
  (execAll (fun _ _ => true) ⟨world, []⟩
    ([.spawn (.login loginInput)] ++ acts 0 29 ++
      [.spawn (.refresh (refreshInput 3))] ++ acts 1 4 ++
      [.spawn (.login loginInput)] ++ acts 2 28 ++ acts 1 8)).getD ⟨world, []⟩

end Sample

theorem session_cap_fullHouse :
    Sample.fullHouse.world.tokens.countActiveFamilies "u" Sample.fullHouse.world.clock = 2 ∧
      (Sample.fullHouse.world.tokens.countActiveFamilies "u" Sample.fullHouse.world.clock : ℤ) ≤
        (Sample.withCap 2).maxSessionsPerUser :=
  ⟨by decide +kernel, session_cap (by decide) Sample.fullHouse_reachable⟩

/-- **The cap can be exceeded.** A login that counts while a rotation is between `MarkUsed` and
`Create` does not see the rotation's family. -/
theorem session_cap_exceeded :
    Reachable (World.WithinCap 1 "u") anyStep Sample.overCap ∧
      (Sample.withCap 1).maxSessionsPerUser = 1 ∧
      Sample.overCap.world.tokens.countActiveFamilies "u" Sample.overCap.world.clock = 2 :=
  ⟨⟨Sample.world, Sample.world_withinCap 1 (by decide), run_execAll (fun _ _ _ => trivial) _ _⟩,
    rfl, by decide +kernel⟩

end Vault42
