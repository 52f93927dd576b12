import Vault42.Admin.Operator
import Vault42.Session.TableStep

/-!
# Containment of an account

`BanUser` and `LockUser` write their flag, revoke every session of the account, and return. What has
read the account before the flag was written goes by what it read: a login between its account gate
and its insert has no row yet for the revocation to find, and the insert itself looks for a revoked
family and for a tombstone, not for a ban or a lock. It stores a live row in a family of its own and
answers with tokens, after the operator was told that the sessions are revoked. And the access token
of a callback waits for a minute behind an exchange code; `Exchange` gives it to whoever presents
the code, and looks at no account.

`Settled` is the condition under which neither happens: when the flag is written, whoever has read
the account as it was before has answered its request, no open transaction holds a row of it, and no
access token of it waits behind a code.

* `contained_of_reachable`: along every run in which the flag is written so, and the sanction stays
  in force, no request in flight goes by an older row, so that none stores a token of the account;
  and the rows the operator's transaction has marked are all of them.
* `operator_containment`: after the operator's call has returned, in every later state no row of the
  account is live, and no call has returned tokens of it that had not returned them before.
* `Sample.login_outlives_ban`, `Sample.code_outlives_ban`: without the condition, a login that
  straddles a ban, and an exchange code that is redeemed after it.
-/

namespace Vault42.Operator

open Framework Program List Option TokenStore Sigma

/-! ### The rows of an account -/

/-- No open transaction holds a row of the account. -/
def NonePending (u : UserID) (s : TokenStore) : Prop :=
  ∀ x ∈ s.txns, ∀ r, x.inserted = some r → r.userID ≠ u

/-- **What a statement of thread `t` that stores no token of the account does to its rows**: it adds
none and takes no revocation back, and it leaves the transactions of the others alone. -/
structure Spares (u : UserID) (t : ℕ) (s s' : TokenStore) : Prop where
  rows : ∀ r' ∈ s'.rows, r'.userID = u →
    ∃ r ∈ s.rows, r.id = r'.id ∧ r.userID = u ∧ (r.revoked → r'.revoked)
  unpending : NonePending u s'
  others : ∀ x ∈ s'.txns, x.owner ≠ t → x ∈ s.txns

section Spares

variable {u : UserID} {t : ℕ} {s : TokenStore}

theorem Spares.refl (h : NonePending u s) : Spares u t s s :=
  ⟨fun r hr hu => ⟨r, hr, rfl, hu, id⟩, h, fun _ hx _ => hx⟩

theorem spares_updateTxn {f : Txn → Txn} (h : NonePending u s) (howner : ∀ x, (f x).owner = x.owner)
    (hf : ∀ x ∈ s.txns, ∀ r, (f x).inserted = some r → r.userID ≠ u) :
    Spares u t s (s.updateTxn t f) := by
  refine ⟨fun r hr hu => ⟨r, hr, rfl, hu, id⟩, fun x' hx' r hr => ?_, fun x' hx' hne => ?_⟩
  · obtain ⟨x, hx, rfl⟩ := mem_map.mp hx'
    split at hr
    · exact hf x hx r hr
    · exact h x hx r hr
  · obtain ⟨x, hx, rfl⟩ := mem_map.mp hx'
    split at hne
    next hown => exact absurd ((howner x).trans hown) hne
    next hown =>
      rw [if_neg hown]
      exact hx

theorem spares_rollback (h : NonePending u s) : Spares u t s (s.rollback t) :=
  ⟨fun r hr hu => ⟨r, hr, rfl, hu, id⟩, fun x hx => h x (mem_filter.mp hx).1,
    fun _ hx _ => (mem_filter.mp hx).1⟩

theorem mem_revokeIds {rows : List Row} {ids : List UUID} {r' : Row}
    (h : r' ∈ revokeIds rows ids) :
    ∃ r ∈ rows, r.id = r'.id ∧ r.userID = r'.userID ∧ (r.revoked → r'.revoked) ∧
      (r.id ∈ ids → r'.revoked) := by
  obtain ⟨r, hr, rfl⟩ := mem_map.mp h
  refine ⟨r, hr, ?_⟩
  split
  next hid => exact ⟨rfl, rfl, fun _ => rfl, fun _ => rfl⟩
  next hid => exact ⟨rfl, rfl, id, fun h => absurd h hid⟩

section

variable (h : NonePending u s)
include h

theorem spares_commit : Spares u t s (s.commit t).2 := by
  simp only [commit]
  cases hx : s.txnOf t with
  | none => exact .refl h
  | some x =>
    refine ⟨fun r' hr' hu => ?_, fun y hy => h y (mem_filter.mp hy).1,
      fun _ hy _ => (mem_filter.mp hy).1⟩
    rcases mem_append.mp hr' with hr' | hr'
    · obtain ⟨r, hr, hid, huser, hkept, -⟩ := mem_revokeIds hr'
      exact ⟨r, hr, hid, huser.trans hu, hkept⟩
    · exact absurd hu (h x (mem_of_find?_eq_some hx) r' (mem_toList.mp hr'))

theorem spares_reapBatch (dead : Row → Bool) : Spares u t s (s.reapBatch dead).2 :=
  ⟨fun r hr hu => ⟨r, (mem_filter.mp hr).1, rfl, hu, id⟩, h, fun _ hx _ => hx⟩

theorem spares_markUsed (id : UUID) : Spares u t s (s.markUsed id).2 := by
  refine ⟨fun r' hr' hu => ?_, h, fun _ hx _ => hx⟩
  obtain ⟨r, hr, rfl⟩ := mem_map.mp hr'
  refine ⟨r, hr, ?_⟩
  by_cases hspend : spendable id r
  · rw [if_pos hspend] at hu ⊢
    exact ⟨rfl, hu, fun h => h⟩
  · rw [if_neg hspend] at hu ⊢
    exact ⟨rfl, hu, fun h => h⟩

theorem spares_create (users : List User) {tok : RefreshToken} (htok : tok.userID ≠ u) :
    Spares u t s (s.create users tok).2 := by
  simp only [create]
  split
  · split
    · exact .refl h
    · refine ⟨fun r hr hu => ?_, h, fun _ hx _ => hx⟩
      rcases mem_append.mp hr with hr | hr
      · exact ⟨r, hr, rfl, hu, id⟩
      · obtain rfl := mem_singleton.mp hr
        exact absurd hu htok
  · exact .refl h

theorem spares_insertInTxn (users : List User) {tok : RefreshToken} (htok : tok.userID ≠ u) :
    Spares u t s (s.insertInTxn t users tok).2 := by
  simp only [insertInTxn]
  cases s.txnOf t with
  | none => exact .refl h
  | some x =>
    dsimp only
    split
    · split
      · exact .refl h
      · refine spares_updateTxn h (fun _ => rfl) ?_
        rintro x - r hr
        obtain rfl := some.inj hr
        exact htok
    · exact spares_updateTxn h (fun _ => rfl) h

end

variable {w : World}

/-- A statement on the token table that stores no token of the account. -/
theorem answerTokens_spares (h : NonePending u w.tokens) (q : TokenCall)
    (hq : ∀ tok, (Call.tokens q).stores = some tok → tok.userID ≠ u) :
    Spares u t w.tokens (answerTokens t w q).2 := by
  cases q with
  | create tok => exact spares_create h _ (hq tok rfl)
  | insertInTxn tok => exact spares_insertInTxn h _ (hq tok rfl)
  | markUsed id => exact spares_markUsed h id
  | deleteExpired | deleteExpiredUnused => exact spares_reapBatch h _
  | begin =>
    refine ⟨fun r hr hu => ⟨r, hr, rfl, hu, id⟩, fun x hx r hr => ?_, fun x hx hne => ?_⟩
    · rcases mem_cons.mp hx with rfl | hx
      · cases hr
      · exact h x (mem_filter.mp hx).1 r hr
    · rcases mem_cons.mp hx with rfl | hx
      · exact absurd rfl hne
      · exact (mem_filter.mp hx).1
  | lockSessions =>
    simp only [answerTokens, lockSessions]
    cases w.tokens.txnOf t with
    | none => exact .refl h
    | some => exact spares_updateTxn h (fun _ => rfl) h
  | countInTxn =>
    simp only [answerTokens]
    cases w.tokens.txnOf t with
    | none | some => exact .refl h
  | lockScope sc =>
    simp only [answerTokens, lockScope]
    cases w.tokens.txnOf t with
    | none => exact .refl h
    | some x =>
      refine spares_updateTxn h (fun x => ?_) fun x hx r hr => h x hx r ?_
      · cases sc <;> rfl
      · cases sc <;> exact hr
  | revokeScope =>
    simp only [answerTokens, revokeScope]
    cases w.tokens.txnOf t with
    | none => exact .refl h
    | some => exact spares_updateTxn h (fun _ => rfl) h
  | commit => exact spares_commit h
  | rollback => exact spares_rollback h
  | _ => exact .refl h

theorem answer_spares (h : NonePending u w.tokens) (cl : Call)
    (hcl : ∀ tok, cl.stores = some tok → tok.userID ≠ u) :
    Spares u t w.tokens (answer t cl w).2.tokens := by
  cases cl with
  | tokens q => exact answerTokens_spares h q hcl
  | updatePassword | createDevice =>
    simp only [answer]
    split <;> exact .refl h
  | _ => exact .refl h

end Spares

/-! ### The tokens behind exchange codes -/

/-- No access token of the account waits behind an exchange code. -/
def NoneWaiting (u : UserID) (m : MemoryCache CacheKey CacheValue) : Prop :=
  ∀ code fp e token, m.slot (.oauthCode code fp) = some e → e.value = .exchange token →
    token.subject ≠ u

section Waiting

variable {u : UserID} {t : ℕ} {w : World}

theorem answer_waiting (h : NoneWaiting u w.cache) (cl : Call)
    (hcl : ∀ token, cl.handsOver = some token → token.subject ≠ u) :
    NoneWaiting u (answer t cl w).2.cache := by
  cases cl with
  | cacheSet k v ttl =>
    intro code fp e token he hv
    rcases w.cache.slot_set_cases he with hold | ⟨rfl, rfl⟩
    · exact h code fp e token hold hv
    · exact hcl token (by rw [hv]; rfl)
  | cacheSetIfNotExists k v ttl =>
    intro code fp e token he hv
    rcases w.cache.slot_setIfNotExists_cases he with hold | ⟨rfl, rfl⟩
    · exact h code fp e token hold hv
    · exact hcl token (by rw [hv]; rfl)
  | cacheIncrement k ttl =>
    intro code fp e token he hv
    rcases w.cache.slot_increment_cases he with hold | ⟨n, hn⟩
    · exact h code fp e token hold hv
    · rw [hn] at hv
      cases hv
  | cacheDelete k =>
    intro code fp e token he
    exact h code fp e token (w.cache.slot_delete_cases he)
  | cacheGetAndDelete k =>
    intro code fp e token he
    refine h code fp e token ?_
    simp only [answer, MemoryCache.getAndDelete] at he
    split at he
    · exact he
    · exact w.cache.slot_delete_cases he
  | updatePassword | createDevice =>
    simp only [answer]
    split <;> exact h
  | _ => exact h

theorem NoneWaiting.cleanup (h : NoneWaiting u w.cache) (now : Time) :
    NoneWaiting u (w.cache.cleanup now) := by
  intro code fp e token he
  rw [w.cache.slot_cleanup, Slot.swept, Option.filter_eq_some_iff] at he
  exact h code fp e token he.1

end Waiting

/-! ### What has been read of the account -/

/-- The sanction shows on the row. -/
def Sanction.On : Sanction → User → Prop
  | .ban, user => user.banned
  | .lock until_, user => ∃ t, user.lockedUntil = some t ∧ until_ ≤ t

/-- **The sanction is in force**: it shows on the account's row, and has not expired. -/
def InForce (s : Sanction) (u : UserID) (w : World) : Prop :=
  (∀ x ∈ w.users, x.id = u → s.On x) ∧ ∀ until_, s = .lock until_ → w.clock < until_

/-- The account's row was read as it is without the sanction, or an access token of it was taken
from behind an exchange code. -/
def Unaware (s : Sanction) (u : UserID) (φ : List (Event vault)) : Prop :=
  (∃ user, RowRead φ user u ∧ ¬ s.On user) ∨ ∃ token, Taken φ token ∧ token.subject = u

section Read

variable {s : Sanction} {u : UserID} {φ : List (Event vault)} {w : World}

/-- Whoever has read no other row was not let through by it. -/
theorem not_vetted (h : ¬ Unaware s u φ) (hclock : ∀ now, ⟨.now, now⟩ ∈ φ → now ≤ w.clock)
    (hforce : InForce s u w) : ¬ vetted.clears φ u := by
  rintro ⟨user, now, hread, hbanned, hnow, hopen⟩
  have hon : s.On user := by_contra fun hoff => h (.inl ⟨user, hread, hoff⟩)
  cases s with
  | ban => exact absurd (hbanned.symm.trans hon) (by simp)
  | lock until_ =>
    obtain ⟨t, ht, hle⟩ := hon
    have hlt : now < t :=
      calc now ≤ w.clock := hclock now hnow
        _ < until_ := hforce.2 until_ rfl
        _ ≤ t := hle
    rw [User.lockedAt, ht] at hopen
    exact absurd hlt (of_decide_eq_false hopen)

theorem rowRead_cons {cl : Call} {r : cl.Reply} {user : User} (h : RowRead (⟨cl, r⟩ :: φ) user u) :
    RowRead φ user u ∨
      (∃ email, (⟨cl, r⟩ : Event vault) = ⟨.getByEmail email, .ok (some user)⟩ ∧ user.id = u) ∨
      ∃ v, (⟨cl, r⟩ : Event vault) = ⟨.getByID v, .ok (some user)⟩ ∧ (v = u ∨ user.id = u) := by
  rcases h with ⟨email, hmem, hid⟩ | ⟨v, hmem, hid⟩
  · rcases mem_cons.mp hmem with heq | hmem
    · exact .inr (.inl ⟨email, heq.symm, hid⟩)
    · exact .inl (.inl ⟨email, hmem, hid⟩)
  · rcases mem_cons.mp hmem with heq | hmem
    · exact .inr (.inr ⟨v, heq.symm, hid⟩)
    · exact .inl (.inr ⟨v, hmem, hid⟩)

theorem taken_cons {cl : Call} {r : cl.Reply} {token : AccessClaims}
    (h : Taken (⟨cl, r⟩ :: φ) token) :
    Taken φ token ∨ ∃ code fp, (⟨cl, r⟩ : Event vault) =
      ⟨.cacheGetAndDelete (.oauthCode code fp), .ok (some (.exchange token))⟩ := by
  obtain ⟨code, fp, hmem⟩ := h
  rcases mem_cons.mp hmem with heq | hmem
  · exact .inr ⟨code, fp, heq.symm⟩
  · exact .inl ⟨code, fp, hmem⟩

/-- **While the sanction is in force, what is read shows it**, and nothing can be taken. -/
theorem not_unaware_answer {t : ℕ} {cl : Call} (h : ¬ Unaware s u φ) (hforce : InForce s u w)
    (hwaiting : NoneWaiting u w.cache) : ¬ Unaware s u (⟨cl, (answer t cl w).1⟩ :: φ) := by
  rintro (⟨user, hread, hoff⟩ | ⟨token, htaken, hu⟩)
  swap
  · rcases taken_cons htaken with htaken | ⟨code, fp, heq⟩
    · exact h (.inr ⟨token, htaken, hu⟩)
    · obtain rfl : cl = .cacheGetAndDelete (.oauthCode code fp) := congrArg fst heq
      have hr : (w.cache.getAndDelete w.clock (.oauthCode code fp)).1 = some (.exchange token) :=
        Except.ok.inj (eq_of_heq (mk.inj heq).2)
      obtain ⟨e, he, hv⟩ := w.cache.slot_of_getAndDelete hr
      exact hwaiting code fp e token he hv hu
  rcases rowRead_cons hread with hread | ⟨email, heq, hid⟩ | ⟨v, heq, hid⟩
  · exact h (.inl ⟨user, hread, hoff⟩)
  · obtain rfl : cl = .getByEmail email := congrArg fst heq
    have hr : w.userByEmail email = some user := Except.ok.inj (eq_of_heq (mk.inj heq).2)
    exact hoff (hforce.1 user (mem_of_find?_eq_some hr) hid)
  · obtain rfl : cl = .getByID v := congrArg fst heq
    have hr : w.userByID v = some user := Except.ok.inj (eq_of_heq (mk.inj heq).2)
    have hv : user.id = v := by simpa using find?_some hr
    refine hoff (hforce.1 user (mem_of_find?_eq_some hr) ?_)
    rcases hid with rfl | hid
    · exact hv
    · exact hid

theorem not_unaware_fault {cl : Call} {r : cl.Reply} (h : ¬ Unaware s u φ) (hr : Fault cl r) :
    ¬ Unaware s u (⟨cl, r⟩ :: φ) := by
  rintro (⟨user, hread, hoff⟩ | ⟨token, htaken, hu⟩)
  swap
  · rcases taken_cons htaken with htaken | ⟨code, fp, heq⟩
    · exact h (.inr ⟨token, htaken, hu⟩)
    · cases heq
      obtain ⟨e, he⟩ := hr
      cases he
  rcases rowRead_cons hread with hread | ⟨email, heq, hid⟩ | ⟨v, heq, hid⟩
  · exact h (.inl ⟨user, hread, hoff⟩)
  · cases heq
    obtain ⟨e, he⟩ := hr
    cases he
  · cases heq
    obtain ⟨e, he⟩ := hr
    cases he

end Read

/-! ### Runs -/

section Runs

variable {cfg : Settings} {hasTokens : Bool} {Init : World × List OperatorEvent → Prop} {p : ℕ}
  {u : UserID} {s : Sanction} {c c' : Config (operated cfg hasTokens)}
  {l : Label (operated cfg hasTokens)}
  {ok : Config (operated cfg hasTokens) → Label (operated cfg hasTokens) → Prop}

/-- Thread `p` has imposed the sanction. -/
def Flagged (c : Config (operated cfg hasTokens)) (p : ℕ) (u : UserID) (s : Sanction) : Prop :=
  ∃ th, c.threads[p]? = some th ∧ Imposed th.past u s

/-- **Nothing in flight goes by the account as it is without the sanction**: whoever has read it so
has answered its request, no open transaction holds a row of it, and no access token of it waits
behind an exchange code. -/
structure Settled (c : Config (operated cfg hasTokens)) (u : UserID) (s : Sanction) : Prop where
  aware : ∀ (t : ℕ) th r, c.threads[t]? = some th →
    th.req = .inl r → th.result = none → ¬ Unaware s u (lefts th.past)
  unpending : NonePending u c.world.1.tokens
  unclaimed : NoneWaiting u c.world.1.cache

/-- From the moment thread `p` has imposed the sanction, it stays in force. -/
def Sanctioned (p : ℕ) (u : UserID) (s : Sanction) (c : Config (operated cfg hasTokens))
    (_ : Label (operated cfg hasTokens)) : Prop :=
  Flagged c p u s → InForce s u c.world.1

/-- And nothing is in flight when it is imposed. -/
def Orderly (p : ℕ) (u : UserID) (s : Sanction) (c : Config (operated cfg hasTokens))
    (l : Label (operated cfg hasTokens)) : Prop :=
  Sanctioned p u s c l ∧ (l = .act p → c.pending p = some (.inr (s.call u)) → Settled c u s)

variable {th : Thread (operated cfg hasTokens)}

theorem now_le (hc : Reachable Init ok c) {t : ℕ} (hth : c.threads[t]? = some th) {now : Time}
    (hmem : ⟨.now, now⟩ ∈ lefts th.past) : now ≤ c.world.1.clock := by
  have hfault : ¬ (operated cfg hasTokens).Fault (.inl .now) now := id
  refine hc.since (P := fun c : Config (operated cfg hasTokens) => now ≤ c.world.1.clock)
    ?_ ?_ hfault hth (mem_lefts.mp hmem)
  · intro c l c' _ hle _ hs
    refine hle.trans ?_
    cases hs with
    | spawn | fault => exact le_refl _
    | nudge n =>
      cases n with
      | inr n => exact n.elim
      | inl n =>
        cases n with
        | tick d => exact Int.le_add_of_nonneg_right (Int.natCast_nonneg d)
        | addUser x => exact (nudge_addUser x c.world.1).1.ge
        | _ => exact le_refl _
    | @act t th cl =>
      cases cl with
      | inl cl => exact (answer_clock t cl c.world.1).ge
      | inr cl => cases cl <;> exact le_refl _
  · rintro c t c' - rfl - - hworld
    rw [hworld]
    exact le_refl _

/-- **Nobody in flight stores a token of the account or hands one over** while the sanction is in
force. -/
theorem stores_other (hc : Reachable Init ok c) (h : Settled c u s) (hforce : InForce s u c.world.1)
    {t : ℕ} (hth : c.threads[t]? = some th) {cl : Call} (hpend : th.pending = some (.inl cl)) :
    (∀ tok, cl.stores = some tok → tok.userID ≠ u) ∧
      ∀ token, cl.handsOver = some token → token.subject ≠ u := by
  cases hreq : th.req with
  | inl r =>
    obtain ⟨cl', heq, hallows⟩ := hc.allows_inl hth hreq (serve_vetted r) hpend
    obtain rfl : cl = cl' := Sum.inl.inj heq
    have haware := h.aware t th r hth hreq (Thread.result_eq_none hpend)
    have hclosed : ¬ vetted.clears (lefts th.past) u :=
      not_vetted haware (fun _ => now_le hc hth) hforce
    constructor
    · rintro tok hcl rfl
      exact hclosed (hallows.clears hcl)
    · rintro token hcl rfl
      exact hclosed (hallows.clears_handsOver hcl)
  | inr r =>
    -- an operator's handler stores nothing and hands nothing over
    have hprog : ((operated cfg hasTokens).program th.req).Obeys conduct (fun _ _ => True) [] := by
      rw [hreq]
      exact (operator_conduct hasTokens r).bind fun _ _ _ => trivial
    have hconduct : Conduct th.past (.inl cl) := hc.allows_history hth hprog hpend
    by_cases hcommit : cl = .tokens .commit
    · subst hcommit
      exact ⟨by rintro tok ⟨⟩, by rintro token ⟨⟩⟩
    obtain ⟨hstores, hhands⟩ := conduct_of_ne hcommit hconduct
    refine ⟨fun tok hcl => ?_, fun token hcl => ?_⟩
    · rw [hstores] at hcl
      cases hcl
    · rw [hhands] at hcl
      cases hcl

/-- What a step does to the rows of the account, and to the transaction of thread `p` unless the
step is its own. -/
theorem table_step (hc : Reachable Init ok c) (h : Settled c u s) (hforce : InForce s u c.world.1)
    (hs : Step c l c') (p : ℕ) :
    (∃ t, Spares u t c.world.1.tokens c'.world.1.tokens) ∧
      (l = .act p ∨ ∀ x ∈ c'.world.1.tokens.txns, x.owner = p → x ∈ c.world.1.tokens.txns) := by
  have same := Spares.refl (t := p) h.unpending
  cases hs with
  | spawn | fault => exact ⟨⟨p, same⟩, .inr fun _ hx _ => hx⟩
  | nudge n =>
    cases n with
    | inr n => exact n.elim
    | inl n =>
      cases n with
      | disconnect t =>
        exact ⟨⟨t, spares_rollback h.unpending⟩, .inr fun _ hx _ => (mem_filter.mp hx).1⟩
      | addUser x =>
        have heq : (nudge (.addUser x) c.world.1).tokens = c.world.1.tokens :=
          (nudge_addUser x c.world.1).2.1
        show (∃ t, Spares u t c.world.1.tokens (nudge (.addUser x) c.world.1).tokens) ∧
          (_ ∨ ∀ y ∈ (nudge (.addUser x) c.world.1).tokens.txns, _)
        rw [heq]
        exact ⟨⟨p, same⟩, .inr fun _ hx _ => hx⟩
      | _ => exact ⟨⟨p, same⟩, .inr fun _ hx _ => hx⟩
  | @act t th cl k hth hrest =>
    cases cl with
    | inr cl => cases cl <;> exact ⟨⟨p, same⟩, .inr fun _ hx _ => hx⟩
    | inl cl =>
      have hpend := Thread.pending_of_call hrest
      have hspares : Spares u t c.world.1.tokens (answer t cl c.world.1).2.tokens :=
        answer_spares h.unpending cl (stores_other hc h hforce hth hpend).1
      refine ⟨⟨t, hspares⟩, ?_⟩
      by_cases htp : t = p
      · exact .inl (htp ▸ rfl)
      · exact .inr fun x hx hown => hspares.others x hx (hown ▸ Ne.symm htp)

/-- A step leaves no access token of the account behind a code. -/
theorem waiting_step (hc : Reachable Init ok c) (h : Settled c u s) (hforce : InForce s u c.world.1)
    (hs : Step c l c') : NoneWaiting u c'.world.1.cache := by
  cases hs with
  | spawn | fault => exact h.unclaimed
  | nudge n =>
    cases n with
    | inr n => exact n.elim
    | inl n =>
      cases n with
      | sweepCache => exact h.unclaimed.cleanup c.world.1.clock
      | addUser x =>
        have heq : (nudge (.addUser x) c.world.1).cache = c.world.1.cache :=
          cache_nudge_addUser x c.world.1
        show NoneWaiting u (nudge (.addUser x) c.world.1).cache
        rw [heq]
        exact h.unclaimed
      | _ => exact h.unclaimed
  | @act t th cl k hth hrest =>
    cases cl with
    | inr cl => cases cl <;> exact h.unclaimed
    | inl cl =>
      exact answer_waiting h.unclaimed cl
        (stores_other hc h hforce hth (Thread.pending_of_call hrest)).2

/-- A request after a step had been answered before it, or still goes by no older row. -/
theorem aware_step (h : Settled c u s) (hforce : InForce s u c.world.1) (hs : Step c l c') {t : ℕ}
    {th' : Thread (operated cfg hasTokens)} (hth' : c'.threads[t]? = some th') {r : Req}
    (hreq : th'.req = .inl r) :
    c.threads[t]? = some th' ∧ th'.result.isSome ∨ ¬ Unaware s u (lefts th'.past) := by
  rcases hs.thread hth' with hold | ⟨r, -, -, rfl⟩ | ⟨th, cl, k, r', hth, hrest, rfl, hreply⟩
  · cases hres : th'.result with
    | none => exact .inr (h.aware t th' r hold hreq hres)
    | some => exact .inl ⟨hold, rfl⟩
  · refine .inr ?_
    rintro (⟨user, ⟨email, hmem, -⟩ | ⟨v, hmem, -⟩, -⟩ | ⟨token, ⟨code, fp, hmem⟩, -⟩) <;>
      cases hmem
  · refine .inr ?_
    have haware := h.aware t th r hth hreq (by simp [Thread.result, hrest])
    cases cl with
    | inr => exact haware
    | inl =>
      rcases hreply with ⟨-, rfl⟩ | ⟨-, hr⟩
      · exact not_unaware_answer haware hforce h.unclaimed
      · exact not_unaware_fault haware hr

theorem Settled.step (hc : Reachable Init ok c) (h : Settled c u s) (hforce : InForce s u c.world.1)
    (hs : Step c l c') : Settled c' u s := by
  refine ⟨fun t th' r hth' hreq hnone => ?_, ?_, waiting_step hc h hforce hs⟩
  · rcases aware_step h hforce hs hth' hreq with ⟨-, hsome⟩ | haware
    · rw [hnone] at hsome
      cases hsome
    · exact haware
  · obtain ⟨⟨t, hspares⟩, -⟩ := table_step hc h hforce hs 0
    exact hspares.unpending

/-- **What holds from the moment thread `p` has imposed the sanction**: nothing in flight goes by an
older row, the rows its transaction is about to revoke are all rows of the account, and once it has
committed they are revoked. -/
structure Contained (c : Config (operated cfg hasTokens)) (p : ℕ) (u : UserID) (s : Sanction) :
    Prop where
  settled : Settled c u s
  marked : ∀ th ψ, c.threads[p]? = some th →
    th.past = marking u :: ψ → ∀ x ∈ c.world.1.tokens.txns, x.owner = p →
      ∀ r ∈ c.world.1.tokens.rows, r.userID = u → r.id ∈ x.revoking
  revoked : ∀ th ψ, c.threads[p]? = some th →
    committing :: marking u :: ψ <:+ th.past → Imposed ψ u s →
      ∀ r ∈ c.world.1.tokens.rows, r.userID = u → r.revoked

/-- A call that failed has imposed, marked and committed nothing. -/
theorem ne_of_fault {cl : (vault.sum operatorSig).Call} {r : (vault.sum operatorSig).Reply cl}
    (hr : (operated cfg hasTokens).Fault cl r) (u : UserID) (s : Sanction) :
    (⟨cl, r⟩ : Event (vault.sum operatorSig)) ≠ marking u ∧
      (⟨cl, r⟩ : Event (vault.sum operatorSig)) ≠ committing ∧
      (⟨cl, r⟩ : Event (vault.sum operatorSig)) ≠ imposing s u := by
  refine ⟨?_, ?_, ?_⟩
  · rintro ⟨⟩
    obtain ⟨e, he⟩ := hr
    cases he
  · rintro ⟨⟩
    obtain ⟨e, he⟩ := hr
    cases he
  · cases s with
    | ban | lock =>
      rintro ⟨⟩
      obtain ⟨e, he⟩ := hr
      cases he

/-- The write statement of the revocation marks every row of the account. -/
theorem revokeScope_marks {w : World} (h : (answerTokens p w (.revokeScope (.user u))).1 = .ok ()) :
    ∀ x ∈ (answerTokens p w (.revokeScope (.user u))).2.txns, x.owner = p →
      ∀ r ∈ (answerTokens p w (.revokeScope (.user u))).2.rows, r.userID = u →
        r.id ∈ x.revoking := by
  simp only [answerTokens, revokeScope] at h ⊢
  cases htxn : w.tokens.txnOf p with
  | none =>
    rw [htxn] at h
    cases h
  | some =>
    rintro x' hx' hown r hr rfl
    obtain ⟨x, hx, rfl⟩ := mem_map.mp hx'
    have hx : x.owner = p := by
      split at hown
      · assumption
      · exact hown
    rw [if_pos hx]
    refine mem_append_right _ (mem_map.mpr ⟨r, mem_filter.mpr ⟨hr, ?_⟩, rfl⟩)
    simp [Scope.covers]

theorem commit_revokes {w : World} (h : (answerTokens p w .commit).1 = .ok ())
    (hnone : NonePending u w.tokens)
    (hmarked : ∀ x ∈ w.tokens.txns, x.owner = p → ∀ r ∈ w.tokens.rows, r.userID = u →
      r.id ∈ x.revoking) :
    ∀ r ∈ (answerTokens p w .commit).2.rows, r.userID = u → r.revoked := by
  simp only [answerTokens, commit] at h ⊢
  cases htxn : w.tokens.txnOf p with
  | none =>
    rw [htxn] at h
    cases h
  | some x =>
    have hx := mem_of_find?_eq_some htxn
    have hown : x.owner = p := by simpa using find?_some htxn
    intro r' hr' hu
    rcases mem_append.mp hr' with hr' | hr'
    · obtain ⟨r, hr, -, huser, -, hrevoked⟩ := mem_revokeIds hr'
      exact hrevoked (hmarked x hx hown r hr (huser.trans hu))
    · exact absurd hu (hnone x hx r' (mem_toList.mp hr'))

section

variable (hc : Reachable Init ok c) (h : Contained c p u s) (hforce : InForce s u c.world.1)
include hc h hforce

theorem Contained.step_other (hs : Step c l c') (hl : l ≠ .act p) : Contained c' p u s := by
  obtain ⟨⟨t, hspares⟩, hact | htxns⟩ := table_step hc h.settled hforce hs p
  · exact absurd hact hl
  refine ⟨h.settled.step hc hforce hs, fun th' ψ hth' hpast x hx hown r' hr' hu => ?_,
    fun th' ψ hth' hsuf himposed r' hr' hu => ?_⟩
  · obtain ⟨r, hr, hid, huser, -⟩ := hspares.rows r' hr' hu
    rw [← hid]
    rcases hs.thread hth' with hold | ⟨req, -, -, rfl⟩ | ⟨th, cl, k, rep, hth, hrest, rfl, hreply⟩
    · exact h.marked th' ψ hold hpast x (htxns x hx hown) hown r hr huser
    · cases hpast
    · rcases hreply with ⟨hact, -⟩ | ⟨-, hrep⟩
      · exact absurd hact hl
      · exact absurd (cons.inj hpast).1 (ne_of_fault hrep u s).1
  · obtain ⟨r, hr, -, huser, hkept⟩ := hspares.rows r' hr' hu
    refine hkept ?_
    rcases hs.thread hth' with hold | ⟨req, -, -, rfl⟩ | ⟨th, cl, k, rep, hth, hrest, rfl, hreply⟩
    · exact h.revoked th' ψ hold hsuf himposed r hr huser
    · exact absurd (suffix_nil.mp hsuf) (by simp)
    · rcases hreply with ⟨hact, -⟩ | ⟨-, hrep⟩
      · exact absurd hact hl
      · rcases suffix_cons_iff.mp hsuf with heq | hsuf
        · exact absurd (cons.inj heq).1.symm (ne_of_fault hrep u s).2.1
        · exact h.revoked th ψ hth hsuf himposed r hr huser

theorem Contained.step_self (hs : Step c (.act p) c') : Contained c' p u s := by
  obtain ⟨⟨t, hspares⟩, -⟩ := table_step hc h.settled hforce hs p
  obtain ⟨th, cl, k, hth, hrest, hworld, hth'⟩ := hs.of_act
  refine ⟨h.settled.step hc hforce hs, fun th₁ ψ hth₁ hpast => ?_,
    fun th₁ ψ hth₁ hsuf himposed => ?_⟩
  · obtain rfl := mem_unique hth' hth₁
    have hevent := (cons.inj hpast).1
    obtain rfl : cl = .inl (.tokens (.revokeScope (.user u))) := congrArg fst hevent
    have hreply : (answerTokens p c.world.1 (.revokeScope (.user u))).1 = .ok () :=
      eq_of_heq (mk.inj hevent).2
    rw [hworld]
    exact revokeScope_marks hreply
  · obtain rfl := mem_unique hth' hth₁
    rcases suffix_cons_iff.mp hsuf with heq | hsuf
    · have hevent := (cons.inj heq).1.symm
      obtain rfl : cl = .inl (.tokens .commit) := congrArg fst hevent
      have hreply : (answerTokens p c.world.1 .commit).1 = .ok () :=
        eq_of_heq (mk.inj hevent).2
      have hpast : th.past = marking u :: ψ := (cons.inj heq).2.symm
      rw [hworld]
      exact commit_revokes hreply h.settled.unpending (h.marked th ψ hth hpast)
    · intro r' hr' hu
      obtain ⟨r, hr, -, huser, hkept⟩ := hspares.rows r' hr' hu
      exact hkept (h.revoked th ψ hth hsuf himposed r hr huser)

theorem Contained.step (hs : Step c l c') : Contained c' p u s := by
  by_cases hl : l = .act p
  · subst hl
    exact h.step_self hc hforce hs
  · exact h.step_other hc hforce hs hl

end

/-- The statement that imposes the sanction leaves the condition as it was. -/
theorem Settled.imposed (h : Settled c u s) {v : OperatorCall} (hpend : c.pending p = some (.inr v))
    (hs : Step c (.act p) c') : Settled c' u s := by
  obtain ⟨th, cl, k, hth, hrest, hworld, -⟩ := hs.of_act
  obtain rfl : cl = .inr v := by
    have hcl := (Config.pending_eq hth).trans (Thread.pending_of_call hrest)
    exact mem_unique hcl hpend
  refine ⟨fun t th' r hth' hreq hnone => ?_, ?_, ?_⟩
  · rcases hs.thread hth' with hold | ⟨req, hl, -, -⟩ |
      ⟨th₁, cl, k₁, rep, hth₁, hrest₁, rfl, hreply⟩
    · exact h.aware t th' r hold hreq hnone
    · cases hl
    · rcases hreply with ⟨hl, -⟩ | ⟨hl, -⟩
      · obtain rfl : p = t := Label.act.inj hl
        obtain rfl := mem_unique hth hth₁
        obtain rfl : .inr v = cl := (Program.call.inj (hrest.symm.trans hrest₁)).1
        exact h.aware p th r hth hreq (by simp [Thread.result, hrest])
      · cases hl
  · rw [hworld]
    cases v <;> exact h.unpending
  · rw [hworld]
    cases v <;> exact h.unclaimed

/-- **Containment along every orderly run.** -/
theorem contained_of_reachable (hc : Reachable Init (Orderly p u s) c) (hflag : Flagged c p u s) :
    Contained c p u s := by
  refine hc.induct (P := fun c : Config (operated cfg hasTokens) => Flagged c p u s →
    Contained c p u s) ?_ ?_ hflag
  · rintro w - ⟨th, hth, -⟩
    cases hth
  rintro c l c' hc ih ⟨hforce, hsettled⟩ hs hflag'
  by_cases hflag : Flagged c p u s
  · exact (ih hflag).step hc (hforce hflag) hs
  -- the sanction was imposed in this step
  obtain ⟨th', hth', himposed⟩ := hflag'
  rcases hs.thread hth' with hold | ⟨req, -, -, rfl⟩ | ⟨th, cl, k, rep, hth, hrest, rfl, hreply⟩
  · exact absurd ⟨th', hold, himposed⟩ hflag
  · cases himposed
  rcases mem_cons.mp himposed with himposing | hbefore
  swap
  · exact absurd ⟨th, hth, hbefore⟩ hflag
  rcases hreply with ⟨rfl, -⟩ | ⟨-, hr⟩
  swap
  · exact absurd himposing.symm (ne_of_fault hr u s).2.2
  obtain rfl : cl = .inr (s.call u) := by
    cases s <;> exact (congrArg fst himposing).symm
  have hpend := (Config.pending_eq hth).trans (Thread.pending_of_call hrest)
  refine ⟨(hsettled rfl hpend).imposed hpend hs, fun th₁ ψ hth₁ hpast => ?_,
    fun th₁ ψ hth₁ hsuf himposed₁ => ?_⟩
  · obtain rfl := mem_unique hth' hth₁
    cases congrArg fst (cons.inj hpast).1
  · obtain rfl := mem_unique hth' hth₁
    rcases suffix_cons_iff.mp hsuf with heq | hsuf
    · cases congrArg fst (cons.inj heq).1
    · have hsub := ((suffix_cons _ _).trans ((suffix_cons _ _).trans hsuf)).subset
      exact absurd ⟨th, hth, himposed₁.mono hsub⟩ hflag

/-! ### After the operator's call has returned -/

/-- The operator's call has returned, and reported the sanction imposed and the sessions revoked. -/
def Returned (c : Config (operated cfg hasTokens)) (p : ℕ) (u : UserID) (s : Sanction) : Prop :=
  ∃ th req e r, c.threads[p]? = some th ∧ th.req = .inr req ∧ th.result.isSome ∧
    ⟨.inr (.audit e), r⟩ ∈ th.past ∧ e.Reports u s

/-- The answer to a request carries a token of the account: both tokens after a login or a rotation,
the refresh token in the cookie of a callback for it, the access token after an exchange. -/
def TokensFor (u : UserID) (req : Req ⊕ OperatorReq) :
    Response ⊕ Except OperatorError OperatorStatus → Prop
  | .inl (.login (.ok (.session accessToken _ _ _))) => accessToken.subject = u
  | .inl (.redirect _ _ _) => ∃ fp authTime jkt, req = .inl (.oauth u fp authTime jkt)
  | .inl (.exchange (some token)) => token.subject = u
  | .inl (.refresh (.ok r)) => r.accessToken.subject = u
  | _ => False

/-- What was reported was imposed, and committed. -/
theorem committed_of_returned (hc : Reachable Init ok c) (h : Returned c p u s) :
    ∃ th ψ, c.threads[p]? = some th ∧ committing :: marking u :: ψ <:+ th.past ∧ Imposed ψ u s := by
  obtain ⟨th, req, e, r, hth, hreq, -, hmem, hreports⟩ := h
  have hprog : ((operated cfg hasTokens).program th.req).Obeys conduct (fun _ _ => True) [] := by
    rw [hreq]
    exact (operator_conduct hasTokens req).bind fun _ _ _ => trivial
  obtain ⟨hconf, -⟩ := hc.obeys (fun _ _ _ _ => trivial) (fun _ _ _ _ => trivial) hth hprog
  obtain ⟨earlier, hconduct, hsuf⟩ := Discipline.allows_of_suffix hconf hmem
  obtain ⟨ψ, rfl, himposed⟩ := hconduct u s hreports
  exact ⟨th, ψ, hth, (suffix_cons _ _).trans hsuf, himposed⟩

/-- An answer with tokens is the answer of a request that was vetted, or has taken them from behind
a code. -/
theorem vetted_of_tokensFor (hc : Reachable Init ok c) {t : ℕ} (hth : c.threads[t]? = some th)
    {v : Response ⊕ Except OperatorError OperatorStatus} (hres : th.result = some v)
    (hv : TokensFor u th.req v) : (∃ r, th.req = .inl r) ∧
      (vetted.clears (lefts th.past) u ∨ ∃ token, Taken (lefts th.past) token ∧
        token.subject = u) := by
  cases hreq : th.req with
  | inl r =>
    obtain ⟨v', rfl, hentitled⟩ := hc.ends_inl hth hreq (serve_vetted r) hres
    refine ⟨⟨r, rfl⟩, ?_⟩
    rw [hreq] at hv
    rcases v' with (e | result) | ⟨code, refreshToken, age⟩ | (_ | token) | (e | result) | done
    · cases hv
    · cases result with
      | session accessToken =>
        obtain rfl : accessToken.subject = u := hv
        exact .inl hentitled
      | challenge | decoy => cases hv
    · obtain ⟨fp, authTime, jkt, hoauth⟩ := hv
      exact .inl (hentitled u fp authTime jkt (Sum.inl.inj hoauth))
    · cases hv
    · exact .inr ⟨token, hentitled, hv⟩
    · cases hv
    · obtain rfl : result.accessToken.subject = u := hv
      exact .inl hentitled
    · cases hv
  | inr req =>
    have hprog : ((operated cfg hasTokens).program th.req).Obeys conduct
        (fun _ a => ∃ b, a = .inr b) [] := by
      rw [hreq]
      exact (operator_conduct hasTokens req).bind fun _ b _ => ⟨b, rfl⟩
    obtain ⟨b, rfl⟩ := hc.ends_history hth hprog hres
    cases hv

/-- **Containment.** Once the operator's call has returned, and as long as the sanction stays in
force, no row of the account is live, and every call that has returned tokens of it had returned
them before: in every run in which nothing that goes by the account without the sanction is in
flight when it is imposed. -/
theorem operator_containment {c₀ : Config (operated cfg hasTokens)}
    (hc₀ : Reachable Init (Orderly p u s) c₀) (hret : Returned c₀ p u s)
    (hrun : Run (Orderly p u s) c₀ c) (hforce : InForce s u c.world.1) :
    (∀ r ∈ c.world.1.tokens.rows, r.userID = u → r.live = false) ∧
      ∀ (t : ℕ) th v, c.threads[t]? = some th →
        th.result = some v → TokensFor u th.req v →
          ∃ th₀, c₀.threads[t]? = some th₀ ∧ th₀.result = some v := by
  have hc := hc₀.run hrun
  obtain ⟨th₀, ψ, hth₀, hsuf, himposed⟩ := committed_of_returned hc₀ hret
  have hsub := ((List.suffix_cons _ _).trans ((List.suffix_cons _ _).trans hsuf)).subset
  -- the operator's exchanges are still there in every later state
  have later : ∀ {d}, Run (Orderly p u s) c₀ d → Contained d p u s ∧
      ∃ th, d.threads[p]? = some th ∧ committing :: marking u :: ψ <:+ th.past := by
    intro d hd
    obtain ⟨th, hth, -, hgrown⟩ := hd.past hth₀
    refine ⟨contained_of_reachable (hc₀.run hd) ⟨th, hth, ?_⟩, th, hth, hsuf.trans hgrown⟩
    exact himposed.mono (List.Subset.trans hsub hgrown.subset)
  constructor
  · intro r hr hu
    obtain ⟨hcontained, th, hth, hsuf'⟩ := later hrun
    rw [Row.live, hcontained.revoked th ψ hth hsuf' himposed r hr hu]
    simp
  -- whoever had not answered when the operator's call returned goes by no older row
  have aware : ∀ {d}, Run (Orderly p u s) c₀ d → ∀ (t : ℕ) th r,
      d.threads[t]? = some th → th.req = .inl r →
        c₀.threads[t]? = some th ∧ th.result.isSome ∨ ¬ Unaware s u (lefts th.past) := by
    intro d hd
    induction hd with
    | refl =>
      intro t th r hth hreq
      obtain ⟨hcontained, -⟩ := later (.refl c₀)
      cases hres : th.result with
      | none => exact .inr (hcontained.settled.aware t th r hth hreq hres)
      | some => exact .inl ⟨hth, rfl⟩
    | @snoc d' d l hd' hok hs ih =>
      intro t th r hth hreq
      obtain ⟨hcontained, thp, hthp, hsufp⟩ := later hd'
      have hflag : Flagged d' p u s :=
        ⟨thp, hthp, himposed.mono ((List.suffix_cons _ _).trans
          ((List.suffix_cons _ _).trans hsufp)).subset⟩
      rcases aware_step hcontained.settled (hok.1 hflag) hs hth hreq with ⟨hold, -⟩ | haware
      · exact ih t th r hold hreq
      · exact .inr haware
  intro t th v hth hres hv
  obtain ⟨⟨r, hreq⟩, hclear⟩ := vetted_of_tokensFor hc hth hres hv
  rcases aware hrun t th r hth hreq with ⟨hold, -⟩ | haware
  · exact ⟨th, hold, hres⟩
  · rcases hclear with hclear | htaken
    · exact absurd hclear (not_vetted haware (fun _ => now_le hc hth) hforce)
    · exact absurd (.inr htaken) haware

end Runs

namespace Sample

open Vault42.Sample

/-- The service with its operators, before the first request. -/
def start : Config (operated settings true) := ⟨(world, []), []⟩

theorem inForce_of_all {w : World} (h : (w.users.all fun x => x.id != "u" || x.banned)) :
    InForce .ban "u" w := by
  refine ⟨fun x hx hid => ?_, nofun⟩
  have hx := all_eq_true.mp h x hx
  rw [hid] at hx
  exact hx

/-- If thread 1 has banned `u`, the ban shows on every row of it. -/
def bannedTest (c : Config (operated settings true)) (_ : Label (operated settings true)) : Bool :=
  !(c.threads[1]?.any fun th => th.past.any fun e => match e with
    | ⟨.inr (.setBanned v true), _⟩ => v == "u"
    | _ => false) ||
  c.world.1.users.all fun x => x.id != "u" || x.banned

theorem sanctioned_of_test (c : Config (operated settings true))
    (l : Label (operated settings true)) (h : bannedTest c l) : Sanctioned 1 "u" .ban c l := by
  rintro ⟨th, hth, himposed⟩
  have hany : (c.threads[1]?.any fun th => th.past.any fun e => match e with
      | ⟨.inr (.setBanned v true), _⟩ => v == "u"
      | _ => false) := by
    rw [hth]
    exact any_eq_true.mpr ⟨_, himposed, rfl⟩
  rw [bannedTest, hany] at h
  exact inForce_of_all h

/-- When thread 1 is about to ban, every request of the service has been answered, no transaction is
open and the cache is empty. -/
def orderlyTest (c : Config (operated settings true)) (l : Label (operated settings true)) : Bool :=
  bannedTest c l && match c.pending 1 with
    | some (.inr (.setBanned _ _)) =>
      c.world.1.cache.data.entries.isEmpty && c.world.1.tokens.txns.isEmpty &&
        c.threads.all fun th => match th.req with
        | .inl _ => th.result.isSome
        | .inr _ => true
    | _ => true

theorem orderly_of_test (c : Config (operated settings true)) (l : Label (operated settings true))
    (h : orderlyTest c l) : Orderly 1 "u" .ban c l := by
  obtain ⟨hbanned, hidle⟩ := Bool.and_eq_true_iff.mp h
  refine ⟨sanctioned_of_test c l hbanned, fun _ hpend => ?_⟩
  have hpend : c.pending 1 = some (.inr (.setBanned "u" true)) := hpend
  rw [hpend] at hidle
  obtain ⟨hnone, hall⟩ := Bool.and_eq_true_iff.mp hidle
  obtain ⟨hcache, hempty⟩ := Bool.and_eq_true_iff.mp hnone
  refine ⟨fun t th r hth hreq hnone => ?_, fun x hx => ?_, fun code fp e token he => ?_⟩
  · have hsome := all_eq_true.mp hall th (mem_of_getElem? hth)
    rw [hreq, hnone] at hsome
    cases hsome
  · rw [isEmpty_iff.mp hempty] at hx
    cases hx
  · have hentries : c.world.1.cache.data.entries = [] := isEmpty_iff.mp hcache
    have hlookup : c.world.1.cache.data.entries.dlookup (.oauthCode code fp) = some e := he
    rw [hentries] at hlookup
    cases hlookup

/-- The ban has returned, and its last exchange was the audit row that reports it. -/
theorem returned_of_ban {c : Config (operated settings true)}
    (h : ∃ th, c.threads[1]? = some th ∧ th.req = .inr (.banUser "u" "abuse") ∧ th.result.isSome ∧
      ∃ e r, th.past[0]? = some ⟨.inr (.audit e), r⟩ ∧ e.Reports "u" .ban) :
    Returned c 1 "u" .ban := by
  obtain ⟨th, hth, hreq, hres, e, r, hmem, hrep⟩ := h
  exact ⟨th, _, e, r, hth, hreq, hres, List.mem_of_getElem? hmem, hrep⟩

/-- `alice` has logged in when the ban comes. -/
def bannedAfter : Config (operated settings true) :=
  (execAll orderlyTest start
    ([.spawn (.inl (.login loginInput))] ++ .replicate 28 (.act 0) ++
      [.spawn (.inr (.banUser "u" "abuse"))] ++ .replicate 7 (.act 1))).getD start

theorem ban_ends_session :
    (bannedAfter.world.1.tokens.rows.map fun r => (r.userID, r.used)) = [("u", false)] ∧
      ∀ r ∈ bannedAfter.world.1.tokens.rows, r.userID = "u" → r.live = false := by
  have hc : Reachable (fun w => w = (world, [])) (Orderly 1 "u" .ban) bannedAfter :=
    ⟨_, rfl, run_execAll orderly_of_test _ _⟩
  have hret : Returned bannedAfter 1 "u" .ban :=
    returned_of_ban ⟨_, rfl, rfl, rfl, _, _, rfl, rfl, rfl, rfl⟩
  have hforce : InForce .ban "u" bannedAfter.world.1 := inForce_of_all (by decide +kernel)
  exact ⟨by decide +kernel, (operator_containment hc hret (.refl _) hforce).1⟩

/-- A login of `alice` has read the row, and the ban comes meanwhile. -/
def bannedMeanwhile : Config (operated settings true) :=
  (execAll bannedTest start
    ([.spawn (.inl (.login loginInput))] ++ .replicate 12 (.act 0) ++
      [.spawn (.inr (.banUser "u" "abuse"))] ++ .replicate 7 (.act 1))).getD start

def outlived : Config (operated settings true) :=
  (execAll bannedTest bannedMeanwhile (.replicate 16 (.act 0))).getD bannedMeanwhile

/-- **A login outlives the ban.** The operator was told that every session is revoked, and the ban
is in force all along; after that the login stores a live row and answers with tokens. -/
theorem login_outlives_ban :
    Reachable (fun w => w = (world, [])) (Sanctioned 1 "u" .ban) bannedMeanwhile ∧
    Returned bannedMeanwhile 1 "u" .ban ∧
    Run (Sanctioned 1 "u" .ban) bannedMeanwhile outlived ∧ InForce .ban "u" outlived.world.1 ∧
    (∃ r ∈ outlived.world.1.tokens.rows, r.userID = "u" ∧ r.live) ∧
    ∃ th v, outlived.threads[0]? = some th ∧ th.result = some v ∧ TokensFor "u" th.req v ∧
      ∃ th₀, bannedMeanwhile.threads[0]? = some th₀ ∧ th₀.result = none := by
  refine ⟨⟨_, rfl, run_execAll sanctioned_of_test _ _⟩,
    returned_of_ban ⟨_, rfl, rfl, rfl, _, _, rfl, rfl, rfl, rfl⟩,
    run_execAll sanctioned_of_test _ _, inForce_of_all (by decide +kernel), ?_, ?_⟩
  · have hany : (outlived.world.1.tokens.rows.any fun r => r.userID == "u" && r.live) := by
      decide +kernel
    obtain ⟨r, hr, hcond⟩ := List.any_eq_true.mp hany
    simp only [Bool.and_eq_true, beq_iff_eq] at hcond
    exact ⟨r, hr, hcond⟩
  · exact ⟨_, _, rfl, rfl, rfl, _, rfl, rfl⟩

/-- `alice` has signed in through a provider, and is banned before the exchange code is redeemed. -/
def bannedWaiting : Config (operated settings true) :=
  (execAll bannedTest start
    ([.spawn (.inl (.oauth "u" ⟨"1", "", "", ""⟩ 0 ""))] ++ .replicate 20 (.act 0) ++
      [.spawn (.inr (.banUser "u" "abuse"))] ++ .replicate 7 (.act 1))).getD start

def redeemed : Config (operated settings true) :=
  (execAll bannedTest bannedWaiting
    [.spawn (.inl (.exchange 6 ⟨"1", "", "", ""⟩)), .act 2]).getD bannedWaiting

/-- **An exchange code outlives the ban.** The callback had answered before the ban, and nothing
else was in flight; after the operator was told that every session is revoked, the exchange answers
with an access token. -/
theorem code_outlives_ban :
    Reachable (fun w => w = (world, [])) (Sanctioned 1 "u" .ban) bannedWaiting ∧
    Returned bannedWaiting 1 "u" .ban ∧ bannedWaiting.threads.all (fun th => th.result.isSome) ∧
    Run (Sanctioned 1 "u" .ban) bannedWaiting redeemed ∧ InForce .ban "u" redeemed.world.1 ∧
    ∃ th v, redeemed.threads[2]? = some th ∧ th.result = some v ∧ TokensFor "u" th.req v ∧
      bannedWaiting.threads[2]? = none := by
  refine ⟨⟨_, rfl, run_execAll sanctioned_of_test _ _⟩,
    returned_of_ban ⟨_, rfl, rfl, rfl, _, _, rfl, rfl, rfl, rfl⟩, by decide +kernel,
    run_execAll sanctioned_of_test _ _, inForce_of_all (by decide +kernel), ?_⟩
  exact ⟨_, _, rfl, rfl, rfl, rfl⟩

end Sample

end Vault42.Operator
