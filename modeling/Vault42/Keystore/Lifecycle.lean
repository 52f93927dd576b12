import Vault42.Keystore.Store
import Vault42.Keystore.Invariants

/-!
# The life of a signing key

Any number of pods import, rotate, revoke and reap keys over one table, in any interleaving, with
any of their calls failing and any of their connections lost. Then at most one key is active, a
revoked key stays as it is, and the public key under a kid stays the same (`signing_key_lifecycle`):
every call keeps the table sound and extends it (`table_kept_of_answer`), and so does every run.

A kid that was reaped does not come back, as long as no key is reaped whose import has passed the
guard and waits for its upsert (`Unraced`). One that is reaped at that moment is inserted under its
tombstone (`Sample.reaped_kid_inserted`).

An import that returns an error has left the table as it was, unless what failed is the refresh that
follows its commit (`Sample.import_failed_committed`), or the answer to the commit is lost
(`Sample.commit_answer_lost`). Which calls of a request have changed the table is what the
discipline `guarding` keeps track of.
-/

namespace Vault42.Keystore

open Framework Program Within

/-! ### Every step keeps the table -/

/-- The calls that write the table: its rows, or a transaction on it. -/
def KeyCall.writes : KeyCall → Bool
  | .begin | .retire .. | .guardInsert _ | .importSigningKey _ | .commit | .rollback | .revoke _
  | .reap .. => true
  | _ => false

theorem table_of_reading {t : ℕ} {cl : KeyCall} {w : KeyWorld} (h : cl.writes = false) :
    (keyAnswer t cl w).2.table = w.table := by
  cases cl with
  | begin | retire | guardInsert | importSigningKey | commit | rollback | revoke | reap => cases h
  | encrypt p kid plaintext | decrypt p kid data | scanActive | tryRotationLock | unlockRotation
  | onKeyChange =>
    simp only [keyAnswer]
    repeat' split
    all_goals rfl
  | _ => rfl

/-- **What a call does to the table.** -/
theorem table_kept_of_answer {t : ℕ} {cl : KeyCall} {w : KeyWorld} (h : w.table.Sound)
    (hfree : keyBlocked t cl w = false) : w.table.Kept (keyAnswer t cl w).2.table := by
  cases cl with
  | begin => exact h.begin_kept t
  | retire kids now expiresAt => exact h.retire_kept now expiresAt hfree
  | guardInsert args => exact h.guardInsert_kept t args
  | importSigningKey => exact h.importSigningKey_kept hfree
  | commit => exact h.commit_kept t
  | rollback => exact h.abort_kept t
  | revoke => exact h.revoke_kept w.clock hfree
  | reap kids now => exact h.reap_kept now hfree
  | _ =>
    rw [table_of_reading rfl]
    exact h.kept_self

theorem table_kept_of_nudge {n : KeyNudge} {w : KeyWorld} (h : w.table.Sound) :
    w.table.Kept (keyNudge n w).table := by
  cases n with
  | disconnect t => exact h.abort_kept t
  | _ => exact h.kept_self

/-- The signing-key table of a configuration. -/
def tableOf (c : Config keyService) : KeyTable := KeyWorld.table c.world

theorem table_kept_of_step {c c' : Config keyService} {l : Label keyService} (h : (tableOf c).Sound)
    (hs : Step c l c') : (tableOf c).Kept (tableOf c') := by
  cases hs with
  | spawn | fault => exact h.kept_self
  | act hth hrest hfree => exact table_kept_of_answer h hfree
  | nudge => exact table_kept_of_nudge h

/-- **A run keeps the table**: it is sound at the end, and extends what it was at the start. -/
theorem table_kept_of_run {c c' : Config keyService} (h : (tableOf c).Sound)
    (hr : Run anyStep c c') : (tableOf c).Kept (tableOf c') := by
  induction hr with
  | refl => exact h.kept_self
  | snoc _ _ hs ih =>
    obtain ⟨hsound, hext⟩ := table_kept_of_step ih.1 hs
    exact ⟨hsound, ih.2.trans hext h hsound⟩

/-- A table before the first request: no transaction is open, the indexes are in order, a kid that
is a digest is the digest of its row's public key, and no kid in use has a tombstone. -/
structure KeyTable.Fresh (K : KeyTable) : Prop where
  idle : K.keys.txns = []
  keys : (K.rows.map KeyRow.kid).Nodup
  single : OneActive K.rows
  filed : ∀ r ∈ K.rows, Filed r
  unburied : ∀ r ∈ K.rows, K.Clear r.kid

theorem KeyTable.Fresh.sound {K : KeyTable} (h : K.Fresh) : K.Sound where
  wf := by
    refine ⟨h.keys, ?_, ?_, ?_⟩ <;> rw [h.idle]
    · exact List.nodup_nil
    · exact fun hmem => absurd hmem List.not_mem_nil
    · exact fun hmem => absurd hmem List.not_mem_nil
  filed r hr := by
    rcases hr with hrow | ⟨t, ws, hmem, -⟩
    · exact h.filed r hrow
    · rw [h.idle] at hmem
      cases hmem
  rooted r hr := by
    rcases hr with hrow | ⟨t, ws, hmem, -⟩
    · exact .inl ⟨r, hrow, rfl⟩
    · rw [h.idle] at hmem
      cases hmem
  kept hmem := by
    rw [h.idle] at hmem
    cases hmem
  rewrites hmem := by
    rw [h.idle] at hmem
    cases hmem
  single := h.single
  singleIn hmem := by
    rw [h.idle] at hmem
    cases hmem
  claimed hmem := by
    rw [h.idle] at hmem
    cases hmem

/-- The worlds a run can start from: whatever the pods hold, over a fresh table. -/
def KeyWorld.Fresh (w : KeyWorld) : Prop := w.table.Fresh

theorem sound_of_reachable {c : Config keyService} (hc : Reachable KeyWorld.Fresh anyStep c) :
    (tableOf c).Sound := by
  obtain ⟨w, hw, hr⟩ := hc
  have hsound : (tableOf ⟨w, []⟩).Sound := KeyTable.Fresh.sound hw
  exact (table_kept_of_run hsound hr).1

/-! ### An import that fails -/

/-- The exchange has changed what is committed. -/
def KeyCall.changes : (c : KeyCall) → c.Reply → Bool
  | .commit, .ok _ => true
  | .revoke _, .ok _ => true
  | .reap .., .ok _ => true
  | _, _ => false

/-- The exchange is the answer to a commit, and it was lost. -/
def KeyCall.lost : (c : KeyCall) → c.Reply → Bool
  | .commitReply, .error _ => true
  | _, _ => false

theorem rows_of_answer {t : ℕ} {cl : KeyCall} {w : KeyWorld}
    (h : cl.changes (keyAnswer t cl w).1 = false) :
    (keyAnswer t cl w).2.table.rows = w.table.rows ∧
      (keyAnswer t cl w).2.table.tombstones = w.table.tombstones := by
  cases cl with
  | commit =>
    simp only [keyAnswer, KeyTable.commit] at h ⊢
    split at h
    · cases h
    · rename_i hclosed
      rw [if_neg hclosed]
      exact ⟨rfl, rfl⟩
  | revoke =>
    simp only [keyAnswer, KeyTable.revoke] at h ⊢
    split at h
    next => cases h
    next r hfind =>
      split at h
      next e herr => exact ⟨rfl, rfl⟩
      next => cases h
  | reap =>
    simp only [keyAnswer, KeyTable.reap] at h ⊢
    split at h
    next e herr => exact ⟨rfl, rfl⟩
    next => cases h
  | begin | rollback => exact ⟨rfl, rfl⟩
  | retire | guardInsert | importSigningKey =>
    simp only [keyAnswer, KeyTable.retire, KeyTable.guardInsert, KeyTable.importSigningKey]
    repeat' split
    all_goals exact ⟨rfl, rfl⟩
  | _ =>
    rw [table_of_reading rfl]
    exact ⟨rfl, rfl⟩

/-- What a request has said so far has not changed what is committed. -/
def Untouched (φ : List (Event keyCalls)) : Prop := ∀ e ∈ φ, KeyCall.changes e.1 e.2 = false

def CommitLost (φ : List (Event keyCalls)) : Prop := ∃ e ∈ φ, KeyCall.lost e.1 e.2

instance (φ : List (Event keyCalls)) : Decidable (CommitLost φ) :=
  inferInstanceAs (Decidable (∃ e ∈ φ, KeyCall.lost e.1 e.2))

/-- The rule for upserts: one is made right after the guard has let its arguments pass. -/
def Guarded (φ : List (Event keyCalls)) : KeyCall → Prop
  | .importSigningKey args => ∃ args' ψ, φ = ⟨.guardInsert args', .ok args⟩ :: ψ
  | _ => True

/-- **The discipline** of the keystore's requests. -/
abbrev guarding : Discipline keyCalls := .history Guarded

/-- The calls that never change what is committed, and that the discipline has no rule for. -/
def KeyCall.Quiet : KeyCall → Prop
  | .importSigningKey _ => False
  | .commit => False
  | .commitReply => False
  | .revoke _ => False
  | .reap .. => False
  | _ => True

variable {φ ψ : List (Event keyCalls)} {cl : KeyCall}

theorem guarded_of_quiet (h : cl.Quiet) : Guarded φ cl := by
  cases cl with
  | importSigningKey => exact h.elim
  | _ => trivial

theorem Untouched.nil : Untouched [] := List.forall_mem_nil _

theorem Untouched.cons {r : cl.Reply} (hφ : Untouched φ) (h : cl.changes r = false) :
    Untouched (⟨cl, r⟩ :: φ) := List.forall_mem_cons.mpr ⟨h, hφ⟩

theorem changes_of_quiet (h : cl.Quiet) (r : cl.Reply) : cl.changes r = false := by
  cases cl with
  | importSigningKey | commit | commitReply | revoke _ | reap _ _ => exact h.elim
  | _ => rfl

section Walks

variable (ks : KeyStore)

theorem openMatching_quiet (row : KeyRow) (rsaPub : PublicKey) :
    (ks.openMatching row rsaPub).Within KeyCall.Quiet := by
  refine bind (bind (.call trivial) fun r => ?_) fun r => ?_
  · cases r with
    | error => exact within_pure _
    | ok =>
      dsimp only
      split <;> exact within_pure _
  · cases r with
    | error => exact within_pure _
    | ok => exact .ite (within_pure _) (within_pure _)

theorem loadRows_quiet (rows : List KeyRow) (keys : KeySet) :
    (ks.loadRows rows keys).Within KeyCall.Quiet := by
  induction rows generalizing keys with
  | nil => exact within_pure _
  | cons row rows ih =>
    unfold KeyStore.loadRows
    split
    · exact ih keys
    · exact ih keys
    · refine (openMatching_quiet ks row _).bind fun r => ?_
      cases r with
      | error => exact .ite (within_pure _) (ih keys)
      | ok => exact ih _

/-- `Refresh` reads the table and writes the pod's memory. -/
theorem refresh_quiet : ks.refresh.Within KeyCall.Quiet := by
  have hbody : ks.refreshLocked.Within KeyCall.Quiet := by
    refine bind (.call trivial) fun r => ?_
    cases r with
    | error => exact within_pure _
    | ok rows =>
      refine (loadRows_quiet ks rows .empty).bind fun r => ?_
      cases r with
      | error => exact within_pure _
      | ok =>
        refine bind (.call trivial) fun r => ?_
        cases r with
        | error => exact within_pure _
        | ok =>
          refine bind (bind (.call trivial) fun prevKID => ?_)
            fun _ => within_pure _
          exact .ite (within_pure _) (.call trivial)
  exact bind (.call trivial) fun _ =>
    hbody.bind fun _ => bind (.call trivial) fun _ => within_pure _

/-- The error was returned after the commit of an import: it is that of the refresh. -/
def KeyStoreError.afterCommit : KeyStoreError → Bool
  | .wrap context cause => context == KeyStore.refreshAfterImport || cause.afterCommit
  | _ => false

variable {α β : Type}

/-- A function that fails has not changed the table, unless the answer to its commit was lost. -/
def FailsUntouched {ε : Type} (φ : List (Event keyCalls)) (r : Except ε α) : Prop :=
  ∀ e, r = .error e → ¬ CommitLost φ → Untouched φ

/-- The same of a request, which may also fail in its refresh after the commit. -/
def FailsClean (φ : List (Event keyCalls)) (r : Except KeyStoreError α) : Prop :=
  ∀ e, r = .error e → e.afterCommit = false → ¬ CommitLost φ → Untouched φ

theorem Untouched.failsClean {r : Except KeyStoreError α} (h : Untouched φ) : FailsClean φ r :=
  fun _ _ _ _ => h

theorem FailsClean.cons {r : Except KeyStoreError α} (h : FailsClean φ r) {c : KeyCall}
    (hc : c.Quiet) (x : c.Reply) : FailsClean (⟨c, x⟩ :: φ) r := by
  intro e he hclean hlost
  refine (h e he hclean fun hφ => hlost ?_).cons (changes_of_quiet hc x)
  exact hφ.imp fun _ => And.imp_left (List.mem_cons_of_mem _)

/-- A quiet call at the head of a function that has changed nothing. -/
theorem quiet_call {c : KeyCall} (hc : c.Quiet) {f : c.Reply → KeyProg β}
    {Q : List (Event keyCalls) → β → Prop} (hφ : Untouched φ)
    (hf : ∀ r ψ, Untouched ψ → (f r).Obeys guarding Q ψ) :
    (askKey c >>= f).Obeys guarding Q φ :=
  .call (guarded_of_quiet hc) fun r _ => hf r _ (hφ.cons (changes_of_quiet hc r))

theorem quiet_bind {p : KeyProg α} (hp : p.Within KeyCall.Quiet) {f : α → KeyProg β}
    {Q : List (Event keyCalls) → β → Prop} (hφ : Untouched φ)
    (hf : ∀ a ψ, Untouched ψ → (f a).Obeys guarding Q ψ) : (p >>= f).Obeys guarding Q φ := by
  refine (hp.keeps (D := guarding) hφ fun ψ c hψ hc => ?_).bind fun ψ a hψ => hf a ψ hψ
  exact ⟨guarded_of_quiet hc, fun r => hψ.cons (changes_of_quiet hc r)⟩

theorem quiet_obeys {p : KeyProg α} (hp : p.Within KeyCall.Quiet) :
    p.Obeys guarding (fun _ _ => True) φ :=
  hp.keeps (D := guarding) (I := fun _ => True) trivial fun _ _ _ hc =>
    ⟨guarded_of_quiet hc, fun _ => trivial⟩

theorem insertKey_guarding (args : ImportArgs) (hφ : Untouched φ) :
    (KeyStore.insertKey args).Obeys guarding (fun ψ _ => Untouched ψ) φ := by
  refine .call trivial fun r _ => ?_
  cases r with
  | error => exact hφ.cons rfl
  | ok args' => exact obeys_perform ⟨args, φ, rfl⟩ fun r _ => (hφ.cons rfl).cons rfl

theorem commitTx_guarding (hφ : Untouched φ) :
    KeyStore.commitTx.Obeys guarding FailsUntouched φ := by
  refine .call trivial fun r _ => ?_
  cases r with
  | error => exact fun _ _ _ => hφ.cons rfl
  | ok =>
    refine obeys_perform trivial fun r _ e he hlost => ?_
    cases he
    exact absurd ⟨_, List.mem_cons_self, rfl⟩ hlost

theorem importInTx_guarding (kid : KID) (encPriv : Ciphertext) (pubDER : PublicDER)
    (hφ : Untouched φ) : (ks.importInTx kid encPriv pubDER).Obeys guarding FailsUntouched φ := by
  refine quiet_call (c := .now) trivial hφ fun now ψ hψ => ?_
  refine quiet_call (c := .scanActive) trivial hψ fun r ψ hψ => ?_
  cases r with
  | error => exact fun _ _ _ => hψ
  | ok kids =>
    refine quiet_call (c := .retire ..) trivial hψ fun r ψ hψ => ?_
    cases r with
    | error => exact fun _ _ _ => hψ
    | ok =>
      refine (insertKey_guarding _ hψ).bind fun ψ r hψ => ?_
      cases r with
      | error => exact fun _ _ _ => hψ
      | ok written =>
        cases written with
        | false => exact fun _ _ _ => hψ
        | true =>
          refine (commitTx_guarding hψ).bind fun ψ r hr => ?_
          cases r with
          | error e => exact fun _ _ => hr e rfl
          | ok => exact nofun

theorem importKey_guarding (key : PrivateKey) (hφ : Untouched φ) :
    (ks.importKey key).Obeys guarding FailsClean φ := by
  refine quiet_call (c := .encrypt ..) trivial hφ fun r ψ hψ => ?_
  cases r with
  | error => exact hψ.failsClean
  | ok encPriv =>
    refine quiet_call (c := .begin) trivial hψ fun r ψ hψ => ?_
    cases r with
    | error => exact hψ.failsClean
    | ok =>
      refine (importInTx_guarding ks _ encPriv _ hψ).bind fun ψ r hr => ?_
      cases r with
      | error e =>
        have hfails : FailsClean ψ (.error e : Except KeyStoreError KID) := fun e' he' _ =>
          hr e' (by cases he'; rfl)
        exact .call trivial fun x _ => hfails.cons (c := .rollback) trivial x
      | ok =>
        refine (quiet_obeys (refresh_quiet ks)).bind fun ψ refreshed _ => ?_
        refine .call trivial fun _ _ => ?_
        cases refreshed with
        | error =>
          -- the one error of after the commit
          intro e' he' hclean
          cases he'
          simp [KeyStoreError.afterCommit] at hclean
        | ok => exact nofun

theorem rotate_guarding (hφ : Untouched φ) : ks.rotate.Obeys guarding FailsClean φ := by
  refine quiet_call (c := .generateRSAKeyPair) trivial hφ fun r ψ hψ => ?_
  cases r with
  | error => exact hψ.failsClean
  | ok key => exact importKey_guarding ks key hψ

theorem rotateLocked_guarding (maxAge : Duration) (hφ : Untouched φ) :
    (ks.rotateLocked maxAge).Obeys guarding FailsClean φ := by
  refine quiet_call (c := .activeCreatedAt) trivial hφ fun r ψ hψ => ?_
  cases r with
  | error => exact hψ.failsClean
  | ok createdAt =>
    cases createdAt with
    | none => exact hψ.failsClean
    | some =>
      refine quiet_call (c := .now) trivial hψ fun now ψ hψ => .ite hψ.failsClean ?_
      refine (rotate_guarding ks hψ).bind fun ψ r hr => ?_
      cases r with
      | error => exact fun e' he' => hr e' (by cases he'; rfl)
      | ok => exact nofun

theorem rotateIfOlderThan_guarding (maxAge : Duration) (hφ : Untouched φ) :
    (ks.rotateIfOlderThan maxAge).Obeys guarding FailsClean φ := by
  refine quiet_call (c := .acquire) trivial hφ fun r ψ hψ => ?_
  cases r with
  | error => exact hψ.failsClean
  | ok =>
    refine quiet_call (c := .tryRotationLock) trivial hψ fun r ψ hψ => ?_
    cases r with
    | error => exact hψ.failsClean
    | ok acquired =>
      cases acquired with
      | false => exact hψ.failsClean
      | true =>
        refine (rotateLocked_guarding ks maxAge hψ).bind fun ψ r hr => ?_
        exact .call trivial fun x _ => hr.cons (c := .unlockRotation) trivial x

theorem FailsClean.wrap (context : String) {r : Except KeyStoreError KID} (hr : FailsClean φ r) :
    FailsClean φ ((r.mapError (.wrap context)).map fun _ => ()) := by
  intro e he hclean
  cases r with
  | error e' =>
    cases he
    rw [KeyStoreError.afterCommit, Bool.or_eq_false_iff] at hclean
    exact hr e' rfl hclean.2
  | ok => cases he

theorem ensureKey_guarding (initial : Option PrivateKey) (hφ : Untouched φ) :
    (ks.ensureKey initial).Obeys guarding FailsClean φ := by
  refine quiet_bind (refresh_quiet ks) hφ fun r ψ hψ => ?_
  cases r with
  | error => exact hψ.failsClean
  | ok =>
    refine quiet_call (c := .hasActive ks.pod) trivial hψ fun (hasActive : Bool) ψ hψ => ?_
    refine .ite hψ.failsClean ?_
    cases initial with
    | none =>
      refine (rotate_guarding ks hψ).bind fun ψ r hr => ?_
      have := hr.wrap "keystore: generate initial key"
      cases r <;> exact this
    | some key =>
      refine (importKey_guarding ks key hψ).bind fun ψ r hr => ?_
      have := hr.wrap "keystore: import initial key"
      cases r <;> exact this

theorem revoke_guarding (kid : KID) : (ks.revoke kid).Obeys guarding (fun _ _ => True) φ := by
  refine .call trivial fun r _ => ?_
  cases r with
  | error => trivial
  | ok n =>
    cases n with
    | zero => trivial
    | succ => exact quiet_obeys (refresh_quiet ks)

theorem cleanupExpired_guarding : ks.cleanupExpired.Obeys guarding (fun _ _ => True) φ := by
  refine .call trivial fun r _ => ?_
  cases r with
  | error => trivial
  | ok =>
    refine .call trivial fun r _ => ?_
    cases r <;> trivial

end Walks

/-- The requests that end in an import. -/
def KeyReq.imports : KeyReq → Bool
  | .importKey .. | .rotate _ | .rotateIfOlderThan .. | .ensureKey .. => true
  | _ => false

theorem FailsClean.map {α β : Type} {f : α → β} {r : Except KeyStoreError α}
    (h : FailsClean φ r) : FailsClean φ (r.map f) := by
  intro e he
  cases r with
  | error =>
    cases he
    exact h e rfl
  | ok => cases he

/-- **Every request keeps to the discipline**, and one that ends in an import fails cleanly. -/
theorem serve_guarding (req : KeyReq) :
    req.serve.Obeys guarding (fun ψ r => req.imports → FailsClean ψ r) [] := by
  cases req with
  | importKey ks key =>
    exact (importKey_guarding ks key .nil).bind fun _ _ h _ => h.map
  | rotate ks => exact (rotate_guarding ks .nil).bind fun _ _ h _ => h.map
  | rotateIfOlderThan ks maxAge =>
    exact (rotateIfOlderThan_guarding ks maxAge .nil).bind fun _ _ h _ => h.map
  | ensureKey ks initial => exact (ensureKey_guarding ks initial .nil).bind fun _ _ h _ => h.map
  | revoke ks kid => exact (revoke_guarding ks kid).bind fun _ _ _ => nofun
  | cleanupExpired ks => exact (cleanupExpired_guarding ks).bind fun _ _ _ => nofun
  | refresh ks => exact (quiet_obeys (refresh_quiet ks)).bind fun _ _ _ => nofun

/-- The request that serves `th` has ended in an error, neither in that of the refresh after a
commit nor with the answer to its commit lost. -/
def FailedBeforeCommit (th : Thread keyService) : Prop :=
  KeyReq.imports th.req ∧ (∃ e, th.result = some (.error e) ∧ e.afterCommit = false) ∧
    ¬ CommitLost th.past

/-- **An import that failed has changed nothing**, at any of its calls. -/
theorem rows_of_failed_import {Init : KeyWorld → Prop} {c d c' : Config keyService}
    (hc : Reachable Init anyStep c) {t : ℕ} {l : Label keyService}
    (hl : l = .act t ∨ l = .fault t) (hs : Step c l d) (hr : Run anyStep d c')
    {th : Thread keyService} (hth : c'.threads[t]? = some th) (hfailed : FailedBeforeCommit th) :
    (tableOf d).rows = (tableOf c).rows ∧ (tableOf d).tombstones = (tableOf c).tombstones := by
  obtain ⟨himports, ⟨e, hres, hclean⟩, hlost⟩ := hfailed
  have hc' : Reachable Init anyStep c' := (hc.run (.snoc (.refl c) trivial hs)).run hr
  have huntouched : Untouched th.past :=
    hc'.ends_history hth (serve_guarding th.req) hres himports e rfl hclean hlost
  cases hs with
  | spawn | nudge => rcases hl with hl | hl <;> cases hl
  | fault => exact ⟨rfl, rfl⟩
  | @act u th₀ cl k hth₀ =>
    obtain rfl : u = t := by
      rcases hl with hl | hl
      · exact Label.act.inj hl
      · cases hl
    -- the exchange is part of what the thread has said at the end
    have hlt := (List.getElem?_eq_some_iff.mp hth₀).1
    obtain ⟨th₁, hth₁, -, hsuffix⟩ := hr.past (List.getElem?_set_self hlt)
    obtain rfl := Option.mem_unique hth hth₁
    exact rows_of_answer (huntouched _ (hsuffix.subset List.mem_cons_self))

/-! ### Tombstones -/

variable {c c' : Config keyService} {l : Label keyService} {t : ℕ} {w : KeyWorld} {kid : KID}

theorem KeyTable.Fresh.unburied_versions {K : KeyTable} (h : K.Fresh) : K.Unburied := by
  rintro r (hrow | ⟨u, us, hmem, -⟩)
  · exact h.unburied r hrow
  · rw [h.idle] at hmem
    cases hmem

/-- Every call keeps the kids in use out of the tombstones, an upsert where its kid has none. -/
theorem unburied_of_answer (hsound : w.table.Sound) (h : w.table.Unburied)
    (hfree : keyBlocked t cl w = false)
    (hclear : ∀ args, cl = .importSigningKey args → w.table.Clear args.kid) :
    (keyAnswer t cl w).2.table.Unburied := by
  cases cl with
  | begin => exact h.begin t
  | retire kids now expiresAt => exact h.retire hsound kids now expiresAt
  | guardInsert args => exact h.guardInsert t args
  | importSigningKey args => exact h.importSigningKey (hclear args rfl)
  | commit => exact h.commit hsound t
  | rollback => exact h.abort t
  | revoke => exact h.revoke w.clock hfree
  | reap kids now => exact h.reap hsound now hfree
  | _ =>
    rw [table_of_reading rfl]
    exact h

/-- A kid gets a tombstone when its row is reaped. -/
theorem clear_of_answer (h : w.table.Clear kid)
    (hreap : ∀ kids now, cl = .reap kids now → ∀ r ∈ w.table.reaped kids now, r.kid ≠ kid) :
    (keyAnswer t cl w).2.table.Clear kid := by
  cases cl with
  | reap kids now =>
    simp only [keyAnswer, KeyTable.reap]
    split
    · exact h
    · intro s hs
      rcases (KeyTable.mem_foldl_bury now _ _).2.2 s hs with hold | ⟨r, hr, hkid⟩
      · exact h s hold
      · rw [← hkid]
        exact hreap kids now rfl r hr
  | begin | rollback => exact h
  | commit | revoke | retire | guardInsert | importSigningKey =>
    simp only [keyAnswer, KeyTable.commit, KeyTable.revoke, KeyTable.retire, KeyTable.guardInsert,
      KeyTable.importSigningKey]
    repeat' split
    all_goals exact h
  | _ =>
    rw [table_of_reading rfl]
    exact h

/-- What the guard lets pass has no tombstone at that moment. -/
theorem KeyTable.clear_of_guardInsert {K : KeyTable} {args' : ImportArgs} {args : Importable}
    (h : (K.guardInsert t args').1 = .ok args) : (K.guardInsert t args').2.Clear args.kid := by
  unfold guardInsert at h ⊢
  split at h
  · rename_i hopen
    rw [if_pos hopen]
    split at h
    · rename_i hdigest
      rw [dif_pos hdigest]
      split at h
      · rename_i hclear
        rw [if_pos hclear]
        cases h
        exact hclear
      · cases h
    · cases h
  · cases h

/-- **A step that takes no key from under its import**: it reaps none that a thread is about to
upsert, past the guard. -/
def Unraced (c : Config keyService) (l : Label keyService) : Prop :=
  ∀ t kids now, l = .act t → c.pending t = some (.reap kids now) →
    ∀ u args, c.pending u = some (.importSigningKey args) →
      ∀ r ∈ (tableOf c).reaped kids now, r.kid ≠ args.kid

/-- No kid in use has a tombstone, and none that is about to be upserted. -/
structure Cleared (c : Config keyService) : Prop where
  unburied : (tableOf c).Unburied
  waiting : ∀ t args, c.pending t = some (.importSigningKey args) → (tableOf c).Clear args.kid

theorem unburied_of_step (hsound : (tableOf c).Sound) (h : Cleared c) (hs : Step c l c') :
    (tableOf c').Unburied := by
  cases hs with
  | spawn | fault => exact h.unburied
  | @act t th cl k hth hrest hfree =>
    refine unburied_of_answer hsound h.unburied hfree fun args hargs => h.waiting t args ?_
    rw [Config.pending_eq hth, Thread.pending_of_call hrest, hargs]
  | nudge n =>
    cases n with
    | disconnect t => exact h.unburied.abort t
    | _ => exact h.unburied

theorem clear_of_step (h : (tableOf c).Clear kid)
    (hreap : ∀ t kids now, l = .act t → c.pending t = some (.reap kids now) →
      ∀ r ∈ (tableOf c).reaped kids now, r.kid ≠ kid) (hs : Step c l c') :
    (tableOf c').Clear kid := by
  cases hs with
  | spawn | fault => exact h
  | @act t th cl k hth hrest hfree =>
    refine clear_of_answer h fun kids now hcl => hreap t kids now rfl ?_
    rw [Config.pending_eq hth, Thread.pending_of_call hrest, hcl]
  | nudge n => cases n <;> exact h

variable {Init : KeyWorld → Prop}

/-- **A step keeps the kids clear**: a thread that is about to upsert has just passed the guard, or
was about to before, and then its kid was not reaped. -/
theorem cleared_of_step (hc : Reachable Init anyStep c) (hsound : (tableOf c).Sound) (h : Cleared c)
    (hok : Unraced c l) (hs : Step c l c') : Cleared c' where
  unburied := unburied_of_step hsound h hs
  waiting u args hpend := by
    obtain ⟨th', hth', hpend⟩ := Option.bind_eq_some_iff.mp hpend
    have hc' : Reachable Init anyStep c' := hc.run ((Run.refl c).snoc trivial hs)
    -- the upsert comes right after the guard
    obtain ⟨args', ψ, hpast⟩ : ∃ args' ψ, th'.past = ⟨.guardInsert args', .ok args⟩ :: ψ :=
      hc'.allows_history hth' (serve_guarding th'.req) hpend
    rcases hs.thread hth' with hold | ⟨r, -, -, rfl⟩ | ⟨th, cl, k, r, hth, hrest, rfl, hreply⟩
    · have hpend₀ : c.pending u = some (.importSigningKey args) :=
        (Config.pending_eq hold).trans hpend
      exact clear_of_step (h.waiting u args hpend₀)
        (fun t kids now hl hreap => hok t kids now hl hreap u args hpend₀) hs
    · cases hpast
    · cases hpast
      rcases hreply with ⟨rfl, hr⟩ | ⟨-, e, he⟩
      · have hworld := (hs.answered hth (Thread.pending_of_call hrest)).2
        rw [tableOf, hworld]
        exact KeyTable.clear_of_guardInsert hr.symm
      · cases he

theorem cleared_of_reachable (hc : Reachable KeyWorld.Fresh Unraced c) : Cleared c := by
  refine hc.induct (fun w hw => ⟨hw.unburied_versions, nofun⟩) ?_
  intro c l c' hc h hok hs
  exact cleared_of_step hc.unguarded (sound_of_reachable hc.unguarded) h hok hs

/-! ### The life of a key -/

/-- **Signing-key lifecycle.** In every run of any number of pods, whatever fails:

* at most one key is active;
* a revoked key stays in the table as it is;
* the public key under a kid does not change;
* a request that ends in an import, and fails neither in the refresh after its commit nor with the
  answer to the commit lost, has left the keys and the tombstones as they were at each of its steps;

and where no key is reaped whose import has passed the guard and waits for its upsert,

* a kid that has a tombstone is not in the table, and a kid that has left the table does not come
  back. -/
theorem signing_key_lifecycle (hc : Reachable KeyWorld.Fresh anyStep c) (hr : Run anyStep c c') :
    OneActive (tableOf c').rows ∧
    (∀ r ∈ (tableOf c).rows, r.status = .revoked → r ∈ (tableOf c').rows) ∧
    (∀ r ∈ (tableOf c).rows, ∀ r' ∈ (tableOf c').rows, r'.kid = r.kid →
      r'.publicKey = r.publicKey) ∧
    (∀ t l d th, (l = .act t ∨ l = .fault t) → Step c l d → Run anyStep d c' →
      c'.threads[t]? = some th → FailedBeforeCommit th →
      (tableOf d).rows = (tableOf c).rows ∧ (tableOf d).tombstones = (tableOf c).tombstones) ∧
    (Reachable KeyWorld.Fresh Unraced c → Run Unraced c c' →
      (∀ s ∈ (tableOf c).tombstones, ∀ r' ∈ (tableOf c').rows, r'.kid ≠ s.kid) ∧
      ∀ r ∈ (tableOf c).rows, (∀ r' ∈ (tableOf c').rows, r'.kid ≠ r.kid) →
        ∀ c'', Run Unraced c' c'' → ∀ r'' ∈ (tableOf c'').rows, r''.kid ≠ r.kid) := by
  obtain ⟨hsound, hext⟩ := table_kept_of_run (sound_of_reachable hc) hr
  refine ⟨hsound.single, hext.revoked, hext.publicKey, ?_, ?_⟩
  · intro t l d th hl hs hd hth hfailed
    exact rows_of_failed_import hc hl hs hd hth hfailed
  · intro hunraced hrun
    refine ⟨?_, ?_⟩
    · intro s hs r' hr' heq
      have hcleared := cleared_of_reachable (hunraced.run hrun)
      exact hcleared.unburied r' (.inl hr') s (hext.tombstones s hs) heq.symm
    · intro r hrow hgone c'' hr'' r'' hrow'' heq
      have hcleared := cleared_of_reachable ((hunraced.run hrun).run hr'')
      have hext'' := (table_kept_of_run hsound (hr''.mono fun _ _ _ => trivial)).2
      -- what is gone was reaped, and has a tombstone
      rcases hext.gone r hrow with ⟨r', hr', hkid⟩ | ⟨s, hs, hkid⟩
      · exact hgone r' hr' hkid
      · exact hcleared.unburied r'' (.inl hrow'') s (hext''.tombstones s hs)
          (hkid.trans heq.symm)

namespace Sample

/-- A row as an import leaves it, with another status. -/
def keyRow (n : ℕ) (status : KeyStatus) (retiredAt expiresAt : Option Time) : KeyRow :=
  ⟨kidFromPublicKey ⟨n⟩, .sealed 7 n (kidFromPublicKey ⟨n⟩) (.key ⟨n⟩), .rsa ⟨n⟩,
    "RS256", status, 1, retiredAt, expiresAt⟩

/-- An active key, a revoked one, and one that was retired and has expired. -/
def keyTable : KeyTable :=
  ⟨⟨[keyRow 0 .active none none, keyRow 1 .revoked (some 2) none,
    keyRow 3 .retired (some 2) (some 50)], []⟩, []⟩

def pod : Pod := ⟨some 7, none, .empty, false, none, KID.none⟩

def keyWorld : KeyWorld := ⟨keyTable, 100, 50, none, fun _ => pod⟩

theorem keyWorld_fresh : keyWorld.Fresh where
  idle := rfl
  keys := by decide
  single := by decide
  filed r hr der hder := by
    simp only [keyWorld, keyTable, KeyTable.rows, List.mem_cons, List.not_mem_nil, or_false] at hr
    rcases hr with rfl | rfl | rfl <;> exact KID.digest.inj hder
  unburied := by decide

def keyStore : KeyStore := ⟨0, 3600⟩

/-- No thread is about to upsert when a key is reaped. -/
def apart (c : Config keyService) : Label keyService → Bool
  | .act t =>
    match c.pending t with
    | some (.reap ..) => c.threads.all fun th =>
      match th.pending with
      | some (.importSigningKey _) => false
      | _ => true
    | _ => true
  | _ => true

theorem unraced_of_apart (c : Config keyService) (l : Label keyService) (h : apart c l) :
    Unraced c l := by
  rintro t kids now rfl hreap u args hpend
  obtain ⟨th, hth, hpend⟩ := Option.bind_eq_some_iff.mp hpend
  rw [apart, hreap] at h
  have hth := List.all_eq_true.mp h th (List.mem_of_getElem? hth)
  rw [hpend] at hth
  cases hth

/-- The expired key is reaped, and then imported again; the transaction of the import has found what
to retire. -/
def reimporting : Config keyService :=
  (execAll apart ⟨keyWorld, []⟩
    ([.spawn (KeyReq.cleanupExpired keyStore)] ++ .replicate 2 (.act 0) ++
      [.spawn (KeyReq.importKey keyStore ⟨3⟩)] ++ .replicate 4 (.act 1))).getD ⟨keyWorld, []⟩

def retiring : Config keyService := (exec reimporting (.act 1)).getD reimporting

def refused : Config keyService :=
  (execAll apart retiring (.replicate 2 (.act 1))).getD retiring

/-- What the request of a thread has returned. -/
def returned (c : Config keyService) (t : ℕ) : Option (Except KeyStoreError KeyResponse) :=
  c.threads[t]?.bind Thread.result

/-- The import of the reaped key fails, and the step that retired the active one has left the
committed rows as they were. -/
theorem lifecycle_of_refused_import :
    returned refused 1 = some (.error (.wrap "keystore: insert key" (.db .tombstoned))) ∧
    (tableOf retiring).rows = (tableOf reimporting).rows ∧ OneActive (tableOf refused).rows ∧
    keyRow 1 .revoked (some 2) none ∈ (tableOf refused).rows ∧
    ∀ r ∈ (tableOf refused).rows, r.kid ≠ kidFromPublicKey ⟨3⟩ := by
  have hc : Reachable KeyWorld.Fresh Unraced reimporting :=
    ⟨keyWorld, keyWorld_fresh, run_execAll unraced_of_apart _ _⟩
  have hs : Step reimporting (.act 1) retiring := by
    have hsome : (exec reimporting (.act 1)).isSome := by decide +kernel
    obtain ⟨d, hd⟩ := Option.isSome_iff_exists.mp hsome
    rw [retiring, hd]
    exact exec_sound hd
  have hr : Run Unraced retiring refused := run_execAll unraced_of_apart _ _
  have hrun : Run Unraced reimporting refused :=
    ((Run.refl _).snoc (unraced_of_apart _ _ (by decide +kernel)) hs).trans hr
  have hres : returned refused 1 =
      some (.error (.wrap "keystore: insert key" (.db .tombstoned))) := by rfl
  obtain ⟨th, hth, hresult⟩ := Option.bind_eq_some_iff.mp hres
  have hreq : (refused.threads[1]?.map fun th =>
      decide (KeyReq.imports th.req ∧ ¬ CommitLost th.past)) = some true := by decide +kernel
  rw [hth] at hreq
  obtain ⟨himports, hlost⟩ := of_decide_eq_true (Option.some.inj hreq)
  obtain ⟨hone, hrevoked, -, hfailed, hburied⟩ :=
    signing_key_lifecycle hc.unguarded (hrun.mono fun _ _ _ => trivial)
  refine ⟨hres, ?_, hone, hrevoked _ (by decide +kernel) rfl, ?_⟩
  · exact (hfailed 1 (.act 1) retiring th (.inl rfl) hs (hr.mono fun _ _ _ => trivial) hth
      ⟨himports, ⟨_, hresult, rfl⟩, hlost⟩).1
  · exact (hburied hc hrun).1 ⟨kidFromPublicKey ⟨3⟩, .retired, 100⟩ (by decide +kernel)

/-- The expired key is imported again, and has passed the guard. -/
def guarded : Config keyService :=
  (execAll (fun _ _ => true) ⟨keyWorld, []⟩
    ([.spawn (KeyReq.importKey keyStore ⟨3⟩)] ++ .replicate 6 (.act 0))).getD ⟨keyWorld, []⟩

def reapedMeanwhile : Config keyService :=
  (execAll (fun _ _ => true) guarded
    ([.spawn (KeyReq.cleanupExpired keyStore)] ++ .replicate 2 (.act 1))).getD guarded

/-- The import goes on, and commits. -/
def inserted : Config keyService :=
  (execAll (fun _ _ => true) reapedMeanwhile (.replicate 3 (.act 0))).getD reapedMeanwhile

/-- **A reaped kid that is inserted again.** The import of a retired key has passed the guard when
the key is reaped: its upsert finds no row to collide with, and inserts one under the tombstone. -/
theorem reaped_kid_inserted : Reachable KeyWorld.Fresh anyStep reapedMeanwhile ∧
    (tableOf reapedMeanwhile).tombstones = [⟨kidFromPublicKey ⟨3⟩, .retired, 100⟩] ∧
    (∀ r ∈ (tableOf reapedMeanwhile).rows, r.kid ≠ kidFromPublicKey ⟨3⟩) ∧
    Run anyStep reapedMeanwhile inserted ∧
    ((tableOf inserted).rows.map fun r => (r.kid, r.status)) =
      [(kidFromPublicKey ⟨3⟩, .active), (kidFromPublicKey ⟨0⟩, .retired),
        (kidFromPublicKey ⟨1⟩, .revoked)] ∧
    (tableOf inserted).tombstones = [⟨kidFromPublicKey ⟨3⟩, .retired, 100⟩] := by
  refine ⟨⟨keyWorld, keyWorld_fresh, ?_⟩, by decide +kernel, by decide +kernel, ?_,
    by decide +kernel, by decide +kernel⟩
  · exact (run_execAll (fun _ _ _ => trivial) _ _).trans (run_execAll (fun _ _ _ => trivial) _ _)
  · exact run_execAll (fun _ _ _ => trivial) _ _

/-- Another key is imported; the database has committed its transaction. -/
def committed : Config keyService :=
  (execAll (fun _ _ => true) ⟨keyWorld, []⟩
    ([.spawn (KeyReq.importKey keyStore ⟨2⟩)] ++ .replicate 8 (.act 0))).getD ⟨keyWorld, []⟩

theorem run_committed : Run anyStep ⟨keyWorld, []⟩ committed :=
  run_execAll (fun _ _ _ => trivial) _ _

/-- The query of a refresh fails, or the answer to a commit is lost. -/
def unanswered : (cl : KeyCall) → Option cl.Reply
  | .loadable => some (.error .unavailable)
  | .commitReply => some (.error .unavailable)
  | _ => none

theorem unanswered_fault (cl : KeyCall) (r : cl.Reply) (h : unanswered cl = some r) :
    KeyFault cl r := by
  cases cl with
  | loadable | commitReply => exact ⟨.unavailable, (Option.some.inj h).symm⟩
  | _ => cases h

/-- The answer to the commit is lost. -/
def answerLost : Config keyService := (execFault unanswered committed 0).getD committed

/-- The import returns. -/
def commitFailed : Config keyService :=
  (execAll (fun _ _ => true) answerLost [.act 0]).getD answerLost

/-- The import has its answer, and its refresh holds the mutex. -/
def refreshing : Config keyService :=
  (execAll (fun _ _ => true) committed (.replicate 2 (.act 0))).getD committed

/-- The query of the refresh fails. -/
def unrefreshed : Config keyService := (execFault unanswered refreshing 0).getD refreshing

/-- The import returns. -/
def importFailed : Config keyService :=
  (execAll (fun _ _ => true) unrefreshed (.replicate 2 (.act 0))).getD unrefreshed

/-- What is stored after either of the imports. -/
def importedRows : List (KID × KeyStatus) :=
  [(kidFromPublicKey ⟨2⟩, .active), (kidFromPublicKey ⟨0⟩, .retired),
    (kidFromPublicKey ⟨1⟩, .revoked), (kidFromPublicKey ⟨3⟩, .retired)]

/-- **An import that fails and has changed the table.** Its refresh cannot query the table after the
commit: it returns an error, and the key that was active before is retired. -/
theorem import_failed_committed : Reachable KeyWorld.Fresh anyStep importFailed ∧
    returned importFailed 0 = some (.error (.wrap "keystore: refresh after import"
      (.wrap "keystore: query keys" (.db .unavailable)))) ∧
    ((tableOf importFailed).rows.map fun r => (r.kid, r.status)) = importedRows := by
  refine ⟨⟨keyWorld, keyWorld_fresh, ?_⟩, rfl, by decide +kernel⟩
  have hrefreshing : Run anyStep committed refreshing := run_execAll (fun _ _ _ => trivial) _ _
  exact run_committed.trans (hrefreshing.trans
    ((run_execFault unanswered_fault _ _).trans (run_execAll (fun _ _ _ => trivial) _ _)))

/-- The same with the answer to the commit lost: the error is that of a commit that has failed. -/
theorem commit_answer_lost : Reachable KeyWorld.Fresh anyStep commitFailed ∧
    returned commitFailed 0 = some (.error (.wrap "keystore: commit" (.db .unavailable))) ∧
    ((tableOf commitFailed).rows.map fun r => (r.kid, r.status)) = importedRows := by
  refine ⟨⟨keyWorld, keyWorld_fresh, ?_⟩, rfl, by decide +kernel⟩
  exact run_committed.trans
    ((run_execFault unanswered_fault _ _).trans (run_execAll (fun _ _ _ => trivial) _ _))

end Sample

end Vault42.Keystore
