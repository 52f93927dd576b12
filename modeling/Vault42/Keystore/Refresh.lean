import Vault42.Keystore.Store
import Vault42.Keystore.Invariants

/-!
# Refreshing a pod's keys

What one `Refresh` makes of the table and of the pod's memory, whatever the table holds and
whichever of its calls fail (`refresh_outcome`). A refresh that returns an error leaves the memory
as it was. A refresh that succeeds publishes only keys that are this vault's own: the row is neither
revoked nor expired, and opens under the master key to the private half of the key it publishes.

An active row becomes the signer, as long as its public key is an RSA key and it has not expired:
the loop skips a row whose public key it cannot use before it looks at the row's status
(`Sample.active_row_skipped`).

The token service is told when the active kid changes. Over the whole life of a pod (`Lived`) that
keeps it on the kid that the keystore reports (`coherent_of_lived`).
-/

namespace Vault42.Keystore

open Framework Program List KeyWorld

variable {ks : KeyStore} {t : ℕ} {w w' : KeyWorld} {row : KeyRow} {α : Type} {pub : PublicKey}
  {masterKey : Option MasterKey} {keys : KeySet} {now : Time} {r : Except KeyStoreError Unit}

/-- The row opens under the master key, with its kid, to a key whose public half is `pub` and is
what the row says it is. -/
def Opens (masterKey : Option MasterKey) (row : KeyRow) (pub : PublicKey) (key : PrivateKey) :
    Prop :=
  row.publicKey = .rsa pub ∧ key.publicKey = pub ∧
    ∃ mk pem, masterKey = some mk ∧ decrypt row.privateKey mk row.kid = some pem ∧
      loadSigningKeyPEM pem = some key

/-! ### The loop -/

/-- A run of a function of the keystore, alone, with any of its calls failing. -/
abbrev Runs {α : Type} (t : ℕ) (p : KeyProg α) (w : KeyWorld) (a : α) (w' : KeyWorld) : Prop :=
  p.Exec (S := keyCalls) (keyAnswer t) KeyFault w a w'

section Loop

theorem runs_ask {c : KeyCall} {f : c.Reply → KeyProg α} {a : α}
    (h : Runs t (askKey c >>= f) w a w') :
    Runs t (f (keyAnswer t c w).1) (keyAnswer t c w).2 a w' ∨
      ∃ r, KeyFault c r ∧ Runs t (f r) w a w' := exec_call.mp h

theorem runs_bind {β : Type} {p : KeyProg α} {f : α → KeyProg β} {b : β}
    (h : Runs t (p >>= f) w b w') : ∃ a v, Runs t p w a v ∧ Runs t (f a) v b w' := exec_bind.mp h

theorem runs_ite {b : Prop} [Decidable b] {p q : KeyProg α} {a : α}
    (h : Runs t (if b then p else q) w a w') : b ∧ Runs t p w a w' ∨ ¬ b ∧ Runs t q w a w' := by
  split at h
  next hb => exact .inl ⟨hb, h⟩
  next hb => exact .inr ⟨hb, h⟩

theorem runs_error {e : KeyStoreError} {r : Except KeyStoreError α} {P : α → Prop}
    (h : Runs t (pure (.error e)) w r w') : w' = w ∧ ∀ a, r = .ok a → P a := by
  obtain ⟨rfl, rfl⟩ := exec_ret.mp h
  exact ⟨rfl, nofun⟩

theorem keyAnswer_decrypt (t : ℕ) (p : ℕ) (kid : KID) (data : Ciphertext) (w : KeyWorld) :
    ∃ r : Except KeyStoreError PEM, keyAnswer t (.decrypt p kid data) w = (r, w) ∧
      ∀ pem, r = .ok pem →
        ∃ mk, (w.pods p).masterKey = some mk ∧ decrypt data mk kid = some pem := by
  cases hmk : (w.pods p).masterKey with
  | none => exact ⟨.error .closed, by simp only [keyAnswer, hmk]; rfl, fun pem h => nomatch h⟩
  | some mk =>
    cases hdec : decrypt data mk kid with
    | none =>
      exact ⟨.error .authentication, by simp only [keyAnswer, hmk, hdec]; rfl,
        fun pem h => nomatch h⟩
    | some pem =>
      refine ⟨.ok pem, by simp only [keyAnswer, hmk, hdec]; rfl, fun pem' h => ?_⟩
      cases h
      exact ⟨mk, rfl, hdec⟩

theorem runs_openKey {kid : KID} {encPriv : Ciphertext} {r : Except KeyStoreError PrivateKey}
    (h : Runs t (ks.openKey kid encPriv) w r w') :
    w' = w ∧ ∀ key, r = .ok key → ∃ mk pem, (w.pods ks.pod).masterKey = some mk ∧
      decrypt encPriv mk kid = some pem ∧ loadSigningKeyPEM pem = some key := by
  rcases runs_ask h with h | ⟨r', hr', h⟩
  · obtain ⟨reply, hreply, hopen⟩ := keyAnswer_decrypt t ks.pod kid encPriv w
    rw [hreply] at h
    cases reply with
    | error => exact runs_error h
    | ok pem =>
      obtain ⟨mk, hmk, hdec⟩ := hopen pem rfl
      dsimp only at h
      split at h
      next => exact runs_error h
      next key hload =>
        obtain ⟨rfl, rfl⟩ := exec_ret.mp h
        refine ⟨rfl, fun key' hkey' => ?_⟩
        cases hkey'
        exact ⟨mk, pem, hmk, hdec, hload⟩
  · obtain rfl : r' = .error .closed := hr'
    exact runs_error h

theorem runs_openMatching {r : Except KeyStoreError PrivateKey}
    (hpub : row.publicKey = .rsa pub) (h : Runs t (ks.openMatching row pub) w r w') :
    w' = w ∧ ∀ key, r = .ok key → Opens (w.pods ks.pod).masterKey row pub key := by
  obtain ⟨opened, v, hopen, h⟩ := runs_bind h
  obtain ⟨rfl, hkey⟩ := runs_openKey hopen
  cases opened with
  | error => exact runs_error h
  | ok key =>
    dsimp only at h
    split at h
    next heq =>
      obtain ⟨rfl, rfl⟩ := exec_ret.mp h
      refine ⟨rfl, fun key' hkey' => ?_⟩
      cases hkey'
      exact ⟨hpub, heq, hkey key rfl⟩
    next => exact runs_error h

/-- **What the loop has built** from the rows it has gone through. -/
structure Built (masterKey : Option MasterKey) (seen : List KeyRow) (keys : KeySet) : Prop where
  published : ∀ kid pub, (kid, pub) ∈ keys.publicKeys →
    ∃ row ∈ seen, row.kid = kid ∧ ∃ key, Opens masterKey row pub key
  /-- The signer is that of an active row, and is published. -/
  signer : ∀ key, keys.activeKey = some key →
    (∃ row ∈ seen, row.status = .active ∧ row.kid = keys.activeKID ∧
      Opens masterKey row key.publicKey key) ∧ ∃ pub, (keys.activeKID, pub) ∈ keys.publicKeys
  idle : keys.activeKey = none → keys.activeKID = KID.none
  /-- An active row with an RSA key has left a signer. -/
  active : ∀ row ∈ seen, row.status = .active → ∀ pub, row.publicKey = .rsa pub →
    keys.activeKey ≠ none

theorem built_nil : Built masterKey [] .empty :=
  ⟨(fun _ _ h => nomatch h), (fun _ h => nomatch h), (fun _ => rfl), (fun _ h => nomatch h)⟩

variable {seen : List KeyRow}

theorem Built.skip (h : Built masterKey seen keys)
    (hskip : row.status ≠ .active ∨ ∀ pub, row.publicKey ≠ .rsa pub) :
    Built masterKey (seen ++ [row]) keys where
  published kid pub hmem := by
    obtain ⟨s, hs, hkid, hopen⟩ := h.published kid pub hmem
    exact ⟨s, mem_append_left _ hs, hkid, hopen⟩
  signer key hkey := by
    obtain ⟨⟨s, hs, hrest⟩, hpub⟩ := h.signer key hkey
    exact ⟨⟨s, mem_append_left _ hs, hrest⟩, hpub⟩
  idle := h.idle
  active s hs hactive pub hpub := by
    rcases mem_append.mp hs with hs | hs
    · exact h.active s hs hactive pub hpub
    · obtain rfl := mem_singleton.mp hs
      rcases hskip with hne | hne
      · exact absurd hactive hne
      · exact absurd hpub (hne pub)

theorem mem_publish {kid kid' : KID} {pub' : PublicKey} :
    (kid', pub') ∈ (keys.publish kid pub).publicKeys ↔
      (kid' = kid ∧ pub' = pub) ∨ ((kid', pub') ∈ keys.publicKeys ∧ kid' ≠ kid) := by
  simp [KeySet.publish, mem_filter]

theorem Built.keep (h : Built masterKey seen keys) {key : PrivateKey}
    (hopen : Opens masterKey row pub key) :
    Built masterKey (seen ++ [row]) (KeyStore.keep keys row pub key) := by
  have hlast : row ∈ seen ++ [row] := mem_append_right _ (mem_singleton_self row)
  -- whether or not the row is active, the same keys are published
  have published : ∀ kid pub', (kid, pub') ∈ (keys.publish row.kid pub).publicKeys →
      ∃ s ∈ seen ++ [row], s.kid = kid ∧ ∃ key, Opens masterKey s pub' key := by
    intro kid pub' hmem
    rcases mem_publish.mp hmem with ⟨rfl, rfl⟩ | ⟨hmem, -⟩
    · exact ⟨row, hlast, rfl, key, hopen⟩
    · obtain ⟨s, hs, hkid, hopen⟩ := h.published kid pub' hmem
      exact ⟨s, mem_append_left _ hs, hkid, hopen⟩
  have still : ∀ {kid pub'}, (kid, pub') ∈ keys.publicKeys →
      ∃ pub'', (kid, pub'') ∈ (keys.publish row.kid pub).publicKeys := by
    intro kid pub' hmem
    by_cases hkid : kid = row.kid
    · exact ⟨pub, mem_publish.mpr (.inl ⟨hkid, rfl⟩)⟩
    · exact ⟨pub', mem_publish.mpr (.inr ⟨hmem, hkid⟩)⟩
  unfold KeyStore.keep
  split
  next hactive =>
    refine ⟨published, ?_, (fun hnone => nomatch hnone), (fun _ _ _ _ _ hnone => nomatch hnone)⟩
    intro key' hkey'
    cases hkey'
    refine ⟨⟨row, hlast, hactive, rfl, ?_⟩, pub, mem_publish.mpr (.inl ⟨rfl, rfl⟩)⟩
    rw [hopen.2.1]
    exact hopen
  next hactive =>
    refine ⟨published, ?_, h.idle, ?_⟩
    · intro key' hkey'
      obtain ⟨⟨s, hs, hrest⟩, pub', hpub'⟩ := h.signer key' hkey'
      exact ⟨⟨s, mem_append_left _ hs, hrest⟩, still hpub'⟩
    · exact (h.skip (.inl hactive)).active

/-- **The loop.** It leaves the world alone, and when it succeeds it has gone through every row. -/
theorem runs_loadRows {rows : List KeyRow} {r : Except KeyStoreError KeySet}
    (h : Runs t (ks.loadRows rows keys) w r w')
    (hbuilt : Built (w.pods ks.pod).masterKey seen keys) :
    w' = w ∧ ∀ keys', r = .ok keys' → Built (w.pods ks.pod).masterKey (seen ++ rows) keys' := by
  induction rows generalizing seen keys with
  | nil =>
    obtain ⟨rfl, rfl⟩ := exec_ret.mp h
    refine ⟨rfl, fun keys' heq => ?_⟩
    cases heq
    rw [append_nil]
    exact hbuilt
  | cons row rows ih =>
    have hcons : seen ++ row :: rows = seen ++ [row] ++ rows := by simp
    rw [hcons]
    rw [KeyStore.loadRows] at h
    split at h
    next n hpub => exact ih h (hbuilt.skip (.inr fun pub => by simp [hpub]))
    next n hpub => exact ih h (hbuilt.skip (.inr fun pub => by simp [hpub]))
    next pub hpub =>
      obtain ⟨opened, v, hopen, h⟩ := runs_bind h
      obtain ⟨rfl, hkey⟩ := runs_openMatching hpub hopen
      cases opened with
      | ok key => exact ih h (hbuilt.keep (hkey key rfl))
      | error =>
        dsimp only at h
        split at h
        next =>
          obtain ⟨rfl, rfl⟩ := exec_ret.mp h
          exact ⟨rfl, fun keys' heq => nomatch heq⟩
        next hactive => exact ih h (hbuilt.skip (.inl hactive))

end Loop

/-! ### What a refresh does to a pod -/

namespace KeyWorld

@[simp] theorem pods_setPod_self (w : KeyWorld) (p : ℕ) (pod : Pod) :
    (w.setPod p pod).pods p = pod :=
  if_pos rfl

@[simp] theorem setPod_setPod (w : KeyWorld) (p : ℕ) (pod pod' : Pod) :
    (w.setPod p pod).setPod p pod' = w.setPod p pod' := by
  unfold setPod
  congr 1
  funext q
  by_cases hq : q = p
  · simp [hq]
  · simp [hq]

end KeyWorld

/-- The pod after `applyKeys`: its token service is told only when the active kid has changed. -/
def Pod.install (p : Pod) (keys : KeySet) : Pod :=
  if keys.activeKID ≠ p.keys.activeKID ∧ p.subscribed then
    { p with keys := keys, signingKey := keys.activeKey, signingKID := keys.activeKID }
  else { p with keys := keys }

section Pod

theorem runs_applyKeys {u : Unit} (h : Runs t (ks.applyKeys keys) w u w') :
    w' = w.setPod ks.pod ((w.pods ks.pod).install keys) := by
  rcases runs_ask h with h | ⟨r, hr, -⟩
  swap
  · exact hr.elim
  unfold Pod.install
  rcases runs_ite (b := keys.activeKID = (w.pods ks.pod).keys.activeKID) h with
    ⟨hsame, h⟩ | ⟨hchanged, h⟩
  · obtain ⟨-, rfl⟩ := exec_ret.mp h
    rw [if_neg (fun hne => hne.1 hsame)]
    rfl
  · rcases exec_call.mp h with h | ⟨r, hr, -⟩
    swap
    · exact hr.elim
    obtain ⟨-, rfl⟩ := exec_ret.mp h
    simp only [keyAnswer, pods_setPod_self]
    split
    next hsub =>
      rw [if_pos ⟨hchanged, hsub⟩, setPod_setPod]
      rfl
    next hsub => rw [if_neg fun h => hsub h.2]

/-- The body of `Refresh` fails and does nothing, or installs what it has built from the rows that
the query found. -/
theorem runs_refreshLocked (h : Runs t ks.refreshLocked w r w') :
    (∃ e, r = .error e ∧ w' = w) ∨
      (r = .ok () ∧ ∃ keys, Built (w.pods ks.pod).masterKey (w.table.loadable w.clock) keys ∧
        w' = w.setPod ks.pod ((w.pods ks.pod).install keys)) := by
  rcases runs_ask h with h | ⟨r', ⟨e, rfl⟩, h⟩
  swap
  · obtain ⟨rfl, rfl⟩ := exec_ret.mp h
    exact .inl ⟨_, rfl, rfl⟩
  obtain ⟨loaded, v, hloop, h⟩ := runs_bind h
  obtain ⟨rfl, hbuilt⟩ := runs_loadRows hloop built_nil
  cases loaded with
  | error =>
    obtain ⟨rfl, rfl⟩ := exec_ret.mp h
    exact .inl ⟨_, rfl, rfl⟩
  | ok keys =>
    have hbuilt := hbuilt keys rfl
    rcases runs_ask h with h | ⟨r', ⟨e, rfl⟩, h⟩
    · obtain ⟨u, v', happly, h⟩ := runs_bind h
      obtain ⟨rfl, rfl⟩ := exec_ret.mp h
      exact .inr ⟨rfl, keys, hbuilt, runs_applyKeys happly⟩
    · obtain ⟨rfl, rfl⟩ := exec_ret.mp h
      exact .inl ⟨_, rfl, rfl⟩

theorem Pod.install_refreshMu (p : Pod) (keys : KeySet) (holder : Option ℕ) :
    ({ p with refreshMu := holder } : Pod).install keys =
      { p.install keys with refreshMu := holder } := by
  unfold Pod.install
  split <;> rfl

/-- **`Refresh`**, on a pod whose mutex is free. -/
theorem runs_refresh (hfree : (w.pods ks.pod).refreshMu = none)
    (h : Runs t ks.refresh w r w') :
    (∃ e, r = .error e ∧ w' = w) ∨
      (r = .ok () ∧ ∃ keys, Built (w.pods ks.pod).masterKey (w.table.loadable w.clock) keys ∧
        w' = w.setPod ks.pod ((w.pods ks.pod).install keys)) := by
  rcases runs_ask h with h | ⟨r', hr', -⟩
  swap
  · exact hr'.elim
  obtain ⟨result, v, hbody, h⟩ := runs_bind h
  rcases runs_ask h with h | ⟨r', hr', -⟩
  swap
  · exact hr'.elim
  obtain ⟨rfl, rfl⟩ := exec_ret.mp h
  -- the mutex is taken and given back
  have hpod : ({ w.pods ks.pod with refreshMu := none } : Pod) = w.pods ks.pod := by rw [← hfree]
  have hself : w.setPod ks.pod (w.pods ks.pod) = w := by
    unfold setPod
    congr 1
    funext q
    by_cases hq : q = ks.pod
    · simp [hq]
    · simp [hq]
  rcases runs_refreshLocked hbody with ⟨e, rfl, rfl⟩ | ⟨rfl, keys, hbuilt, rfl⟩
  · refine .inl ⟨e, rfl, ?_⟩
    simp only [keyAnswer, pods_setPod_self, setPod_setPod]
    rw [hpod, hself]
  · simp only [keyAnswer, pods_setPod_self] at hbuilt
    refine .inr ⟨rfl, keys, hbuilt, ?_⟩
    simp only [keyAnswer, pods_setPod_self, setPod_setPod, Pod.install_refreshMu]
    congr 1
    rw [← Pod.install_refreshMu, hpod]

end Pod

/-! ### The token service -/

/-- The token service of a pod is on the kid that the keystore reports, or on nothing when it
reports none. -/
structure Pod.Coherent (p : Pod) : Prop where
  settled : p.keys.activeKID = KID.none → p.keys.activeKey = none
  kid : p.subscribed → p.signingKID = p.keys.activeKID
  silent : p.subscribed → p.keys.activeKey = none → p.signingKey = none

theorem Pod.Coherent.install {p : Pod} (h : p.Coherent)
    {rows : List KeyRow} (hbuilt : Built masterKey rows keys)
    (hkids : ∀ row ∈ rows, row.kid ≠ KID.none) : (p.install keys).Coherent := by
  have settled : keys.activeKID = KID.none → keys.activeKey = none := by
    intro hkid
    cases hkey : keys.activeKey with
    | none => rfl
    | some key =>
      obtain ⟨⟨row, hrow, -, hrowkid, -⟩, -⟩ := hbuilt.signer key hkey
      exact absurd (hrowkid.trans hkid) (hkids row hrow)
  unfold Pod.install
  split
  next hchanged => exact ⟨settled, fun _ => rfl, fun _ hnone => hnone⟩
  next hsame =>
    -- the service was not told, so the kid is the one it was on
    have hkid : p.subscribed → keys.activeKID = p.keys.activeKID := by
      intro hsub
      by_contra hne
      exact hsame ⟨hne, hsub⟩
    refine ⟨settled, fun hsub => (h.kid hsub).trans (hkid hsub).symm, fun hsub hnone => ?_⟩
    refine h.silent hsub (h.settled ?_)
    rw [← hkid hsub]
    exact hbuilt.idle hnone

/-- **The life of a pod.** It starts with a keystore that is empty and that nobody listens to; it is
refreshed, its token service is created with the active key and subscribed, and meanwhile anything
can happen that does not write this pod's memory: to the table, to the clock, to other pods. -/
inductive Lived (ks : KeyStore) : KeyWorld → Prop where
  | fresh {w : KeyWorld} : (w.pods ks.pod).keys = .empty → (w.pods ks.pod).subscribed = false →
      Lived ks w
  | refreshed {t : ℕ} {w w' : KeyWorld} {r : Except KeyStoreError Unit} : Lived ks w →
      (w.pods ks.pod).refreshMu = none → (∀ row ∈ w.table.rows, row.kid ≠ KID.none) →
      Runs t ks.refresh w r w' → Lived ks w'
  | wired {w : KeyWorld} : Lived ks w → Lived ks (keyNudge (.wire ks.pod) w)
  | outside {w w' : KeyWorld} : Lived ks w → (w'.pods ks.pod).keys = (w.pods ks.pod).keys →
      (w'.pods ks.pod).subscribed = (w.pods ks.pod).subscribed →
      (w'.pods ks.pod).signingKey = (w.pods ks.pod).signingKey →
      (w'.pods ks.pod).signingKID = (w.pods ks.pod).signingKID → Lived ks w'

theorem mem_loadable {K : KeyTable} :
    row ∈ K.loadable now ↔ row ∈ K.rows ∧ KeyTable.loads now row := by
  rw [KeyTable.loadable, (perm_insertionSort _ _).mem_iff, mem_filter]

/-- **Throughout its life** a pod is coherent. -/
theorem coherent_of_lived (h : Lived ks w) :
    (w.pods ks.pod).Coherent := by
  induction h with
  | fresh hkeys hsub =>
    refine ⟨fun _ => ?_, fun h => ?_, fun h => ?_⟩
    · rw [hkeys]
      rfl
    · rw [hsub] at h
      cases h
    · rw [hsub] at h
      cases h
  | refreshed _ hfree hkids hrun ih =>
    rcases runs_refresh hfree hrun with ⟨e, -, rfl⟩ | ⟨-, keys, hbuilt, rfl⟩
    · exact ih
    · rw [pods_setPod_self]
      exact ih.install hbuilt fun row hrow => hkids row (mem_loadable.mp hrow).1
  | @wired w _ ih =>
    rw [keyNudge, pods_setPod_self]
    exact ⟨ih.settled, fun _ => rfl, fun _ hnone => hnone⟩
  | outside _ hkeys hsub hkey hkid ih =>
    refine ⟨?_, ?_, ?_⟩
    · rw [hkeys]
      exact ih.settled
    · rw [hkeys, hsub, hkid]
      exact ih.kid
    · rw [hkeys, hsub, hkey]
      exact ih.silent

/-! ### The outcome of a refresh -/

def KeyRow.Unexpired (row : KeyRow) (now : Time) : Prop := ∀ e, row.expiresAt = some e → now < e

theorem KeyRow.unexpired_of_loads (h : KeyTable.loads now row) :
    row.status ≠ .revoked ∧ row.Unexpired now := by
  rw [KeyTable.loads, Bool.and_eq_true, decide_eq_true_eq] at h
  refine ⟨h.1, fun e he => ?_⟩
  have h₂ := h.2
  rw [he] at h₂
  exact of_decide_eq_true h₂

theorem KeyRow.loads_of_active (h : row.status = .active)
    (hexp : row.Unexpired now) : KeyTable.loads now row := by
  rw [KeyTable.loads, Bool.and_eq_true, decide_eq_true_eq, h]
  refine ⟨by decide, ?_⟩
  cases he : row.expiresAt with
  | none => rfl
  | some e => exact decide_eq_true (hexp e he)

/-- **The outcome of `Refresh`**, for every table with one active row at most and every pod,
whichever of its calls fail. Either it returns an error and the pod is as it was, or it succeeds and

* every published key is that of a row that is neither revoked nor expired and opens under the
  master key, with its kid, to the private half of that key;
* the signer's kid is published;
* an active row that has an RSA public key and has not expired is the signer;

and, after a success, the token service of a pod that has only seen kids that are not empty is on
the kid that the keystore reports, or on no key when the keystore has none. -/
theorem refresh_outcome (hfree : (w.pods ks.pod).refreshMu = none) (hone : OneActive w.table.rows)
    (h : Runs t ks.refresh w r w') :
    (((∃ e, r = .error e) ∧ w'.pods ks.pod = w.pods ks.pod) ∨
      (r = .ok () ∧
        (∀ kid pub, (kid, pub) ∈ (w'.pods ks.pod).keys.publicKeys →
          ∃ row ∈ w.table.rows, row.kid = kid ∧ row.status ≠ .revoked ∧ row.Unexpired w.clock ∧
            ∃ key, Opens (w.pods ks.pod).masterKey row pub key) ∧
        (∀ key, (w'.pods ks.pod).keys.activeKey = some key →
          ∃ pub, ((w'.pods ks.pod).keys.activeKID, pub) ∈ (w'.pods ks.pod).keys.publicKeys) ∧
        ∀ row ∈ w.table.rows, row.status = .active → row.Unexpired w.clock →
          ∀ pub, row.publicKey = .rsa pub → (w'.pods ks.pod).keys.activeKID = row.kid ∧
            ∃ key, (w'.pods ks.pod).keys.activeKey = some key ∧
              Opens (w.pods ks.pod).masterKey row pub key)) ∧
    (Lived ks w → (∀ row ∈ w.table.rows, row.kid ≠ KID.none) → r = .ok () →
      (w'.pods ks.pod).subscribed →
        (w'.pods ks.pod).signingKID = (w'.pods ks.pod).keys.activeKID ∧
        ((w'.pods ks.pod).keys.activeKey = none → (w'.pods ks.pod).signingKey = none)) := by
  constructor
  swap
  · intro hlived hkids _ hsub
    have hcoherent := coherent_of_lived (.refreshed hlived hfree hkids h)
    exact ⟨hcoherent.kid hsub, hcoherent.silent hsub⟩
  rcases runs_refresh hfree h with ⟨e, rfl, rfl⟩ | ⟨rfl, keys, hbuilt, rfl⟩
  · exact .inl ⟨⟨e, rfl⟩, rfl⟩
  have hkeys : ((w.pods ks.pod).install keys).keys = keys := by
    unfold Pod.install
    split <;> rfl
  refine .inr ⟨rfl, ?_⟩
  rw [KeyWorld.pods_setPod_self, hkeys]
  refine ⟨?_, fun key hkey => (hbuilt.signer key hkey).2, ?_⟩
  · intro kid pub hmem
    obtain ⟨row, hrow, hkid, hopen⟩ := hbuilt.published kid pub hmem
    obtain ⟨hrow, hloads⟩ := mem_loadable.mp hrow
    obtain ⟨hrevoked, hexp⟩ := KeyRow.unexpired_of_loads hloads
    exact ⟨row, hrow, hkid, hrevoked, hexp, hopen⟩
  · intro row hrow hactive hexp pub hpub
    have hloaded := mem_loadable.mpr ⟨hrow, KeyRow.loads_of_active hactive hexp⟩
    obtain ⟨key, hkey⟩ := Option.ne_none_iff_exists'.mp (hbuilt.active row hloaded hactive pub hpub)
    -- the signer is that of an active row, and there is only one
    obtain ⟨⟨row', hrow', hactive', hkid, hopen⟩, -⟩ := hbuilt.signer key hkey
    obtain rfl := hone row' (mem_loadable.mp hrow').1 row hrow hactive' hactive
    refine ⟨hkid.symm, key, hkey, ?_⟩
    obtain rfl : key.publicKey = pub := PublicDER.rsa.inj (hopen.1.symm.trans hpub)
    exact hopen

namespace Sample

def signerKID : KID := kidFromPublicKey ⟨0⟩

/-- The active row of a key. -/
def signerRow (kid : KID) (publicKey : PublicDER) (expiresAt : Option Time) : KeyRow :=
  ⟨kid, .sealed 7 0 kid (.key ⟨0⟩), publicKey, "RS256", .active, 1, none, expiresAt⟩

/-- A pod that has loaded no key yet. -/
def blankPod : Pod := ⟨some 7, none, .empty, true, none, KID.none⟩

def signerPod : Pod :=
  { blankPod with
    keys := ⟨some ⟨0⟩, signerKID, [(signerKID, ⟨0⟩)]⟩
    signingKey := some ⟨0⟩
    signingKID := signerKID }

/-- The table holds the row and nothing else. -/
def signerWorld (row : KeyRow) (pod : Pod) : KeyWorld :=
  ⟨⟨⟨[row], []⟩, []⟩, 100, 1, none, fun _ => pod⟩

/-- The pod's keystore refreshes. -/
def signerRefresh (row : KeyRow) (pod : Pod) : Except KeyStoreError Unit × KeyWorld :=
  (KeyStore.refresh ⟨0, 3600⟩).run (keyAnswer 0) (signerWorld row pod)

/-- The one row is active, the refresh succeeds, and leaves the pod like this. -/
def Refreshes (row : KeyRow) (before after : Pod) : Prop :=
  row.status = .active ∧ OneActive (signerWorld row before).table.rows ∧
    ∃ w', Runs 0 (KeyStore.refresh ⟨0, 3600⟩) (signerWorld row before) (.ok ()) w' ∧
      w'.pods 0 = after

variable {pod after : Pod}

theorem oneActive_signerWorld : OneActive (signerWorld row pod).table.rows := by
  intro r hr s hs _ _
  rw [mem_singleton.mp hr, mem_singleton.mp hs]

theorem refreshes_of_run (hactive : row.status = .active) (hok : (signerRefresh row pod).1 = .ok ())
    (hpod : (signerRefresh row pod).2.pods 0 = after) : Refreshes row pod after := by
  refine ⟨hactive, oneActive_signerWorld, (signerRefresh row pod).2, ?_, hpod⟩
  rw [← hok]
  exact exec_run _ _

def rsaRow : KeyRow := signerRow signerKID (.rsa ⟨0⟩) none

theorem refresh_outcome_installed :
    (signerRefresh rsaRow blankPod).1 = .ok () ∧
      ((signerRefresh rsaRow blankPod).2.pods 0).keys.activeKID = signerKID := by
  have hok : (signerRefresh rsaRow blankPod).1 = .ok () := rfl
  have hrun : Runs 0 (KeyStore.refresh ⟨0, 3600⟩) (signerWorld rsaRow blankPod)
      (signerRefresh rsaRow blankPod).1 (signerRefresh rsaRow blankPod).2 := exec_run _ _
  obtain ⟨⟨⟨e, he⟩, -⟩ | ⟨-, -, -, hactive⟩, -⟩ := refresh_outcome rfl oneActive_signerWorld hrun
  · rw [hok] at he
    cases he
  · exact ⟨hok, (hactive rsaRow (mem_singleton_self _) rfl nofun ⟨0⟩ rfl).1⟩

/-- **Active rows that are not installed.** The public key of one does not parse, and the loop skips
it; another has expired, and the query leaves it out: the refresh succeeds, and the pod has no
signer any more. A row whose kid is empty is loaded, but the kid has not changed, and the token
service is not told. -/
theorem active_row_skipped :
    Refreshes (signerRow signerKID (.garbage 0) none) signerPod blankPod ∧
      Refreshes (signerRow signerKID (.rsa ⟨0⟩) (some 50)) signerPod blankPod ∧
      Refreshes (signerRow KID.none (.rsa ⟨0⟩) none) blankPod
        { blankPod with keys := ⟨some ⟨0⟩, KID.none, [(KID.none, ⟨0⟩)]⟩ } :=
  ⟨refreshes_of_run rfl rfl rfl, refreshes_of_run rfl rfl rfl, refreshes_of_run rfl rfl rfl⟩

end Sample

end Vault42.Keystore
