import Vault42.Keystore.Table

/-!
# What the signing-key table keeps to

Whatever order the statements of the keystore are run in, and whichever of them belong to one
transaction, the triggers, checks and indexes keep the table *sound* (`KeyTable.Sound`): no two rows
are active, not even in the eyes of an unfinished transaction; a version of a row that waits for its
commit has the public key of the row it will replace, which is not revoked.

Between two states of the table, the later one *extends* the earlier (`KeyTable.Extends`): revoked
rows are still there, unchanged; a kid whose row is gone has a tombstone, and tombstones stay; the
public key under a kid is the one it was; and a kid that is new is a digest.

`Sound` and `Extends` are shown statement by statement: `retire_kept`, `importSigningKey_kept`,
`commit_kept`, `revoke_kept`, `reap_kept`.

That no kid in use has a tombstone (`KeyTable.Unburied`) every statement keeps but one. An upsert
keeps it only where its kid has no tombstone (`Unburied.importSigningKey`), which the guard has seen
to at an earlier moment.
-/

namespace Vault42.Keystore

open Framework List TxTable WriteSet

/-- No two of the rows are active. -/
def OneActive (rows : List KeyRow) : Prop :=
  ∀ r ∈ rows, ∀ s ∈ rows, r.status = .active → s.status = .active → r = s

instance (rows : List KeyRow) : Decidable (OneActive rows) :=
  inferInstanceAs
    (Decidable (∀ r ∈ rows, ∀ s ∈ rows, r.status = .active → s.status = .active → r = s))

theorem OneActive.subset {rows rows' : List KeyRow} (h : OneActive rows)
    (hsub : ∀ r ∈ rows', r.status = .active → r ∈ rows) : OneActive rows' :=
  fun r hr s hs hra hsa => h r (hsub r hr hra) s (hsub s hs hsa) hra hsa

/-- A row that may take the place of another: that one is not revoked, and the public key stays. -/
structure Succeeds (old new : KeyRow) : Prop where
  not_revoked : old.status ≠ .revoked
  publicKey : new.publicKey = old.publicKey

/-- A kid that is a digest is the digest of the row's public key. -/
def Filed (r : KeyRow) : Prop := ∀ der, r.kid = .digest der → r.publicKey = der

namespace KeyTable

/-- A row that is committed, or that an unfinished transaction has written. -/
def Version (K : KeyTable) (r : KeyRow) : Prop :=
  r ∈ K.rows ∨ ∃ t ws, (t, ws) ∈ K.keys.txns ∧ (r.kid, some r) ∈ ws

/-- The kid may be in use from now on: it is that of a row, or it is a digest. -/
def Rooted (K : KeyTable) (kid : KID) : Prop :=
  (∃ r ∈ K.rows, r.kid = kid) ∨ ∃ der, kid = .digest der

/-- **A sound table.** -/
structure Sound (K : KeyTable) : Prop where
  wf : K.keys.WF KeyRow.kid
  filed : ∀ r, K.Version r → Filed r
  rooted : ∀ r, K.Version r → K.Rooted r.kid
  /-- Transactions delete nothing. -/
  kept : ∀ {t ws k}, (t, ws) ∈ K.keys.txns → (k, none) ∉ ws
  rewrites : ∀ {t ws r r₀}, (t, ws) ∈ K.keys.txns → (r.kid, some r) ∈ ws → r₀ ∈ K.rows →
    r₀.kid = r.kid → Succeeds r₀ r
  single : OneActive K.rows
  singleIn : ∀ {t ws}, (t, ws) ∈ K.keys.txns → OneActive (TxTable.overlay KeyRow.kid K.rows ws)
  /-- Two transactions that have both written an active row are the same. -/
  claimed : ∀ {t ws u us r s}, (t, ws) ∈ K.keys.txns → (u, us) ∈ K.keys.txns →
    (r.kid, some r) ∈ ws → (s.kid, some s) ∈ us → r.status = .active → s.status = .active → t = u

variable {K : KeyTable} {t u : ℕ} {ws us new : WriteSet KID KeyRow} {r : KeyRow}

/-- What a thread sees is a version of the row. -/
theorem Sound.version_of_mem_overlay (h : K.Sound) (hmem : (t, ws) ∈ K.keys.txns)
    (hr : r ∈ overlay KeyRow.kid K.rows ws) : K.Version r := by
  rcases mem_overlay.mp hr with ⟨k, hw⟩ | ⟨hrow, -⟩
  · rw [← (h.wf.writes hmem).keyed hw] at hw
    exact .inr ⟨t, ws, hmem, hw⟩
  · exact .inl hrow

/-- A committed row has a version in the eyes of every transaction, and may be replaced by it,
unless it is the same. -/
theorem Sound.exists_mem_overlay (h : K.Sound) (hmem : (t, ws) ∈ K.keys.txns) {r₀ : KeyRow}
    (hr₀ : r₀ ∈ K.rows) : ∃ r ∈ overlay KeyRow.kid K.rows ws, r.kid = r₀.kid ∧
      (r = r₀ ∨ Succeeds r₀ r) := by
  by_cases htouch : ws.touches r₀.kid
  · obtain ⟨o, ho⟩ := touches_iff.mp htouch
    cases o with
    | none => exact absurd ho (h.kept hmem)
    | some r =>
      have hkid : r.kid = r₀.kid := (h.wf.writes hmem).keyed ho
      refine ⟨r, mem_overlay.mpr (.inl ⟨_, ho⟩), hkid, .inr ?_⟩
      exact h.rewrites hmem (hkid ▸ ho) hr₀ hkid.symm
  · exact ⟨r₀, mem_overlay.mpr (.inr ⟨hr₀, by simpa using htouch⟩), rfl, .inl rfl⟩

/-- **One table extends another**: nothing that is final was undone. -/
structure Extends (K K' : KeyTable) : Prop where
  revoked : ∀ r ∈ K.rows, r.status = .revoked → r ∈ K'.rows
  tombstones : ∀ s ∈ K.tombstones, s ∈ K'.tombstones
  gone : ∀ r ∈ K.rows, (∃ r' ∈ K'.rows, r'.kid = r.kid) ∨ ∃ s ∈ K'.tombstones, s.kid = r.kid
  publicKey : ∀ r ∈ K.rows, ∀ r' ∈ K'.rows, r'.kid = r.kid → r'.publicKey = r.publicKey
  rooted : ∀ r' ∈ K'.rows, K.Rooted r'.kid

theorem Sound.eq_of_kid (h : K.Sound) {s : KeyRow} (hr : r ∈ K.rows) (hs : s ∈ K.rows)
    (hkid : r.kid = s.kid) : r = s :=
  inj_on_of_nodup_map h.wf.keys hr hs hkid

theorem Sound.extends_of_rows_eq (h : K.Sound) {K' : KeyTable} (hrows : K'.rows = K.rows)
    (htombs : K'.tombstones = K.tombstones) : K.Extends K' where
  revoked r hr _ := hrows ▸ hr
  tombstones s hs := htombs ▸ hs
  gone r hr := .inl ⟨r, hrows ▸ hr, rfl⟩
  publicKey r hr r' hr' hkid := by
    rw [hrows] at hr'
    rw [h.eq_of_kid hr' hr hkid]
  rooted r' hr' := .inl ⟨r', hrows ▸ hr', rfl⟩

theorem Extends.trans {K₁ K₂ K₃ : KeyTable} (h : K₁.Extends K₂) (h' : K₂.Extends K₃)
    (hsound₁ : K₁.Sound) (hsound₃ : K₃.Sound) : K₁.Extends K₃ where
  revoked r hr hrev := h'.revoked r (h.revoked r hr hrev) hrev
  tombstones s hs := h'.tombstones s (h.tombstones s hs)
  gone r hr := by
    rcases h.gone r hr with ⟨r', hr', hkid⟩ | ⟨s, hs, hkid⟩
    · rw [← hkid]
      exact h'.gone r' hr'
    · exact .inr ⟨s, h'.tombstones s hs, hkid⟩
  publicKey r hr r'' hr'' hkid := by
    rcases h'.rooted r'' hr'' with ⟨r', hr', hkid'⟩ | ⟨der, hder⟩
    · calc r''.publicKey = r'.publicKey := h'.publicKey r' hr' r'' hr'' hkid'.symm
        _ = r.publicKey := h.publicKey r hr r' hr' (hkid'.trans hkid)
    · -- the kid was gone in between, and both keys have it for their digest
      calc r''.publicKey = der := hsound₃.filed r'' (.inl hr'') der hder
        _ = r.publicKey := (hsound₁.filed r (.inl hr) der (hkid.symm.trans hder)).symm
  rooted r'' hr'' := by
    rcases h'.rooted r'' hr'' with ⟨r', hr', hkid'⟩ | hdigest
    · rw [← hkid']
      exact h.rooted r' hr'
    · exact .inr hdigest

/-- A statement has kept the table sound and extended it. -/
def Kept (K K' : KeyTable) : Prop := K'.Sound ∧ K.Extends K'

theorem Sound.kept_self (h : K.Sound) : K.Kept K := ⟨h, h.extends_of_rows_eq rfl rfl⟩

/-! ### Beginning, giving up, writing -/

/-- A table whose transactions are ones that there were, or have written nothing. -/
theorem Sound.of_txns (h : K.Sound) {txns : List (ℕ × WriteSet KID KeyRow)}
    (hwf : TxTable.WF KeyRow.kid ⟨K.rows, txns⟩)
    (htxns : ∀ {u us}, (u, us) ∈ txns → us = [] ∨ (u, us) ∈ K.keys.txns) :
    Sound ⟨⟨K.rows, txns⟩, K.tombstones⟩ where
  wf := hwf
  filed r hr := by
    rcases hr with hrow | ⟨u, us, hmem, hw⟩
    · exact h.filed r (.inl hrow)
    · rcases htxns hmem with rfl | hold
      · cases hw
      · exact h.filed r (.inr ⟨u, us, hold, hw⟩)
  rooted r hr := by
    rcases hr with hrow | ⟨u, us, hmem, hw⟩
    · exact .inl ⟨r, hrow, rfl⟩
    · rcases htxns hmem with rfl | hold
      · cases hw
      · exact h.rooted r (.inr ⟨u, us, hold, hw⟩)
  kept hmem hw := by
    rcases htxns hmem with rfl | hold
    · cases hw
    · exact h.kept hold hw
  rewrites hmem hw hr₀ := by
    rcases htxns hmem with rfl | hold
    · cases hw
    · exact h.rewrites hold hw hr₀
  single := h.single
  singleIn hmem := by
    rcases htxns hmem with rfl | hold
    · rw [overlay_nil]
      exact h.single
    · exact h.singleIn hold
  claimed hmem hmem' hw hw' := by
    rcases htxns hmem with rfl | hold
    · cases hw
    · rcases htxns hmem' with rfl | hold'
      · cases hw'
      · exact h.claimed hold hold' hw hw'

theorem Sound.abort_kept (h : K.Sound) (t : ℕ) : K.Kept (K.abort t) :=
  ⟨h.of_txns (h.wf.rollback t) fun hmem => .inr (mem_filter.mp hmem).1,
    h.extends_of_rows_eq rfl rfl⟩

theorem Sound.begin_kept (h : K.Sound) (t : ℕ) : K.Kept { K with keys := K.keys.begin t } := by
  refine ⟨h.of_txns (h.wf.begin t) fun hmem => ?_, h.extends_of_rows_eq rfl rfl⟩
  -- the new transaction has written nothing
  rcases mem_cons.mp hmem with heq | hold
  · cases heq
    exact .inl rfl
  · exact .inr (mem_filter.mp hold).1

/-- **What a statement of a transaction may write**: rows, under keys that nobody else has touched,
that may take the place of the committed ones; and at most one that is active, if no other
transaction has written one. -/
structure Writable (K : KeyTable) (t : ℕ) (ws new : WriteSet KID KeyRow) : Prop where
  wf : new.WF KeyRow.kid
  free : ∀ k, new.touches k → K.keys.lockedFor t k = false
  row : ∀ {k o}, (k, o) ∈ new → ∃ r, o = some r ∧ Filed r ∧ K.Rooted r.kid ∧
    ∀ r₀ ∈ K.rows, r₀.kid = k → Succeeds r₀ r
  single : OneActive (TxTable.overlay KeyRow.kid K.rows (ws.add new))
  claimed : ∀ {k r}, (k, some r) ∈ new → r.status = .active → ∀ {u us k' s}, (u, us) ∈ K.keys.txns →
    u ≠ t → (k', some s) ∈ us → s.status ≠ .active

theorem Sound.write_kept (h : K.Sound) (hmem : (t, ws) ∈ K.keys.txns) (hnew : K.Writable t ws new) :
    K.Kept { K with keys := K.keys.write t new } := by
  -- the one transaction of the writer
  have cases_txns : ∀ {u us}, (u, us) ∈ (K.keys.write t new).txns →
      (u ≠ t ∧ (u, us) ∈ K.keys.txns) ∨ (u = t ∧ us = ws.add new) := by
    intro u us hu
    rcases mem_txns_write.mp hu with hold | ⟨rfl, us', hus', rfl⟩
    · exact .inl hold
    · rw [← h.wf.writesOf_of_mem hus', h.wf.writesOf_of_mem hmem]
      exact .inr ⟨rfl, rfl⟩
  have keyed : ∀ {k r}, (k, some r) ∈ new → r.kid = k := hnew.wf.keyed
  -- a version of a row is one that there was, or one that the statement has written
  have versions : ∀ {r}, KeyTable.Version { K with keys := K.keys.write t new } r →
      K.Version r ∨ (r.kid, some r) ∈ new := by
    rintro r (hrow | ⟨u, us, hu, hw⟩)
    · exact .inl (.inl hrow)
    · rcases cases_txns hu with ⟨-, hold⟩ | ⟨rfl, rfl⟩
      · exact .inl (.inr ⟨u, us, hold, hw⟩)
      · rcases mem_add.mp hw with hw | ⟨hw, -⟩
        · exact .inr hw
        · exact .inl (.inr ⟨u, ws, hmem, hw⟩)
  refine ⟨⟨h.wf.write hnew.wf hnew.free, ?_, ?_, ?_, ?_, h.single, ?_, ?_⟩,
    h.extends_of_rows_eq rfl rfl⟩
  · intro r hr
    rcases versions hr with hold | hw
    · exact h.filed r hold
    · obtain ⟨r', heq, hfiled, -⟩ := hnew.row hw
      cases heq
      exact hfiled
  · intro r hr
    rcases versions hr with hold | hw
    · exact h.rooted r hold
    · obtain ⟨r', heq, -, hrooted, -⟩ := hnew.row hw
      cases heq
      exact hrooted
  · intro u us k hu hw
    rcases cases_txns hu with ⟨-, hold⟩ | ⟨rfl, rfl⟩
    · exact h.kept hold hw
    · rcases mem_add.mp hw with hw | ⟨hw, -⟩
      · obtain ⟨r, heq, -⟩ := hnew.row hw
        cases heq
      · exact h.kept hmem hw
  · intro u us r r₀ hu hw hr₀ hkid
    rcases cases_txns hu with ⟨-, hold⟩ | ⟨rfl, rfl⟩
    · exact h.rewrites hold hw hr₀ hkid
    · rcases mem_add.mp hw with hw | ⟨hw, -⟩
      · obtain ⟨r', heq, -, -, hover⟩ := hnew.row hw
        cases heq
        exact hover r₀ hr₀ hkid
      · exact h.rewrites hmem hw hr₀ hkid
  · intro u us hu
    rcases cases_txns hu with ⟨-, hold⟩ | ⟨rfl, rfl⟩
    · exact h.singleIn hold
    · exact hnew.single
  · intro u us v vs r s hu hv hw hw' hra hsa
    rcases cases_txns hu with ⟨hne, hu₀⟩ | ⟨rfl, rfl⟩ <;>
      rcases cases_txns hv with ⟨hne', hv₀⟩ | ⟨rfl, rfl⟩
    · exact h.claimed hu₀ hv₀ hw hw' hra hsa
    · rcases mem_add.mp hw' with hw' | ⟨hw', -⟩
      · exact absurd hra (hnew.claimed hw' hsa hu₀ hne hw)
      · exact h.claimed hu₀ hmem hw hw' hra hsa
    · rcases mem_add.mp hw with hw | ⟨hw, -⟩
      · exact absurd hsa (hnew.claimed hw hra hv₀ hne' hw')
      · exact h.claimed hmem hv₀ hw hw' hra hsa
    · rfl

/-! ### The statements of an import -/

theorem Sound.nodup_view (h : K.Sound) (t : ℕ) : ((K.view t).map KeyRow.kid).Nodup :=
  nodup_overlay h.wf.keys (h.wf.writesOf_wf t)

/-- The version of a committed row that a transaction sees may take its place, unless it is the row
itself. -/
theorem Sound.succeeds_of_mem_view (h : K.Sound) (hopen : K.keys.opened t) {r₀ : KeyRow}
    (hr : r ∈ K.view t) (hr₀ : r₀ ∈ K.rows) (hkid : r₀.kid = r.kid) : r = r₀ ∨ Succeeds r₀ r := by
  obtain ⟨r', hr', hkid', hsucc⟩ := h.exists_mem_overlay (mem_txns_of_opened hopen) hr₀
  obtain rfl : r' = r := inj_on_of_nodup_map (h.nodup_view t) hr' hr (hkid'.trans hkid)
  exact hsucc

theorem Sound.version_of_mem_view (h : K.Sound) (hopen : K.keys.opened t) (hr : r ∈ K.view t) :
    K.Version r :=
  h.version_of_mem_overlay (mem_txns_of_opened hopen) hr

/-- What the retiring update writes comes from the rows it has found. -/
theorem mem_retired {kids : List KID} {now expiresAt : Time} {k : KID} {o : Option KeyRow}
    (hmem : (k, o) ∈ (((K.view t).filter fun r => kids.contains r.kid &&
      r.status = .active).map fun r => (r.kid, some (retired now expiresAt r)))) :
    ∃ r ∈ K.view t, r.kid = k ∧ r.kid ∈ kids ∧ r.status = .active ∧
      o = some (retired now expiresAt r) := by
  obtain ⟨r, hr, heq⟩ := mem_map.mp hmem
  cases heq
  rw [mem_filter, Bool.and_eq_true, contains_iff_mem, decide_eq_true_eq] at hr
  exact ⟨r, hr.1, rfl, hr.2.1, hr.2.2, rfl⟩

/-- **Retiring.** The rows it writes are not active any more. -/
theorem Sound.retire_kept (h : K.Sound) {kids : List KID} (now expiresAt : Time)
    (hfree : kids.any (K.keys.lockedFor t) = false) :
    K.Kept (K.retire t kids now expiresAt).2 := by
  unfold KeyTable.retire
  split
  swap
  · exact h.kept_self
  rename_i hopen
  dsimp only
  split
  · exact h.abort_kept t
  refine h.write_kept (mem_txns_of_opened hopen) ?_
  refine ⟨⟨?_, ?_⟩, ?_, ?_, ?_, ?_⟩
  · rw [map_map]
    exact (filter_sublist.map KeyRow.kid).nodup (h.nodup_view t)
  · intro k r hmem
    obtain ⟨s, -, hkid, -, -, heq⟩ := mem_retired hmem
    cases heq
    exact hkid
  · intro k htouch
    obtain ⟨o, hmem⟩ := touches_iff.mp htouch
    obtain ⟨s, -, rfl, hin, -⟩ := mem_retired hmem
    simpa using any_eq_false.mp hfree s.kid hin
  · intro k o hmem
    obtain ⟨r, hr, rfl, -, hactive, rfl⟩ := mem_retired hmem
    have hversion := h.version_of_mem_view hopen hr
    refine ⟨retired now expiresAt r, rfl, h.filed r hversion, h.rooted r hversion,
      fun r₀ hr₀ hkid => ?_⟩
    rcases h.succeeds_of_mem_view hopen hr hr₀ hkid with rfl | hsucc
    · exact ⟨by rw [hactive]; decide, rfl⟩
    · exact ⟨hsucc.not_revoked, hsucc.publicKey⟩
  · refine (h.singleIn (mem_txns_of_opened hopen)).subset fun r hr hactive => ?_
    rcases (mem_overlay_add (h.wf.writesOf_wf t)).mp hr with ⟨k, hmem⟩ | ⟨hr, -⟩
    · obtain ⟨s, -, -, -, -, heq⟩ := mem_retired hmem
      cases heq
      cases hactive
    · exact hr
  · intro k r hmem hactive
    obtain ⟨s, -, -, -, -, heq⟩ := mem_retired hmem
    cases heq
    cases hactive

/-- What the upsert writes is an active row under the digest of its public key; and the row that had
the kid was not revoked. -/
theorem imported_eq_ok {args : Importable} {row : KeyRow} (h : K.imported t args = .ok (some row)) :
    row.kid = args.kid ∧ row.publicKey = args.publicKey ∧ row.status = .active ∧
      ∀ old ∈ K.view t, old.kid = args.kid → ((K.view t).map KeyRow.kid).Nodup →
        old.status ≠ .revoked := by
  unfold imported at h
  split at h
  next hfind =>
    dsimp only at h
    split at h
    · cases h
    cases h
    refine ⟨rfl, rfl, rfl, fun old hold hkid => ?_⟩
    have hnone := find?_eq_none.mp hfind old hold
    simp [hkid] at hnone
  next old hfind =>
    split at h
    · cases h
    rename_i hrevoked
    dsimp only at h
    split at h
    · cases h
    cases h
    have hkid : old.kid = args.kid := by simpa using find?_some hfind
    refine ⟨hkid, rfl, rfl, fun old' hold' hkid' hnodup => ?_⟩
    obtain rfl : old' = old :=
      inj_on_of_nodup_map hnodup hold' (mem_of_find?_eq_some hfind) (hkid'.trans hkid.symm)
    exact hrevoked

theorem Sound.guardInsert_kept (h : K.Sound) (t : ℕ) (args : ImportArgs) :
    K.Kept (K.guardInsert t args).2 := by
  unfold guardInsert
  split
  · split
    · split
      · exact h.kept_self
      · exact h.abort_kept t
    · exact h.abort_kept t
  · exact h.kept_self

/-- **Importing.** The row it writes is the only active one, here and in every other transaction. -/
theorem Sound.importSigningKey_kept (h : K.Sound) {args : Importable}
    (hfree : K.importBlocked t args = false) : K.Kept (K.importSigningKey t args).2 := by
  unfold importSigningKey
  split
  swap
  · exact h.kept_self
  rename_i hopen
  split
  · exact h.abort_kept t
  · exact h.kept_self
  next row himported =>
    split
    · exact h.abort_kept t
    rename_i hsecond
    obtain ⟨hrowkid, hpublic, hactive, hrevoked⟩ := imported_eq_ok himported
    have hdigest : args.kid = .digest row.publicKey := by rw [hpublic]; exact args.digest
    rw [importBlocked, himported, Bool.or_eq_false_iff] at hfree
    obtain ⟨hlock, hdoubt⟩ := hfree
    have hsecond : ∀ r ∈ K.view t, r.kid ≠ args.kid → r.status ≠ .active := by simpa using hsecond
    have written : ∀ {k o}, (k, o) ∈ ([(args.kid, some row)] : WriteSet KID KeyRow) →
        k = args.kid ∧ o = some row := fun hmem => Prod.mk.inj (mem_singleton.mp hmem)
    refine h.write_kept (mem_txns_of_opened hopen) ⟨⟨by simp, ?_⟩, ?_, ?_, ?_, ?_⟩
    · intro k r hmem
      obtain ⟨rfl, heq⟩ := written hmem
      cases heq
      exact hrowkid
    · intro k htouch
      obtain ⟨o, hmem⟩ := touches_iff.mp htouch
      obtain ⟨rfl, -⟩ := written hmem
      exact hlock
    · intro k o hmem
      obtain ⟨rfl, rfl⟩ := written hmem
      refine ⟨row, rfl, fun der hder => ?_, .inr ⟨_, hrowkid.trans hdigest⟩, fun r₀ hr₀ hkid => ?_⟩
      · rw [hrowkid, hdigest] at hder
        exact KID.digest.inj hder
      · -- the version that was replaced had the same digest, and so the same public key
        obtain ⟨old, hold, hkid', hsucc⟩ :=
          h.exists_mem_overlay (mem_txns_of_opened hopen) hr₀
        have holdkid : old.kid = args.kid := hkid'.trans hkid
        have hpub : old.publicKey = row.publicKey :=
          h.filed old (h.version_of_mem_view hopen hold) _ (holdkid.trans hdigest)
        have hlive := hrevoked old hold holdkid (h.nodup_view t)
        rcases hsucc with rfl | hsucc
        · exact ⟨hlive, hpub.symm⟩
        · exact ⟨hsucc.not_revoked, hpub.symm.trans hsucc.publicKey⟩
    · -- in the eyes of the writer, only the new row is active
      have only : ∀ r ∈ overlay KeyRow.kid K.rows ((K.keys.writesOf t).add [(args.kid, some row)]),
          r.status = .active → r = row := by
        intro r hr hra
        rcases (mem_overlay_add (h.wf.writesOf_wf t)).mp hr with ⟨k, hmem⟩ | ⟨hr, huntouched⟩
        · obtain ⟨-, heq⟩ := written hmem
          exact Option.some.inj heq
        · refine absurd hra (hsecond r hr ?_)
          intro heq
          simp [touches, heq] at huntouched
      intro r hr s hs hra hsa
      rw [only r hr hra, only s hs hsa]
    · intro k r _ _ u us k' s hu hne hw hsa
      rw [activeInDoubt, Bool.or_eq_false_iff] at hdoubt
      have hnone := any_eq_false.mp hdoubt.1 (u, us) hu
      simp only [Bool.and_eq_true, bne_iff_ne, ne_eq, hne, not_false_eq_true, true_and,
        Bool.not_eq_true, any_eq_false] at hnone
      simpa [hsa] using hnone _ hw

/-! ### Committing -/

theorem Sound.not_touches_of_ne (h : K.Sound) (ht : (t, ws) ∈ K.keys.txns)
    (hu : (u, us) ∈ K.keys.txns) (hne : u ≠ t) {k : KID} (htouch : us.touches k) :
    ws.touches k = false := by
  by_contra hws
  exact hne (h.wf.exclusive hu ht htouch (by simpa using hws))

/-- In the eyes of another transaction, too, a commit leaves at most one active row. -/
theorem Sound.oneActive_commit (h : K.Sound) (ht : (t, ws) ∈ K.keys.txns)
    (hu : (u, us) ∈ K.keys.txns) (hne : u ≠ t) :
    OneActive (overlay KeyRow.kid (overlay KeyRow.kid K.rows ws) us) := by
  -- an active row that the other one has written, beside one that it sees through
  have mixed : ∀ {r s k}, (k, some r) ∈ us → r.status = .active →
      s ∈ overlay KeyRow.kid K.rows ws → us.touches s.kid = false → s.status = .active →
      r = s := by
    intro r s k hr hra hs huntouched hsa
    rcases mem_overlay.mp hs with ⟨k', hs⟩ | ⟨hs, -⟩
    · rw [← (h.wf.writes hu).keyed hr] at hr
      rw [← (h.wf.writes ht).keyed hs] at hs
      exact absurd (h.claimed hu ht hr hs hra hsa) hne
    · exact h.singleIn hu r (mem_overlay.mpr (.inl ⟨k, hr⟩)) s
        (mem_overlay.mpr (.inr ⟨hs, huntouched⟩)) hra hsa
  intro r hr s hs hra hsa
  rcases mem_overlay.mp hr with ⟨k, hr⟩ | ⟨hr, huntouched⟩ <;>
    rcases mem_overlay.mp hs with ⟨k', hs⟩ | ⟨hs, huntouched'⟩
  · exact h.singleIn hu r (mem_overlay.mpr (.inl ⟨k, hr⟩)) s
      (mem_overlay.mpr (.inl ⟨k', hs⟩)) hra hsa
  · exact mixed hr hra hs huntouched' hsa
  · exact (mixed hs hsa hr huntouched hra).symm
  · exact h.singleIn ht r hr s hs hra hsa

theorem Sound.version_of_commit (h : K.Sound) (hopen : K.keys.opened t)
    (hr : KeyTable.Version { K with keys := K.keys.commit KeyRow.kid t } r) : K.Version r := by
  rcases hr with hrow | ⟨u, us, hu, hw⟩
  · exact h.version_of_mem_view hopen hrow
  · exact .inr ⟨u, us, (mem_filter.mp hu).1, hw⟩

/-- **Committing.** -/
theorem Sound.commit_kept (h : K.Sound) (t : ℕ) : K.Kept (K.commit t).2 := by
  unfold KeyTable.commit
  split
  swap
  · exact h.kept_self
  rename_i hopen
  have ht := mem_txns_of_opened hopen
  have other : ∀ {u us}, (u, us) ∈ (K.keys.commit KeyRow.kid t).txns →
      (u, us) ∈ K.keys.txns ∧ u ≠ t := by
    intro u us hu
    exact ⟨(mem_filter.mp hu).1, bne_iff_ne.mp (mem_filter.mp hu).2⟩
  refine ⟨⟨h.wf.commit t, fun r hr => h.filed r (h.version_of_commit hopen hr), ?_,
    fun hu => h.kept (other hu).1, ?_, h.singleIn ht, ?_,
    fun hu hv => h.claimed (other hu).1 (other hv).1⟩, ⟨?_, fun s hs => hs, ?_, ?_, ?_⟩⟩
  · intro r hr
    -- a row that a kid was rooted in is still there, or has been replaced
    rcases h.rooted r (h.version_of_commit hopen hr) with ⟨r₀, hr₀, hkid₀⟩ | hdigest
    · obtain ⟨r', hr', hkid', -⟩ := h.exists_mem_overlay ht hr₀
      exact .inl ⟨r', hr', hkid'.trans hkid₀⟩
    · exact .inr hdigest
  · intro u us r r₀ hu hw hr₀ hkid
    obtain ⟨hu, hne⟩ := other hu
    have htouch : us.touches r.kid := touches_iff.mpr ⟨_, hw⟩
    rw [← hkid] at htouch
    exact h.rewrites hu hw ((mem_overlay_of_not_touches (h.wf.writes ht)
      (h.not_touches_of_ne ht hu hne htouch)).mp hr₀) hkid
  · intro u us hu
    exact h.oneActive_commit ht (other hu).1 (other hu).2
  · intro r hr hrevoked
    obtain ⟨r', hr', hkid, heq | hsucc⟩ := h.exists_mem_overlay ht hr
    · exact heq ▸ hr'
    · exact absurd hrevoked hsucc.not_revoked
  · intro r hr
    obtain ⟨r', hr', hkid, -⟩ := h.exists_mem_overlay ht hr
    exact .inl ⟨r', hr', hkid⟩
  · intro r hr r' hr' hkid
    rcases h.succeeds_of_mem_view hopen hr' hr hkid.symm with rfl | hsucc
    · rfl
    · exact hsucc.publicKey
  · exact fun r' hr' => h.rooted r' (h.version_of_mem_overlay ht hr')

/-! ### Statements of their own -/

variable {kid : KID}

/-- **What a statement outside of a transaction may write**: rows that are not active, under keys
that no transaction has touched, in the place of rows they may replace; and it may delete rows that
are not revoked, each of which gets a tombstone. -/
structure Direct (K : KeyTable) (tombstones : List Tombstone) (new : WriteSet KID KeyRow) :
    Prop where
  wf : new.WF KeyRow.kid
  free : ∀ {k u us}, new.touches k → (u, us) ∈ K.keys.txns → us.touches k = false
  row : ∀ {k r'}, (k, some r') ∈ new → r'.status ≠ .active ∧ ∃ r ∈ K.rows, r.kid = k ∧ Succeeds r r'
  deleted : ∀ {k}, (k, none) ∈ new →
    (∃ s ∈ tombstones, s.kid = k) ∧ ∃ r ∈ K.rows, r.kid = k ∧ r.status ≠ .revoked
  stay : ∀ s ∈ K.tombstones, s ∈ tombstones
  buried : ∀ s ∈ tombstones, s ∈ K.tombstones ∨ (s.kid, none) ∈ new

theorem Sound.direct_kept (h : K.Sound) {tombstones : List Tombstone}
    (hd : K.Direct tombstones new) :
    K.Kept { keys := K.keys.apply KeyRow.kid new, tombstones } := by
  have untouched : ∀ {u us r}, (u, us) ∈ K.keys.txns → us.touches r → new.touches r = false := by
    intro u us k hu htouch
    by_contra hnew
    rw [hd.free (by simpa using hnew) hu] at htouch
    cases htouch
  -- an active row was there before
  have old : ∀ {r}, r ∈ overlay KeyRow.kid K.rows new → r.status = .active → r ∈ K.rows := by
    intro r hr hactive
    rcases mem_overlay.mp hr with ⟨k, hw⟩ | ⟨hr, -⟩
    · exact absurd hactive (hd.row hw).1
    · exact hr
  -- a row that was left alone still has its root
  have rooted : ∀ {r}, K.Version r → new.touches r.kid = false →
      KeyTable.Rooted { keys := K.keys.apply KeyRow.kid new, tombstones } r.kid := by
    intro r hr huntouched
    rcases h.rooted r hr with ⟨r₀, hr₀, hkid⟩ | hdigest
    · exact .inl ⟨r₀, mem_overlay.mpr (.inr ⟨hr₀, by rw [hkid]; exact huntouched⟩), hkid⟩
    · exact .inr hdigest
  refine ⟨⟨h.wf.apply hd.wf, ?_, ?_, h.kept, ?_, ?_, ?_, h.claimed⟩, ⟨?_, hd.stay, ?_, ?_, ?_⟩⟩
  · rintro r (hrow | ⟨u, us, hu, hw⟩)
    · rcases mem_overlay.mp hrow with ⟨k, hw⟩ | ⟨hr, -⟩
      · obtain ⟨-, r₀, hr₀, hkid, hsucc⟩ := hd.row hw
        intro der hder
        rw [hsucc.publicKey]
        exact h.filed r₀ (.inl hr₀) der (by rw [hkid, ← hd.wf.keyed hw, hder])
      · exact h.filed r (.inl hr)
    · exact h.filed r (.inr ⟨u, us, hu, hw⟩)
  · rintro r (hrow | ⟨u, us, hu, hw⟩)
    · exact .inl ⟨r, hrow, rfl⟩
    · exact rooted (.inr ⟨u, us, hu, hw⟩) (untouched hu (touches_iff.mpr ⟨_, hw⟩))
  · intro u us r r₀ hu hw hr₀ hkid
    have htouch := untouched hu (touches_iff.mpr ⟨_, hw⟩)
    rw [← hkid] at htouch
    exact h.rewrites hu hw ((mem_overlay_of_not_touches hd.wf htouch).mp hr₀) hkid
  · exact h.single.subset fun _ => old
  · intro u us hu
    refine (h.singleIn hu).subset fun r hr hactive => ?_
    rcases mem_overlay.mp hr with ⟨k, hw⟩ | ⟨hr, huntouched⟩
    · exact mem_overlay.mpr (.inl ⟨k, hw⟩)
    · exact mem_overlay.mpr (.inr ⟨old hr hactive, huntouched⟩)
  · intro r hr hrevoked
    refine (mem_overlay_of_not_touches hd.wf ?_).mpr hr
    by_contra htouch
    obtain ⟨o, hw⟩ := touches_iff.mp (by simpa using htouch)
    cases o with
    | none =>
      obtain ⟨-, r₀, hr₀, hkid, hlive⟩ := hd.deleted hw
      exact hlive (h.eq_of_kid hr₀ hr hkid ▸ hrevoked)
    | some =>
      obtain ⟨-, r₀, hr₀, hkid, hsucc⟩ := hd.row hw
      exact hsucc.not_revoked (h.eq_of_kid hr₀ hr hkid ▸ hrevoked)
  · intro r hr
    by_cases htouch : new.touches r.kid
    · obtain ⟨o, hw⟩ := touches_iff.mp htouch
      cases o with
      | none => exact .inr (hd.deleted hw).1
      | some r' => exact .inl ⟨r', mem_overlay.mpr (.inl ⟨_, hw⟩), hd.wf.keyed hw⟩
    · exact .inl ⟨r, mem_overlay.mpr (.inr ⟨hr, by simpa using htouch⟩), rfl⟩
  · intro r hr r' hr' hkid
    rcases mem_overlay.mp hr' with ⟨k, hw⟩ | ⟨hr', -⟩
    · obtain ⟨-, r₀, hr₀, hkid₀, hsucc⟩ := hd.row hw
      rw [hsucc.publicKey, h.eq_of_kid hr₀ hr (by rw [hkid₀, ← hd.wf.keyed hw, hkid])]
    · rw [h.eq_of_kid hr' hr hkid]
  · intro r' hr'
    rcases mem_overlay.mp hr' with ⟨k, hw⟩ | ⟨hr', -⟩
    · obtain ⟨-, r₀, hr₀, hkid₀, -⟩ := hd.row hw
      exact .inl ⟨r₀, hr₀, by rw [hkid₀, ← hd.wf.keyed hw]⟩
    · exact .inl ⟨r', hr', rfl⟩

theorem not_touches_of_unlocked (h : K.locked kid = false) (hu : (u, us) ∈ K.keys.txns) :
    us.touches kid = false := by
  simpa using any_eq_false.mp h (u, us) hu

/-- What the revoking update writes: a row that was not revoked is. -/
theorem revoke_direct (now : Time) (hfree : K.locked r.kid = false) (hr : r ∈ K.rows)
    (hlive : r.status ≠ .revoked) : K.Direct K.tombstones [(r.kid, some (revoked now r))] := by
  have written : ∀ {k o}, (k, o) ∈ ([(r.kid, some (revoked now r))] : WriteSet KID KeyRow) →
      k = r.kid ∧ o = some (revoked now r) := fun hmem => Prod.mk.inj (mem_singleton.mp hmem)
  refine ⟨⟨by simp, ?_⟩, ?_, ?_, ?_, fun s hs => hs, fun _ => .inl⟩
  · intro k r' hmem
    obtain ⟨rfl, heq⟩ := written hmem
    cases heq
    rfl
  · intro k u us htouch hu
    obtain ⟨o, hmem⟩ := touches_iff.mp htouch
    obtain ⟨rfl, -⟩ := written hmem
    exact not_touches_of_unlocked hfree hu
  · intro k r' hmem
    obtain ⟨rfl, heq⟩ := written hmem
    cases heq
    exact ⟨by simp [revoked], r, hr, rfl, ⟨hlive, rfl⟩⟩
  · intro k hmem
    cases (written hmem).2

/-- The revoking update leaves the table alone, or writes one row. -/
theorem revoke_cases (now : Time) (hfree : K.locked kid = false) :
    (K.revoke kid now).2 = K ∨ ∃ new, K.Direct K.tombstones new ∧
      (K.revoke kid now).2 = { K with keys := K.keys.apply KeyRow.kid new } := by
  unfold KeyTable.revoke
  split
  · exact .inl rfl
  next r hfind =>
    split
    · exact .inl rfl
    have hfound := find?_some hfind
    simp only [Bool.and_eq_true, decide_eq_true_eq] at hfound
    obtain ⟨rfl, hlive⟩ := hfound
    exact .inr ⟨_, revoke_direct now hfree (mem_of_find?_eq_some hfind) hlive, rfl⟩

/-- **Revoking.** -/
theorem Sound.revoke_kept (h : K.Sound) (now : Time) (hfree : K.locked kid = false) :
    K.Kept (K.revoke kid now).2 := by
  rcases revoke_cases now hfree with heq | ⟨new, hd, heq⟩ <;> rw [heq]
  · exact h.kept_self
  · exact h.direct_kept hd

/-- The tombstones after a delete: the ones there were, and one for each row. -/
theorem mem_foldl_bury (now : Time) (found : List KeyRow) (tombstones : List Tombstone) :
    (∀ s ∈ tombstones, s ∈ found.foldl (fun ts => bury ts now) tombstones) ∧
      (∀ r ∈ found, ∃ s ∈ found.foldl (fun ts => bury ts now) tombstones, s.kid = r.kid) ∧
      ∀ s ∈ found.foldl (fun ts => bury ts now) tombstones,
        s ∈ tombstones ∨ ∃ r ∈ found, r.kid = s.kid := by
  induction found generalizing tombstones with
  | nil => exact ⟨fun s hs => hs, fun r hr => absurd hr not_mem_nil, fun _ => .inl⟩
  | cons r found ih =>
    obtain ⟨hstay, hnew, hfrom⟩ := ih (bury tombstones now r)
    -- one row
    have hone : (∀ s ∈ tombstones, s ∈ bury tombstones now r) ∧
        (∃ s ∈ bury tombstones now r, s.kid = r.kid) ∧
        ∀ s ∈ bury tombstones now r, s ∈ tombstones ∨ r.kid = s.kid := by
      unfold bury
      split
      next hany =>
        obtain ⟨s, hs, hkid⟩ := any_eq_true.mp hany
        exact ⟨fun s hs => hs, ⟨s, hs, by simpa using hkid⟩, fun _ => .inl⟩
      next =>
        refine ⟨fun _ => mem_cons_of_mem _, ⟨_, mem_cons_self .., rfl⟩, ?_⟩
        intro s hs
        rcases mem_cons.mp hs with rfl | hs
        · exact .inr rfl
        · exact .inl hs
    rw [foldl_cons]
    refine ⟨fun s hs => hstay s (hone.1 s hs), fun r' hr' => ?_, fun s hs => ?_⟩
    · rcases mem_cons.mp hr' with rfl | hr'
      · obtain ⟨s, hs, hkid⟩ := hone.2.1
        exact ⟨s, hstay s hs, hkid⟩
      · exact hnew r' hr'
    · rcases hfrom s hs with hs | ⟨r', hr', hkid⟩
      · rcases hone.2.2 s hs with hs | hkid
        · exact .inl hs
        · exact .inr ⟨r, mem_cons_self .., hkid⟩
      · exact .inr ⟨r', mem_cons_of_mem _ hr', hkid⟩

theorem mem_reaped {kids : List KID} {now : Time} (hr : r ∈ K.reaped kids now) :
    r ∈ K.rows ∧ r.kid ∈ kids ∧ r.status = .retired := by
  rw [reaped, mem_filter, Bool.and_eq_true, contains_iff_mem, expired, Bool.and_eq_true,
    decide_eq_true_eq] at hr
  exact ⟨hr.1, hr.2.1, hr.2.2.1⟩

/-- What the reaping delete writes: each row it removes is gone, and has a tombstone. -/
theorem Sound.reap_direct (h : K.Sound) {kids : List KID} (now : Time)
    (hfree : kids.any K.locked = false) :
    K.Direct ((K.reaped kids now).foldl (fun ts r => bury ts now r) K.tombstones)
      ((K.reaped kids now).map fun r => (r.kid, none)) := by
  have written : ∀ {k o},
      (k, o) ∈ ((K.reaped kids now).map fun r => (r.kid, (none : Option KeyRow))) →
      ∃ r ∈ K.reaped kids now, r.kid = k ∧ o = none := by
    intro k o hmem
    obtain ⟨r, hr, heq⟩ := mem_map.mp hmem
    cases heq
    exact ⟨r, hr, rfl, rfl⟩
  obtain ⟨hstay, hnew, hfrom⟩ := mem_foldl_bury now (K.reaped kids now) K.tombstones
  refine ⟨⟨?_, ?_⟩, ?_, ?_, ?_, hstay, ?_⟩
  · rw [map_map]
    exact (filter_sublist.map KeyRow.kid).nodup h.wf.keys
  · intro k r hmem
    obtain ⟨-, -, -, heq⟩ := written hmem
    cases heq
  · intro k u us htouch hu
    obtain ⟨o, hmem⟩ := touches_iff.mp htouch
    obtain ⟨r, hr, rfl, -⟩ := written hmem
    have hunlocked : K.locked r.kid = false := by
      simpa using any_eq_false.mp hfree r.kid (mem_reaped hr).2.1
    exact not_touches_of_unlocked hunlocked hu
  · intro k r' hmem
    obtain ⟨-, -, -, heq⟩ := written hmem
    cases heq
  · intro k hmem
    obtain ⟨r, hr, rfl, -⟩ := written hmem
    refine ⟨hnew r hr, r, (mem_reaped hr).1, rfl, ?_⟩
    rw [(mem_reaped hr).2.2]
    decide
  · intro s hs
    rcases hfrom s hs with hs | ⟨r, hr, hkid⟩
    · exact .inl hs
    · exact .inr (mem_map.mpr ⟨r, hr, by rw [hkid]⟩)

/-- **Reaping.** -/
theorem Sound.reap_kept (h : K.Sound) {kids : List KID} (now : Time)
    (hfree : kids.any K.locked = false) : K.Kept (K.reap kids now).2 := by
  unfold KeyTable.reap
  split
  · exact h.kept_self
  · exact h.direct_kept (h.reap_direct now hfree)

/-! ### Tombstones -/

/-- No kid in use has a tombstone. -/
def Unburied (K : KeyTable) : Prop := ∀ r, K.Version r → K.Clear r.kid

/-- A table with the same tombstones, in which every kid was in use before or has none. -/
theorem Unburied.of_versions (h : K.Unburied) {K' : KeyTable}
    (htombs : K'.tombstones = K.tombstones)
    (hversions : ∀ r, K'.Version r → (∃ r₀, K.Version r₀ ∧ r₀.kid = r.kid) ∨ K.Clear r.kid) :
    K'.Unburied := by
  intro r hr s hs
  rw [htombs] at hs
  rcases hversions r hr with ⟨r₀, hr₀, hkid⟩ | hclear
  · rw [← hkid]
    exact h r₀ hr₀ s hs
  · exact hclear s hs

theorem Unburied.abort (h : K.Unburied) (t : ℕ) : (K.abort t).Unburied := by
  refine h.of_versions rfl fun r hr => .inl ⟨r, ?_, rfl⟩
  rcases hr with hrow | ⟨u, us, hu, hw⟩
  · exact .inl hrow
  · exact .inr ⟨u, us, (mem_filter.mp hu).1, hw⟩

theorem Unburied.begin (h : K.Unburied) (t : ℕ) :
    KeyTable.Unburied { K with keys := K.keys.begin t } := by
  refine h.of_versions rfl fun r hr => .inl ⟨r, ?_, rfl⟩
  rcases hr with hrow | ⟨u, us, hu, hw⟩
  · exact .inl hrow
  · rcases mem_cons.mp hu with heq | hold
    · cases heq
      cases hw
    · exact .inr ⟨u, us, (mem_filter.mp hold).1, hw⟩

/-- A statement of a transaction that writes under kids in use, or kids that have no tombstone. -/
theorem Unburied.write (h : K.Unburied)
    (hnew : ∀ {r}, (r.kid, some r) ∈ new → (∃ r₀, K.Version r₀ ∧ r₀.kid = r.kid) ∨ K.Clear r.kid) :
    KeyTable.Unburied { K with keys := K.keys.write t new } := by
  refine h.of_versions rfl fun r hr => ?_
  rcases hr with hrow | ⟨u, us, hu, hw⟩
  · exact .inl ⟨r, .inl hrow, rfl⟩
  · rcases mem_txns_write.mp hu with ⟨-, hold⟩ | ⟨rfl, ws, hmem, rfl⟩
    · exact .inl ⟨r, .inr ⟨u, us, hold, hw⟩, rfl⟩
    · rcases mem_add.mp hw with hw | ⟨hw, -⟩
      · exact hnew hw
      · exact .inl ⟨r, .inr ⟨u, ws, hmem, hw⟩, rfl⟩

theorem Unburied.retire (h : K.Unburied) (hsound : K.Sound) (kids : List KID)
    (now expiresAt : Time) : (K.retire t kids now expiresAt).2.Unburied := by
  unfold KeyTable.retire
  split
  swap
  · exact h
  rename_i hopen
  dsimp only
  split
  · exact h.abort t
  · refine h.write fun hmem => .inl ?_
    obtain ⟨r, hr, hkid, -⟩ := mem_retired hmem
    exact ⟨r, hsound.version_of_mem_view hopen hr, hkid⟩

theorem Unburied.guardInsert (h : K.Unburied) (t : ℕ) (args : ImportArgs) :
    (K.guardInsert t args).2.Unburied := by
  unfold KeyTable.guardInsert
  split
  · split
    · split
      · exact h
      · exact h.abort t
    · exact h.abort t
  · exact h

/-- An upsert of a kid that has no tombstone. -/
theorem Unburied.importSigningKey (h : K.Unburied) {args : Importable} (hclear : K.Clear args.kid) :
    (K.importSigningKey t args).2.Unburied := by
  unfold KeyTable.importSigningKey
  split
  swap
  · exact h
  split
  · exact h.abort t
  · exact h
  split
  · exact h.abort t
  · refine h.write fun hmem => .inr ?_
    rw [(Prod.mk.inj (mem_singleton.mp hmem)).1]
    exact hclear

theorem Unburied.commit (h : K.Unburied) (hsound : K.Sound) (t : ℕ) : (K.commit t).2.Unburied := by
  unfold KeyTable.commit
  split
  · rename_i hopen
    exact h.of_versions rfl fun r hr => .inl ⟨r, hsound.version_of_commit hopen hr, rfl⟩
  · exact h

/-- A statement outside of a transaction buries the kids it deletes, and those are in use nowhere
else. -/
theorem Unburied.direct (h : K.Unburied) {tombstones : List Tombstone}
    (hd : K.Direct tombstones new) :
    KeyTable.Unburied { keys := K.keys.apply KeyRow.kid new, tombstones } := by
  rintro r hr s hs hkid
  rcases hd.buried s hs with hold | hdel
  · -- the tombstone was there before, and so was the kid
    rcases hr with hrow | hpending
    · rcases mem_overlay.mp hrow with ⟨k, hw⟩ | ⟨hrow, -⟩
      · obtain ⟨-, r₀, hr₀, hkid₀, -⟩ := hd.row hw
        exact h r₀ (.inl hr₀) s hold (by rw [hkid, hkid₀, hd.wf.keyed hw])
      · exact h r (.inl hrow) s hold hkid
    · exact h r (.inr hpending) s hold hkid
  · rw [hkid] at hdel
    have htouch : new.touches r.kid := touches_iff.mpr ⟨_, hdel⟩
    rcases hr with hrow | ⟨u, us, hu, hw⟩
    · rcases mem_overlay.mp hrow with ⟨k, hw⟩ | ⟨-, huntouched⟩
      · -- a key is written once
        rw [← hd.wf.keyed hw] at hw
        have := inj_on_of_nodup_map hd.wf.nodup hdel hw rfl
        cases this
      · rw [htouch] at huntouched
        cases huntouched
    · have hfree := hd.free htouch hu
      rw [touches_iff.mpr ⟨_, hw⟩] at hfree
      cases hfree

theorem Unburied.revoke (h : K.Unburied) (now : Time) (hfree : K.locked kid = false) :
    (K.revoke kid now).2.Unburied := by
  rcases revoke_cases now hfree with heq | ⟨new, hd, heq⟩ <;> rw [heq]
  · exact h
  · exact h.direct hd

theorem Unburied.reap (h : K.Unburied) (hsound : K.Sound) {kids : List KID} (now : Time)
    (hfree : kids.any K.locked = false) : (K.reap kids now).2.Unburied := by
  unfold KeyTable.reap
  split
  · exact h
  · exact h.direct (hsound.reap_direct now hfree)

end KeyTable

end Vault42.Keystore
