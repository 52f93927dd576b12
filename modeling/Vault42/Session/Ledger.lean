import Vault42.Session.TableStep

/-!
# The ledger of the token table

What is true of the table under any schedule, before anything is said about live rows. Rows only
ever age: a row that is read was committed once, and has since only been marked (`Row.Ages`).
Identifiers are drawn by one thread and used once: a thread that has drawn the id or the family id
of a committed row is the one that wrote it (`Ledger.logged_wrote`), and a row that waits in an open
transaction is the first of its family (`Ledger.pending_new`). An open transaction is where its
owner's phase says (`Ledger.txn_fits`).

`TableStep.rows` is the inversion everything else rests on: a step commits at most one new row, and
every other row of the new table is an aged row of the old one.
-/

namespace Vault42

open Framework Program List TableEvent TokenStore

variable {r r' : Row} {s : TokenStore} {cap : ℤ} {t : ℕ} {w : World} {φ φ' : Custody} {cl : Call}
  {s' : TokenStore} {n' : ℕ} {x : Txn} {n : ℕ} {ps : List (Req × Custody)} {row : Row}

/-! ### Rows as they were written -/

/-- The row as it was first committed. -/
def Row.pristine (r : Row) : Row := { r with used := false, revoked := false }

/-- The token as it was first committed. -/
def RefreshToken.pristine (tok : RefreshToken) : RefreshToken :=
  { tok with used := false, revoked := false }

/-- `r'` is the row `r`, later: nothing has changed but that it may have been marked. -/
structure Row.Ages (r r' : Row) : Prop where
  pristine : r'.pristine = r.pristine
  used : r.used → r'.used
  revoked : r.revoked → r'.revoked

section Row

theorem Row.Ages.refl (r : Row) : r.Ages r := ⟨rfl, fun h => h, fun h => h⟩

theorem Row.Ages.id (h : r.Ages r') : r'.id = r.id := by
  have hid := congrArg Row.id h.pristine
  exact hid

theorem Row.Ages.familyID (h : r.Ages r') : r'.familyID = r.familyID := by
  have hfam := congrArg Row.familyID h.pristine
  exact hfam

theorem Row.Ages.live (h : r.Ages r') (hl : r'.live) : r.live := by
  have hu := h.used
  have hr := h.revoked
  simp only [Row.live, Bool.and_eq_true, Bool.not_eq_true'] at hl ⊢
  constructor
  · by_contra hc
    simp_all
  · by_contra hc
    simp_all

theorem Row.pristine_toModel (r : Row) : r.pristine.toModel = r.toModel.pristine := rfl

theorem ages_revoked (r : Row) : r.Ages { r with revoked := true } := ⟨rfl, id, fun _ => rfl⟩

theorem ages_used (r : Row) : r.Ages { r with used := true } := ⟨rfl, fun _ => rfl, id⟩

end Row

namespace TokenStore

/-- Every row after a revocation's write is an aged row from before. -/
theorem ages_of_mem_revokeIds {rows : List Row} {ids : List UUID} (h : r ∈ revokeIds rows ids) :
    ∃ r₀ ∈ rows, r₀.Ages r := by
  obtain ⟨r₀, hr₀, rfl⟩ := mem_map.mp h
  refine ⟨r₀, hr₀, ?_⟩
  split
  · exact ages_revoked r₀
  · exact .refl r₀

theorem ages_of_mem_markUsed {id : UUID} (h : r ∈ (s.markUsed id).2.rows) :
    ∃ r₀ ∈ s.rows, r₀.Ages r := by
  obtain ⟨r₀, hr₀, rfl⟩ := mem_map.mp h
  refine ⟨r₀, hr₀, ?_⟩
  split
  · exact ages_used r₀
  · exact .refl r₀

theorem mem_of_mem_reapBatch {dead : Row → Bool} (h : r ∈ (s.reapBatch dead).2.rows) :
    r ∈ s.rows := mem_of_mem_filter h

/-- Marking rows leaves the ids of the table as they were. -/
theorem map_id_revokeIds (rows : List Row) (ids : List UUID) :
    (revokeIds rows ids).map Row.id = rows.map Row.id := by
  rw [revokeIds, map_map]
  refine map_congr_left fun r _ => ?_
  simp only [Function.comp_apply]
  split <;> rfl

theorem map_id_markUsed (id : UUID) : (s.markUsed id).2.rows.map Row.id = s.rows.map Row.id := by
  rw [markUsed, map_map]
  refine map_congr_left fun r _ => ?_
  simp only [Function.comp_apply]
  split <;> rfl

end TokenStore

/-! ### What a step commits -/

/-- **How a row comes into the table**: it is written by one statement, or it was waiting in the
transaction that commits. -/
inductive Born (cap : ℤ) (t : ℕ) (w : World) (φ : Custody) : Call → Custody → Row → Prop where
  | created {tok : RefreshToken} (hfresh : φ.Fresh tok) (htxn : φ.txn = .none)
      (hkind : cap ≤ 0 ∧ φ.Firstborn tok ∨ ∃ stored, φ.Successor tok stored)
      (hguard : w.tokens.insertGuard w.users tok)
      (hfree : w.tokens.writeBlocked t (fun r => r.familyID == tok.familyID) = false) :
      Born cap t w φ (.tokens (.create tok))
        { φ with wrote := true, rotation := Custody.close φ.rotation } (w.tokens.rowToInsert tok)
  | committed {x : Txn} {row : Row} (hx : x ∈ w.tokens.txns) (howner : x.owner = t)
      (hrow : x.inserted = some row) :
      Born cap t w φ (.tokens .commit)
        { φ with txn := .none, burnt := Custody.commitScope φ.txn ++ φ.burnt } row

/-- **What a step does to the rows and to their history**: it commits at most one row, and every
other row of the new table is an aged row of the old one. -/
theorem TableStep.rows
    (h : TableStep cap t w φ cl s' n' φ') :
    ∃ born : Option Row, (∀ row ∈ born, Born cap t w φ cl φ' row) ∧
      (∀ r ∈ s'.rows, r ∈ born ∨ ∃ r₀ ∈ w.tokens.rows, r₀.Ages r) ∧
      (∀ r, inserted r ∈ s'.log ↔ r ∈ born ∨ inserted r ∈ w.tokens.log) ∧
      (s'.rows.map Row.id).Sublist (w.tokens.rows.map Row.id ++ born.toList.map Row.id) := by
  -- every statement but three leaves the rows where they were, or only marks them
  have quiet : ∀ {s : TokenStore}, (∀ r ∈ s.rows, ∃ r₀ ∈ w.tokens.rows, r₀.Ages r) →
      s.log = w.tokens.log → (s.rows.map Row.id).Sublist (w.tokens.rows.map Row.id) →
      ∃ born : Option Row, (∀ row ∈ born, Born cap t w φ cl φ' row) ∧
        (∀ r ∈ s.rows, r ∈ born ∨ ∃ r₀ ∈ w.tokens.rows, r₀.Ages r) ∧
        (∀ r, inserted r ∈ s.log ↔ r ∈ born ∨ inserted r ∈ w.tokens.log) ∧
        (s.rows.map Row.id).Sublist (w.tokens.rows.map Row.id ++ born.toList.map Row.id) := by
    intro s hrows hlog hids
    refine ⟨none, by simp, fun r hr => .inr (hrows r hr), fun r => ?_, by simpa using hids⟩
    rw [hlog]
    simp
  have same : ∀ r ∈ w.tokens.rows, ∃ r₀ ∈ w.tokens.rows, r₀.Ages r := fun r hr => ⟨r, hr, .refl r⟩
  cases h with
  | create hfresh htxn hkind hguard hdup hfree =>
    rename_i tok
    refine ⟨some (w.tokens.rowToInsert tok), ?_, ?_, ?_, ?_⟩
    · rintro row ⟨⟩
      exact .created hfresh htxn hkind hguard hfree
    · intro r hr
      rcases mem_append.mp hr with hr | hr
      · exact .inr (same r hr)
      · rw [mem_singleton] at hr
        exact .inl (congrArg some hr.symm)
    · intro r
      simp only [TokenStore.insert, mem_cons, inserted.injEq, Option.mem_some_iff]
      exact or_congr_left eq_comm
    · simp [TokenStore.insert]
  | commit htxn hx howner =>
    rename_i x
    refine ⟨x.inserted, ?_, ?_, ?_, ?_⟩
    · intro row hrow
      exact .committed hx howner hrow
    · intro r hr
      rcases mem_append.mp hr with hr | hr
      · exact .inr (ages_of_mem_revokeIds hr)
      · exact .inl (Option.mem_toList.mp hr)
    · intro r
      simp [committed]
    · rw [committed, map_append, map_id_revokeIds]
  | spend hmay hr =>
    refine quiet (fun _ => ages_of_mem_markUsed) rfl ?_
    rw [map_id_markUsed]
  | reap =>
    refine quiet (fun r hr => same r (mem_of_mem_reapBatch hr)) rfl ?_
    exact filter_sublist.map _
  | _ => exact quiet same rfl (Sublist.refl _)

section Step

section

variable (h : TableStep cap t w φ cl s' n' φ')
include h

/-- A step draws at most the next random value, and records every value it draws for a thread. -/
theorem TableStep.drawn :
    φ'.drawn = φ.drawn ∧ w.supply ≤ n' ∨
      φ'.drawn = w.supply :: φ.drawn ∧ n' = w.supply + 1 := by
  cases h with
  | salt => exact .inl ⟨rfl, Nat.le_succ _⟩
  | draw => exact .inr ⟨rfl, rfl⟩
  | _ => exact .inl ⟨rfl, le_refl _⟩

theorem TableStep.subset_drawn : φ.drawn ⊆ φ'.drawn := by
  rcases h.drawn with ⟨hd, -⟩ | ⟨hd, -⟩
  · rw [hd]
    exact Subset.refl _
  · rw [hd]
    exact subset_cons_self _ _

theorem TableStep.supply_le : w.supply ≤ n' := by
  rcases h.drawn with ⟨-, hn⟩ | ⟨-, hn⟩
  · exact hn
  · rw [hn]
    exact Nat.le_succ _

theorem TableStep.wrote (hw : φ.wrote) : φ'.wrote := by
  cases h with
  | create => rfl
  | insert => rfl
  | _ => exact hw

/-- A rotation stays with the token it has read, or reads one before it has revoked anything. -/
theorem TableStep.stored_or_read :
    φ'.rotation.stored = φ.rotation.stored ∨
      (∃ r ∈ w.tokens.rows, φ'.rotation.stored = some r.toModel) ∧ s' = w.tokens ∧
        φ'.burnt = [] ∧ φ'.txn = .none := by
  cases h with
  | clock => exact .inl (Custody.stored_readClock _)
  | read hidle htxn hburnt hr => exact .inr ⟨⟨_, hr, rfl⟩, rfl, hburnt, htxn⟩
  | create => exact .inl Custody.stored_close
  | spend => exact .inl Custody.stored_spend
  | lose => exact .inl Custody.stored_lose
  | _ => exact .inl rfl

end

/-! ### Open transactions -/

/-- The transaction is where its owner's phase says it is. -/
def Txn.Fits (x : Txn) : TxnPhase → Prop
  | .none => False
  | .opened => x.revoking = [] ∧ x.inserted = none
  | .sessionsLocked u => x.revoking = [] ∧ x.inserted = none ∧ x.sessionLock = some u
  | .counted u _ => x.revoking = [] ∧ x.inserted = none ∧ x.sessionLock = some u
  | .inserted => x.revoking = [] ∧ ∃ r, x.inserted = some r ∧ x.sessionLock = some r.userID
  | .locked _ => x.revoking = [] ∧ x.inserted = none
  | .revoking _ => x.inserted = none

/-- Only a transaction that has inserted has a row waiting. -/
theorem Txn.Fits.of_inserted {p : TxnPhase} (h : x.Fits p)
    (hrow : x.inserted = some row) : p = .inserted := by
  cases p with
  | inserted => rfl
  | none => exact h.elim
  | opened =>
    rw [h.2] at hrow
    cases hrow
  | sessionsLocked | counted =>
    rw [h.2.1] at hrow
    cases hrow
  | locked =>
    rw [h.2] at hrow
    cases hrow
  | revoking =>
    have hnone : x.inserted = Option.none := h
    rw [hnone] at hrow
    cases hrow

theorem mem_updateTxn {f : Txn → Txn} (h : x ∈ (s.updateTxn t f).txns) :
    x ∈ s.txns ∧ x.owner ≠ t ∨ ∃ y ∈ s.txns, y.owner = t ∧ x = f y := by
  obtain ⟨y, hy, rfl⟩ := mem_map.mp h
  split
  next hown => exact .inr ⟨y, hy, hown, rfl⟩
  next hown => exact .inl ⟨hy, hown⟩

theorem mem_filter_owner (h : x ∈ s.txns.filter fun y => y.owner != t) :
    x ∈ s.txns ∧ x.owner ≠ t := by
  simpa using mem_filter.mp h

theorem owner_lock (x : Txn) (sc : Scope) (rows : List Row) : (x.lock sc rows).owner = x.owner := by
  cases sc <;> rfl

theorem fits_lock {sc : Scope} {rows : List Row} (h : x.Fits .opened) :
    (x.lock sc rows).Fits (.locked sc) := by
  cases sc <;> exact h

/-- A transaction changed by its owner's statement fits the owner's new phase, when it fitted the
old one; nobody else's transaction changes. -/
theorem TableStep.txn (h : TableStep cap t w φ cl s' n' φ')
    (hfits : ∀ y ∈ w.tokens.txns, y.owner = t → y.Fits φ.txn) (hx : x ∈ s'.txns) :
    x ∈ w.tokens.txns ∧ x.owner ≠ t ∨ x.owner = t ∧ x.Fits φ'.txn := by
  have fits : ∀ {y p}, y ∈ w.tokens.txns → y.owner = t → φ.txn = p → y.Fits p :=
    fun hy hown htxn => htxn ▸ hfits _ hy hown
  -- the statements that leave the transactions alone
  have same : x ∈ w.tokens.txns → (x.Fits φ.txn → x.Fits φ'.txn) →
      x ∈ w.tokens.txns ∧ x.owner ≠ t ∨ x.owner = t ∧ x.Fits φ'.txn := by
    intro hmem himp
    by_cases hown : x.owner = t
    · exact .inr ⟨hown, himp (hfits x hmem hown)⟩
    · exact .inl ⟨hmem, hown⟩
  cases h with
  | begin =>
    rcases mem_cons.mp hx with rfl | hx
    · exact .inr ⟨rfl, rfl, rfl⟩
    · exact .inl (mem_filter_owner hx)
  | lockSessions htxn =>
    rcases mem_updateTxn hx with hx | ⟨y, hy, hown, rfl⟩
    · exact .inl hx
    · exact .inr ⟨hown, (fits hy hown htxn).1, (fits hy hown htxn).2, rfl⟩
  | count htxn => exact same hx fun hfit => (htxn ▸ hfit :)
  | insert hfresh hborn htxn =>
    rcases mem_updateTxn hx with hx | ⟨y, hy, hown, rfl⟩
    · exact .inl hx
    · exact .inr ⟨hown, (fits hy hown htxn).1, _, rfl, (fits hy hown htxn).2.2⟩
  | refuse htxn =>
    rcases mem_updateTxn hx with hx | ⟨y, hy, hown, rfl⟩
    · exact .inl hx
    · have hfit := fits hy hown htxn
      rw [htxn]
      exact .inr ⟨hown, hfit⟩
  | lockScope htxn =>
    rcases mem_updateTxn hx with hx | ⟨y, hy, hown, rfl⟩
    · exact .inl hx
    · exact .inr ⟨(owner_lock y _ _).trans hown, fits_lock (fits hy hown htxn)⟩
  | revokeScope htxn =>
    rcases mem_updateTxn hx with hx | ⟨y, hy, hown, rfl⟩
    · exact .inl hx
    · exact .inr ⟨hown, (fits hy hown htxn).2⟩
  | commit htxn hx' howner =>
    subst howner
    exact .inl (mem_filter_owner hx)
  | rollback => exact .inl (mem_filter_owner hx)
  | _ => exact same hx id

theorem TableStep.owners (h : TableStep cap t w φ cl s' n' φ')
    (hn : (w.tokens.txns.map Txn.owner).Nodup) : (s'.txns.map Txn.owner).Nodup := by
  have update : ∀ f : Txn → Txn, (∀ x, (f x).owner = x.owner) →
      ((w.tokens.updateTxn t f).txns.map Txn.owner).Nodup := by
    intro f hf
    have hmap : (w.tokens.updateTxn t f).txns.map Txn.owner = w.tokens.txns.map Txn.owner := by
      rw [updateTxn, map_map]
      refine map_congr_left fun x _ => ?_
      simp only [Function.comp_apply]
      split
      · exact hf x
      · rfl
    rw [hmap]
    exact hn
  have close : ∀ u, ((w.tokens.txns.filter fun y => y.owner != u).map Txn.owner).Nodup :=
    fun u => hn.sublist (filter_sublist.map _)
  cases h with
  | begin =>
    refine nodup_cons.mpr ⟨?_, close t⟩
    intro hmem
    obtain ⟨y, hy, hown⟩ := mem_map.mp hmem
    exact (mem_filter_owner hy).2 hown
  | lockSessions | insert | refuse | revokeScope => exact update _ fun _ => rfl
  | lockScope => exact update _ fun x => owner_lock x _ _
  | commit => exact close _
  | rollback => exact close _
  | _ => exact hn

theorem inserted_lock (x : Txn) (sc : Scope) (rows : List Row) :
    (x.lock sc rows).inserted = x.inserted := by
  cases sc <;> rfl

/-- A row that waits in a transaction was waiting before, or has just been written by the thread as
the first of its family. -/
theorem TableStep.pending (h : TableStep cap t w φ cl s' n' φ') (hx : x ∈ s'.txns)
    (hrow : x.inserted = some row) :
    (∃ y ∈ w.tokens.txns, y.owner = x.owner ∧ y.inserted = some row) ∨
      x.owner = t ∧ φ'.wrote ∧ φ'.txn = .inserted ∧
        ∃ tok, row = w.tokens.rowToInsert tok ∧ φ.Fresh tok ∧ φ.Firstborn tok ∧
          cl = .tokens (.insertInTxn tok) := by
  cases h with
  | begin =>
    rcases mem_cons.mp hx with rfl | hx
    · cases hrow
    · exact .inl ⟨x, (mem_filter_owner hx).1, rfl, hrow⟩
  | lockSessions | refuse | revokeScope =>
    rcases mem_updateTxn hx with hx | ⟨y, hy, -, rfl⟩
    · exact .inl ⟨x, hx.1, rfl, hrow⟩
    · exact .inl ⟨y, hy, rfl, hrow⟩
  | insert hfresh hborn =>
    rcases mem_updateTxn hx with hx | ⟨y, hy, hown, rfl⟩
    · exact .inl ⟨x, hx.1, rfl, hrow⟩
    · cases hrow
      exact .inr ⟨hown, rfl, rfl, _, rfl, hfresh, hborn, rfl⟩
  | lockScope =>
    rcases mem_updateTxn hx with hx | ⟨y, hy, -, rfl⟩
    · exact .inl ⟨x, hx.1, rfl, hrow⟩
    · rw [inserted_lock] at hrow
      exact .inl ⟨y, hy, (owner_lock y _ _).symm, hrow⟩
  | commit => exact .inl ⟨x, (mem_filter_owner hx).1, rfl, hrow⟩
  | rollback => exact .inl ⟨x, (mem_filter_owner hx).1, rfl, hrow⟩
  | _ => exact .inl ⟨x, hx, rfl, hrow⟩

end Step

/-! ### The ledger -/

/-- **The ledger.** What holds of the table `s`, with the supply at `n` and the threads in the
phases `ps`, under any schedule. -/
structure Ledger (s : TokenStore) (n : ℕ) (ps : List (Req × Custody)) : Prop where
  /-- A drawn value is below the supply. -/
  drawn_lt : ∀ {t φ x}, At ps t φ → x ∈ φ.drawn → x < n
  /-- A value is drawn by one thread. -/
  drawn_inj : ∀ {t u φ ψ x}, At ps t φ → At ps u ψ → x ∈ φ.drawn → x ∈ ψ.drawn → t = u
  owners : (s.txns.map Txn.owner).Nodup
  txn_fits : ∀ x ∈ s.txns, ∃ φ, At ps x.owner φ ∧ x.Fits φ.txn
  logged_lt : ∀ {r}, .inserted r ∈ s.log → r.id < n ∧ r.familyID < n
  /-- The thread that drew an identifier of a committed row has written. -/
  logged_wrote : ∀ {r t φ}, .inserted r ∈ s.log → At ps t φ →
    r.id ∈ φ.drawn ∨ r.familyID ∈ φ.drawn → φ.wrote
  logged_inj : ∀ {r r'}, .inserted r ∈ s.log → .inserted r' ∈ s.log → r.id = r'.id → r = r'
  /-- A waiting row was written by the transaction's owner, under identifiers of its own. -/
  pending_own : ∀ {x r}, x ∈ s.txns → x.inserted = some r →
    r.pristine = r ∧ ∃ φ, At ps x.owner φ ∧ φ.wrote ∧ r.id ∈ φ.drawn ∧ r.familyID ∈ φ.drawn
  /-- A waiting row is the first of its family. -/
  pending_new : ∀ {x r r'}, x ∈ s.txns → x.inserted = some r → .inserted r' ∈ s.log →
    r'.id ≠ r.id ∧ r'.familyID ≠ r.familyID
  rows_logged : ∀ r ∈ s.rows, .inserted r.pristine ∈ s.log
  ids_nodup : (s.rows.map Row.id).Nodup
  /-- A token being rotated was read from a committed row. -/
  stored_logged : ∀ {t φ tok}, At ps t φ → φ.rotation.stored = some tok →
    ∃ r, .inserted r ∈ s.log ∧ r.toModel = tok.pristine

namespace Ledger

variable {tok : RefreshToken}

section

variable (hL : Ledger s n ps)
include hL

/-- An id that a thread has drawn and not yet used is of no committed row. -/
theorem not_logged_of_fresh (hat : At ps t φ) (hfresh : φ.Fresh tok)
    (hr : .inserted r ∈ s.log) : r.id ≠ tok.id := by
  intro heq
  have hw := hL.logged_wrote hr hat (.inl (heq ▸ hfresh.id))
  rw [hfresh.wrote] at hw
  cases hw

/-- A family id that a thread has drawn and not yet used has no committed row. -/
theorem not_logged_of_firstborn (hat : At ps t φ) (hfresh : φ.Fresh tok) (hborn : φ.Firstborn tok)
    (hr : .inserted r ∈ s.log) : r.familyID ≠ tok.familyID := by
  intro heq
  have hw := hL.logged_wrote hr hat (.inr (heq ▸ hborn.family))
  rw [hfresh.wrote] at hw
  cases hw

theorem row_eq (hr : r ∈ s.rows) (hr' : r' ∈ s.rows) (hid : r.id = r'.id) : r = r' :=
  inj_on_of_nodup_map hL.ids_nodup hr hr' hid

/-- What identifies the token being rotated, read back from the row it was committed as. -/
theorem stored_family (hat : At ps t φ) (hst : φ.rotation.stored = some tok) :
    ∃ r, .inserted r ∈ s.log ∧ r.id = tok.id ∧ r.familyID = tok.familyID := by
  obtain ⟨r, hr, heq⟩ := hL.stored_logged hat hst
  have hid := congrArg RefreshToken.id heq
  have hfam := congrArg RefreshToken.familyID heq
  exact ⟨r, hr, hid, hfam⟩

/-- The row a token was read from, as long as it is there. -/
theorem row_of_stored (hat : At ps t φ) (hst : φ.rotation.stored = some tok)
    (hr : r ∈ s.rows) (hid : r.id = tok.id) :
    r.userID = tok.userID ∧ r.familyID = tok.familyID ∧ r.expiresAt = tok.expiresAt := by
  obtain ⟨r₀, hr₀, hmodel⟩ := hL.stored_logged hat hst
  have hid₀ : r₀.id = tok.id := congrArg RefreshToken.id hmodel
  have heq : r.pristine = r₀ := hL.logged_inj (hL.rows_logged r hr) hr₀ (hid.trans hid₀.symm)
  rw [← heq] at hmodel
  have huser := congrArg RefreshToken.userID hmodel
  have hfam := congrArg RefreshToken.familyID hmodel
  have hexp := congrArg RefreshToken.expiresAt hmodel
  exact ⟨huser, hfam, hexp⟩

theorem spent_logged {stored : RefreshToken} (hat : At ps t φ)
    (hspent : φ.rotation = .spent stored) :
    ∃ r, .inserted r ∈ s.log ∧ r.toModel = stored.pristine := by
  refine hL.stored_logged hat ?_
  rw [hspent]
  rfl

theorem spent_family {stored : RefreshToken} (hat : At ps t φ)
    (hspent : φ.rotation = .spent stored) :
    ∃ r, .inserted r ∈ s.log ∧ r.id = stored.id ∧ r.familyID = stored.familyID := by
  refine hL.stored_family hat ?_
  rw [hspent]
  rfl

theorem own_fits (hat : At ps t φ) : ∀ x ∈ s.txns, x.owner = t → x.Fits φ.txn := by
  intro x hx hown
  obtain ⟨ψ, hψ, hfit⟩ := hL.txn_fits x hx
  rw [hown] at hψ
  rw [hat.unique hψ]
  exact hfit

end

end Ledger

section Born

section

variable (h : Born cap t w φ cl φ' row)
include h

/-- A thread that has just committed a row has no transaction open. -/
theorem Born.txn : φ'.txn = .none := by
  cases h with
  | created hfresh htxn => exact htxn
  | committed => rfl

theorem Born.pristine (hL : Ledger w.tokens w.supply ps) : row.pristine = row := by
  cases h with
  | created => rfl
  | committed hx howner hrow => exact (hL.pending_own hx hrow).1

/-- A committed row has an id its thread drew, and no other committed row has it. -/
theorem Born.id (hL : Ledger w.tokens w.supply ps) (hat : At ps t φ) :
    φ'.wrote ∧ row.id ∈ φ.drawn ∧ ∀ r, .inserted r ∈ w.tokens.log → r.id ≠ row.id := by
  cases h with
  | created hfresh =>
    exact ⟨rfl, hfresh.id, fun _ => hL.not_logged_of_fresh hat hfresh⟩
  | committed hx howner hrow =>
    obtain ⟨-, ψ, hψ, hw, hid, -⟩ := hL.pending_own hx hrow
    rw [howner] at hψ
    obtain rfl := hat.unique hψ
    exact ⟨hw, hid, fun r hr => (hL.pending_new hx hrow hr).1⟩

/-- A committed row starts a family of its thread's own, or goes on with a committed one. -/
theorem Born.family (hL : Ledger w.tokens w.supply ps) (hat : At ps t φ) :
    (row.familyID ∈ φ.drawn ∧ ∀ r, .inserted r ∈ w.tokens.log → r.familyID ≠ row.familyID) ∨
      ∃ stored, φ.rotation = .spent stored ∧ φ'.rotation = .closed stored ∧
        row.familyID = stored.familyID := by
  cases h with
  | created hfresh htxn hkind =>
    rcases hkind with ⟨-, hborn⟩ | ⟨stored, hsucc⟩
    · exact .inl ⟨hborn.family, fun _ => hL.not_logged_of_firstborn hat hfresh hborn⟩
    · refine .inr ⟨stored, hsucc.rotation, ?_, hsucc.family⟩
      rw [hsucc.rotation]
      rfl
  | committed hx howner hrow =>
    obtain ⟨-, ψ, hψ, hw, -, hfam⟩ := hL.pending_own hx hrow
    rw [howner] at hψ
    obtain rfl := hat.unique hψ
    exact .inl ⟨hfam, fun r hr => (hL.pending_new hx hrow hr).2⟩

end

end Born

namespace Ledger

section Step

variable {req : Req}

variable {ψ : Custody} {u : ℕ} {x : UUID}

variable (hL : Ledger w.tokens w.supply ps) (h : TableStep cap t w φ cl s' n' φ') (hat : At ps t φ)
include h hat

section Drawn

variable (hψ : At (ps.set t (req, φ')) u ψ) (hx : x ∈ ψ.drawn)
include hψ hx

/-- After a step every drawn value was drawn before by the same thread, or is the one the thread
that moved has just drawn. -/
theorem drawn_cases :
    (∃ ψ₀, At ps u ψ₀ ∧ x ∈ ψ₀.drawn) ∨ u = t ∧ x = w.supply ∧ n' = w.supply + 1 := by
  rcases hψ.of_set with ⟨rfl, rfl⟩ | ⟨-, hψ⟩
  · rcases h.drawn with ⟨hd, -⟩ | ⟨hd, hn⟩
    · rw [hd] at hx
      exact .inl ⟨φ, hat, hx⟩
    · rw [hd] at hx
      rcases mem_cons.mp hx with rfl | hx
      · exact .inr ⟨rfl, rfl, hn⟩
      · exact .inl ⟨φ, hat, hx⟩
  · exact .inl ⟨ψ, hψ, hx⟩

include hL in
theorem step_drawn_lt : x < n' := by
  rcases drawn_cases h hat hψ hx with ⟨ψ₀, hψ₀, hx₀⟩ | ⟨-, rfl, hn⟩
  · exact lt_of_lt_of_le (hL.drawn_lt hψ₀ hx₀) h.supply_le
  · rw [hn]
    exact Nat.lt_succ_self _

/-- A logged identifier is below the supply, so a thread that holds it after a step held it
before. -/
theorem drawn_of_lt (hlt : x < w.supply) :
    ∃ ψ₀, At ps u ψ₀ ∧ x ∈ ψ₀.drawn ∧ (ψ₀.wrote → ψ.wrote) := by
  rcases drawn_cases h hat hψ hx with ⟨ψ₀, hψ₀, hx₀⟩ | ⟨-, rfl, -⟩
  · refine ⟨ψ₀, hψ₀, hx₀, fun hw => ?_⟩
    rcases hψ.of_set with ⟨rfl, rfl⟩ | ⟨-, hψ⟩
    · rw [hψ₀.unique hat] at hw
      exact h.wrote hw
    · rw [hψ.unique hψ₀]
      exact hw
  · exact absurd hlt (lt_irrefl _)

end Drawn

include hL

theorem step_drawn_inj {v : ℕ} {χ : Custody} (hψ : At (ps.set t (req, φ')) u ψ)
    (hχ : At (ps.set t (req, φ')) v χ) (hx : x ∈ ψ.drawn) (hx' : x ∈ χ.drawn) : u = v := by
  rcases drawn_cases h hat hψ hx with ⟨ψ₀, hψ₀, hx₀⟩ | ⟨rfl, rfl, -⟩
  · rcases drawn_cases h hat hχ hx' with ⟨χ₀, hχ₀, hx₁⟩ | ⟨rfl, rfl, -⟩
    · exact hL.drawn_inj hψ₀ hχ₀ hx₀ hx₁
    · -- the value just drawn was at the top of the supply, out of everybody's reach
      exact absurd (hL.drawn_lt hψ₀ hx₀) (lt_irrefl _)
  · rcases drawn_cases h hat hχ hx' with ⟨χ₀, hχ₀, hx₁⟩ | ⟨rfl, -, -⟩
    · exact absurd (hL.drawn_lt hχ₀ hx₁) (lt_irrefl _)
    · rfl

theorem step_logged_wrote (hr : .inserted r ∈ s'.log) (hψ : At (ps.set t (req, φ')) u ψ)
    (hdrawn : r.id ∈ ψ.drawn ∨ r.familyID ∈ ψ.drawn) : ψ.wrote := by
  obtain ⟨born, hborn, -, hlog, -⟩ := h.rows
  -- a row logged before: its owner is the thread it was
  have old : ∀ r₀, .inserted r₀ ∈ w.tokens.log → r₀.id ∈ ψ.drawn ∨ r₀.familyID ∈ ψ.drawn →
      ψ.wrote := by
    intro r₀ hr₀ hd
    obtain ⟨hid, hfam⟩ := hL.logged_lt hr₀
    rcases hd with hd | hd
    · obtain ⟨ψ₀, hψ₀, hx, hw⟩ := drawn_of_lt h hat hψ hd hid
      exact hw (hL.logged_wrote hr₀ hψ₀ (.inl hx))
    · obtain ⟨ψ₀, hψ₀, hx, hw⟩ := drawn_of_lt h hat hψ hd hfam
      exact hw (hL.logged_wrote hr₀ hψ₀ (.inr hx))
  rcases (hlog r).mp hr with hb | hr₀
  · have hb' := hborn r hb
    obtain ⟨hw, hid, -⟩ := hb'.id hL hat
    -- the thread that wrote the row now is the only one that can hold its identifiers
    rcases hψ.of_set with ⟨-, rfl⟩ | ⟨hne, hψ₀⟩
    · exact hw
    rcases hdrawn with hd | hd
    · exact absurd (hL.drawn_inj hψ₀ hat hd hid) hne
    · rcases hb'.family hL hat with ⟨hfam, -⟩ | ⟨stored, hspent, -, hfam⟩
      · exact absurd (hL.drawn_inj hψ₀ hat hd hfam) hne
      · obtain ⟨r₀, hr₀, -, hf⟩ := hL.spent_family hat hspent
        refine old r₀ hr₀ (.inr ?_)
        rw [hf, ← hfam]
        exact hd
  · exact old r hr₀ hdrawn

theorem step_txn_fits {x : Txn} (hx : x ∈ s'.txns) :
    ∃ ψ, At (ps.set t (req, φ')) x.owner ψ ∧ x.Fits ψ.txn := by
  rcases h.txn (hL.own_fits hat) hx with ⟨hx₀, hne⟩ | ⟨rfl, hfit⟩
  · obtain ⟨ψ, hψ, hfit⟩ := hL.txn_fits x hx₀
    exact ⟨ψ, hψ.set_ne hne, hfit⟩
  · exact ⟨φ', hat.set_self, hfit⟩

/-- A waiting row after a step still belongs to its transaction's owner. -/
theorem step_pending_own {x : Txn} (hx : x ∈ s'.txns) (hr : x.inserted = some r) :
    r.pristine = r ∧ ∃ ψ, At (ps.set t (req, φ')) x.owner ψ ∧ ψ.wrote ∧ r.id ∈ ψ.drawn ∧
      r.familyID ∈ ψ.drawn := by
  rcases h.pending hx hr with ⟨y, hy, hown, hyr⟩ | ⟨rfl, hw, -, tok, rfl, hfresh, hborn, -⟩
  · obtain ⟨hpr, ψ, hψ, hw, hid, hfam⟩ := hL.pending_own hy hyr
    rw [hown] at hψ
    refine ⟨hpr, ?_⟩
    by_cases hxt : x.owner = t
    · subst hxt
      obtain rfl := hat.unique hψ
      exact ⟨φ', hat.set_self, h.wrote hw, h.subset_drawn hid, h.subset_drawn hfam⟩
    · exact ⟨ψ, hψ.set_ne hxt, hw, hid, hfam⟩
  · exact ⟨rfl, φ', hat.set_self, hw, h.subset_drawn hfresh.id, h.subset_drawn hborn.family⟩

omit h in
/-- A row committed by one thread shares no identifier with a row that waits in a transaction of
another. -/
theorem born_ne_pending (hb : Born cap t w φ cl φ' row) {y : Txn}
    (hy : y ∈ w.tokens.txns) (hr : y.inserted = some r) (hne : y.owner ≠ t) :
    row.id ≠ r.id ∧ row.familyID ≠ r.familyID := by
  obtain ⟨-, ψ, hψ, -, hid, hfam⟩ := hL.pending_own hy hr
  constructor
  · intro heq
    rw [← heq] at hid
    exact hne (hL.drawn_inj hψ hat hid (hb.id hL hat).2.1)
  · intro heq
    rcases hb.family hL hat with ⟨hrow, -⟩ | ⟨stored, hspent, -, hf⟩
    · rw [← heq] at hfam
      exact hne (hL.drawn_inj hψ hat hfam hrow)
    · -- a rotation goes on with a family that has committed rows, a waiting row's family has none
      obtain ⟨r₀, hr₀, -, hf₀⟩ := hL.spent_family hat hspent
      exact (hL.pending_new hy hr hr₀).2 (hf₀.trans (hf.symm.trans heq))

theorem step_pending_new {x : Txn} (hx : x ∈ s'.txns) (hr : x.inserted = some r)
    (hr' : .inserted r' ∈ s'.log) : r'.id ≠ r.id ∧ r'.familyID ≠ r.familyID := by
  obtain ⟨born, hborn, -, hlog, -⟩ := h.rows
  rcases (hlog r').mp hr' with hb | hr'
  · -- the thread that committed `r'` has no transaction, so `x` is another's and was there before
    have hb' := hborn r' hb
    have hne : x.owner ≠ t := by
      rcases h.txn (hL.own_fits hat) hx with ⟨-, hne⟩ | ⟨-, hfit⟩
      · exact hne
      · rw [hb'.txn] at hfit
        exact hfit.elim
    rcases h.pending hx hr with ⟨y, hy, hown, hyr⟩ | ⟨hown, -⟩
    · exact born_ne_pending hL hat hb' hy hyr (hown ▸ hne)
    · exact absurd hown hne
  · rcases h.pending hx hr with ⟨y, hy, -, hyr⟩ | ⟨-, -, -, tok, rfl, hfresh, hborn, -⟩
    · exact hL.pending_new hy hyr hr'
    · exact ⟨hL.not_logged_of_fresh hat hfresh hr',
        hL.not_logged_of_firstborn hat hfresh hborn hr'⟩

/-- **The ledger survives every step.** -/
theorem step : Ledger s' n' (ps.set t (req, φ')) := by
  obtain ⟨born, hborn, hrows, hlog, hids⟩ := h.rows
  have hidBorn : ∀ row ∈ born, ∀ r, .inserted r ∈ w.tokens.log → r.id ≠ row.id :=
    fun row hb => ((hborn row hb).id hL hat).2.2
  refine
    { drawn_lt := step_drawn_lt hL h hat
      drawn_inj := step_drawn_inj hL h hat
      owners := h.owners hL.owners
      txn_fits := fun _ => step_txn_fits hL h hat
      logged_lt := ?_
      logged_wrote := step_logged_wrote hL h hat
      logged_inj := ?_
      pending_own := step_pending_own hL h hat
      pending_new := step_pending_new hL h hat
      rows_logged := ?_
      ids_nodup := ?_
      stored_logged := ?_ }
  · intro r hr
    rcases (hlog r).mp hr with hb | hr
    · have hb' := hborn r hb
      refine ⟨lt_of_lt_of_le (hL.drawn_lt hat (hb'.id hL hat).2.1) h.supply_le, ?_⟩
      rcases hb'.family hL hat with ⟨hfam, -⟩ | ⟨stored, hspent, -, hf⟩
      · exact lt_of_lt_of_le (hL.drawn_lt hat hfam) h.supply_le
      · obtain ⟨r₀, hr₀, -, hf₀⟩ := hL.spent_family hat hspent
        rw [hf, ← hf₀]
        exact lt_of_lt_of_le (hL.logged_lt hr₀).2 h.supply_le
    · exact ⟨lt_of_lt_of_le (hL.logged_lt hr).1 h.supply_le,
        lt_of_lt_of_le (hL.logged_lt hr).2 h.supply_le⟩
  · intro r r' hr hr' heq
    rcases (hlog r).mp hr with hb | hr
    · rcases (hlog r').mp hr' with hb' | hr'
      · exact Option.mem_unique hb hb'
      · exact absurd heq.symm (hidBorn r hb r' hr')
    · rcases (hlog r').mp hr' with hb' | hr'
      · exact absurd heq (hidBorn r' hb' r hr)
      · exact hL.logged_inj hr hr' heq
  · intro r hr
    rcases hrows r hr with hb | ⟨r₀, hr₀, hage⟩
    · rw [(hborn r hb).pristine hL]
      exact (hlog r).mpr (.inl hb)
    · rw [hage.pristine]
      exact (hlog _).mpr (.inr (hL.rows_logged r₀ hr₀))
  · refine Nodup.sublist hids (nodup_append.mpr ⟨hL.ids_nodup, ?_, ?_⟩)
    · cases born <;> simp
    · intro a ha b hb hab
      obtain ⟨r₀, hr₀, rfl⟩ := mem_map.mp ha
      obtain ⟨row, hrow, rfl⟩ := mem_map.mp hb
      exact hidBorn row (Option.mem_toList.mp hrow) _ (hL.rows_logged r₀ hr₀) hab
  · intro u ψ tok hψ hst
    rcases hψ.of_set with ⟨-, rfl⟩ | ⟨-, hψ⟩
    · rcases h.stored_or_read with hst' | ⟨⟨r₀, hr₀, hst'⟩, -⟩
      · rw [hst'] at hst
        obtain ⟨r, hr, heq⟩ := hL.stored_logged hat hst
        exact ⟨r, (hlog r).mpr (.inr hr), heq⟩
      · rw [hst'] at hst
        cases hst
        exact ⟨r₀.pristine, (hlog _).mpr (.inr (hL.rows_logged r₀ hr₀)), r₀.pristine_toModel⟩
    · obtain ⟨r, hr, heq⟩ := hL.stored_logged hψ hst
      exact ⟨r, (hlog r).mpr (.inr hr), heq⟩

end Step

section Frame

theorem spawn (hL : Ledger s n ps) (req : Req) : Ledger s n (ps ++ [(req, .start)]) where
  drawn_lt hat hx := hL.drawn_lt (hat.of_snoc (by rintro rfl; cases hx)) hx
  drawn_inj hat hat' hx hx' :=
    hL.drawn_inj (hat.of_snoc (by rintro rfl; cases hx))
      (hat'.of_snoc (by rintro rfl; cases hx')) hx hx'
  owners := hL.owners
  txn_fits x hx := by
    obtain ⟨φ, hφ, hfit⟩ := hL.txn_fits x hx
    exact ⟨φ, hφ.append, hfit⟩
  logged_lt := hL.logged_lt
  logged_wrote hr hat hd := by
    rcases hat.of_append with hat | ⟨-, rfl⟩
    · exact hL.logged_wrote hr hat hd
    · rcases hd with hd | hd <;> cases hd
  logged_inj := hL.logged_inj
  pending_own hx hr := by
    obtain ⟨hpr, φ, hφ, hrest⟩ := hL.pending_own hx hr
    exact ⟨hpr, φ, hφ.append, hrest⟩
  pending_new := hL.pending_new
  rows_logged := hL.rows_logged
  ids_nodup := hL.ids_nodup
  stored_logged hat hst := hL.stored_logged (hat.of_snoc (by rintro rfl; cases hst)) hst

theorem rollback (hL : Ledger s n ps) (t : ℕ) : Ledger (s.rollback t) n ps where
  drawn_lt := hL.drawn_lt
  drawn_inj := hL.drawn_inj
  owners := hL.owners.sublist (filter_sublist.map _)
  txn_fits x hx := hL.txn_fits x (mem_filter_owner hx).1
  logged_lt := hL.logged_lt
  logged_wrote := hL.logged_wrote
  logged_inj := hL.logged_inj
  pending_own hx hr := hL.pending_own (mem_filter_owner hx).1 hr
  pending_new hx hr := hL.pending_new (mem_filter_owner hx).1 hr
  rows_logged := hL.rows_logged
  ids_nodup := hL.ids_nodup
  stored_logged := hL.stored_logged

end Frame

end Ledger

/-! ### Where a run starts -/

/-- **A table a run can start from**: any rows with distinct ids, none of them above the supply and
at most one live in each family, nothing in progress, and the history says no more than that the
rows are there. -/
structure TokenStore.WellFormed (s : TokenStore) (supply : ℕ) : Prop where
  txns : s.txns = []
  log : s.log = s.rows.map fun r => .inserted r.pristine
  ids : (s.rows.map Row.id).Nodup
  bound : ∀ r ∈ s.rows, r.id < supply ∧ r.familyID < supply
  live : ∀ r ∈ s.rows, ∀ r' ∈ s.rows, r.live → r'.live →
    r.familyID = r'.familyID → r = r'

theorem TokenStore.WellFormed.row_of_logged (h : s.WellFormed n)
    (hr : .inserted r ∈ s.log) : ∃ r₀ ∈ s.rows, r₀.pristine = r := by
  rw [h.log] at hr
  obtain ⟨r₀, hr₀, heq⟩ := mem_map.mp hr
  exact ⟨r₀, hr₀, inserted.inj heq⟩

theorem TokenStore.WellFormed.ledger (h : s.WellFormed n) :
    Ledger s n [] := by
  refine
    { drawn_lt := fun hat => absurd hat not_at_nil
      drawn_inj := fun hat => absurd hat not_at_nil
      owners := by rw [h.txns]; exact nodup_nil
      txn_fits := fun x hx => by rw [h.txns] at hx; cases hx
      logged_lt := ?_
      logged_wrote := fun _ hat => absurd hat not_at_nil
      logged_inj := ?_
      pending_own := fun hx => by rw [h.txns] at hx; cases hx
      pending_new := fun hx => by rw [h.txns] at hx; cases hx
      rows_logged := ?_
      ids_nodup := h.ids
      stored_logged := fun hat => absurd hat not_at_nil }
  · intro r hr
    obtain ⟨r₀, hr₀, rfl⟩ := h.row_of_logged hr
    exact h.bound r₀ hr₀
  · intro r r' hr hr' hid
    obtain ⟨r₀, hr₀, rfl⟩ := h.row_of_logged hr
    obtain ⟨r₁, hr₁, rfl⟩ := h.row_of_logged hr'
    rw [inj_on_of_nodup_map h.ids hr₀ hr₁ hid]
  · intro r hr
    rw [h.log]
    exact mem_map_of_mem hr

/-- The worlds a run can start from. -/
def World.WellFormed (w : World) : Prop := w.tokens.WellFormed w.supply

/-- **The ledger is kept by every schedule.** -/
theorem ledger_invariant (cfg : Settings) :
    TableInvariant cfg World.WellFormed anyStep (fun _ => Ledger) where
  init _ hw := hw.ledger
  spawn _ _ _ _ r hL := hL.spawn r
  refused w ps t r φ b ν hL hat := by
    have h : TableStep cfg.maxSessionsPerUser t w φ .now w.tokens w.supply _ := .aside .now b ν
    exact hL.step h ⟨r, hat⟩
  step _ _ r _ _ _ _ _ _ hL hat _ _ h := hL.step h ⟨r, hat⟩
  tick _ _ _ _ _ hL := hL
  disconnect _ _ _ _ t hL := hL.rollback t

/-- The ledger of any configuration a schedule reaches, whatever its guard. -/
theorem Ledger.of_reachable {cfg : Settings} {Init : World → Prop}
    {ok : Config (service cfg) → Label (service cfg) → Prop} {c : Config (service cfg)}
    (hInit : ∀ w, Init w → w.WellFormed) (hc : Reachable Init ok c) :
    Ledger c.world.tokens c.world.supply (c.phases (custody cfg)) := by
  obtain ⟨w, hw, hr⟩ := hc
  exact ((ledger_invariant cfg).keeps.reachable ⟨w, hInit w hw, hr.mono fun _ _ _ => trivial⟩).1

end Vault42
