import Vault42.Session.SingleUse

/-!
# What the rows of a family have in common

A family has no row of its own in the schema: its birth date, its sender key and whether it has been
revoked are read back from whichever rows of it are there when a statement looks. `Families` is the
invariant that makes that sound. All rows ever committed under one family id agree on the columns
that identify it (`Row.Kin`), the rows in the table are revoked together or not at all, and a
revocation that has written and not committed holds every row of the families it touches locked, so
that no successor can slip in.

One thing can break it, a reaper statement that deletes the last row of a family whose rotation has
spent its token and not yet written the successor. `sparesRotations` is the guard that rules this
out, and `noReaper` the stronger one under which no reaper runs at all.

* `TableStep.marks`, `TableStep.revoking`: what a step revokes, and what a transaction has marked.
* `Families.step`: the invariant survives every step the guard lets through.
* `families_invariant`: it holds along every run that spares rotations.
-/

namespace Vault42

open Framework Program List TokenStore

variable {s : TokenStore} {r : Row} {tok : RefreshToken} {ps : List (Req × Custody)}
  {stored : RefreshToken} {r' : Row} {f : UUID} {ψ : Custody}

/-! ### Guards -/

/-- The condition of the reaper statement a call is, if it is one. -/
def reaperOf (now : Time) : Call → Option (Row → Bool)
  | .tokens .deleteExpired => some (expiredSpent now)
  | .tokens .deleteExpiredUnused => some (expiredUnused now)
  | _ => none

section Guard

variable {cfg : Settings}

/-- Thread `t` has spent a token of the family `f` and not yet written its successor. -/
def Rotating (c : Config (service cfg)) (t : ℕ) (f : UUID) : Prop :=
  ∃ φ stored, At (c.phases (custody cfg)) t φ ∧ φ.rotation = .spent stored ∧ stored.familyID = f

/-- **The reaper spares rotations under way**: a reaper statement leaves a row to every family that
some thread is rotating. -/
def sparesRotations (c : Config (service cfg)) : Label (service cfg) → Prop
  | .act t => ∀ cl dead, c.pending t = some cl →
      reaperOf c.world.clock cl = some dead → ∀ u f, Rotating c u f →
      ∃ r ∈ (c.world.tokens.reapBatch dead).2.rows, r.familyID = f
  | _ => True

def sparesRotationsTest (c : Config (service cfg)) : Label (service cfg) → Bool
  | .act t => (c.pending t).all fun cl => (reaperOf c.world.clock cl).all fun dead =>
      (c.phases (custody cfg)).all fun p =>
        match p.2.rotation with
        | .spent stored =>
          (c.world.tokens.reapBatch dead).2.rows.any fun r => r.familyID == stored.familyID
        | _ => true
  | _ => true

theorem sparesRotations_of_test (c : Config (service cfg)) (l : Label (service cfg))
    (h : sparesRotationsTest c l) : sparesRotations c l := by
  cases l with
  | act =>
    rintro cl dead hcl hdead u f ⟨φ, stored, ⟨req, hφ⟩, hst, rfl⟩
    simp only [sparesRotationsTest, hcl, hdead, Option.all_some, all_eq_true] at h
    have hp := h (req, φ) (mem_of_getElem? hφ)
    simp only [hst, any_eq_true, beq_iff_eq] at hp
    exact hp
  | spawn | fault | nudge => trivial

/-- **No reaper runs.** -/
def noReaper (c : Config (service cfg)) : Label (service cfg) → Prop
  | .act t => ∀ cl : Call, c.pending t = some cl → reaperOf c.world.clock cl = none
  | _ => True

def noReaperTest (c : Config (service cfg)) : Label (service cfg) → Bool
  | .act t => (c.pending t).all fun cl => (reaperOf c.world.clock cl).isNone
  | _ => true

theorem noReaper_of_test (c : Config (service cfg)) (l : Label (service cfg))
    (h : noReaperTest c l) : noReaper c l := by
  cases l with
  | act =>
    intro cl hcl
    simp only [noReaperTest, hcl, Option.all_some, Option.isNone_iff_eq_none] at h
    exact h
  | spawn | fault | nudge => trivial

theorem sparesRotations_of_noReaper (c : Config (service cfg)) (l : Label (service cfg))
    (h : noReaper c l) : sparesRotations c l := by
  cases l with
  | act =>
    intro cl dead hcl hdead
    rw [h cl hcl] at hdead
    cases hdead
  | spawn | fault | nudge => trivial

end Guard

/-! ### Kinship -/

/-- Two rows carry the same identity of a family. -/
structure Row.Kin (r r' : Row) : Prop where
  userID : r.userID = r'.userID
  deviceID : r.deviceID = r'.deviceID
  familyCreatedAt : r.familyCreatedAt = r'.familyCreatedAt
  dpopJKT : r.dpopJKT = r'.dpopJKT

theorem Row.Kin.symm (h : r.Kin r') : r'.Kin r :=
  ⟨h.userID.symm, h.deviceID.symm, h.familyCreatedAt.symm, h.dpopJKT.symm⟩

/-- A scope covers a family as a whole. -/
theorem Scope.covers_of_kin {sc : Scope} (hk : r.Kin r')
    (hf : r.familyID = r'.familyID) (h : sc.covers r) : sc.covers r' := by
  cases sc with
  | family =>
    rw [Scope.covers, ← hf]
    exact h
  | user =>
    rw [Scope.covers, ← hk.userID]
    exact h
  | device =>
    rw [Scope.covers, ← hk.deviceID]
    exact h
  | everything => rfl

/-! ### The columns an insert reads back -/

/-- The least element of a list all of whose elements are equal. -/
theorem min?_of_forall_eq {α : Type} [LinearOrder α] {l : List α} {a : α} (hne : l ≠ [])
    (h : ∀ x ∈ l, x = a) : l.min? = some a := by
  rw [min?_eq_some_iff]
  obtain ⟨x, l, rfl⟩ := exists_cons_of_ne_nil hne
  refine ⟨?_, fun b hb => (h b hb).ge⟩
  rw [h x mem_cons_self]
  exact mem_cons_self

namespace TokenStore

theorem mem_family : r ∈ s.family f ↔ r ∈ s.rows ∧ r.familyID = f := by
  simp [family]

theorem family_eq_nil (h : ∀ r ∈ s.rows, r.familyID ≠ f) : s.family f = [] := by
  rw [eq_nil_iff_forall_not_mem]
  intro r hr
  obtain ⟨hr, hf⟩ := mem_family.mp hr
  exact h r hr hf

/-- A family whose rows agree on its birth date has it. -/
theorem minCreatedAt_of_agree (hr : r ∈ s.family f)
    (h : ∀ r' ∈ s.family f, r'.familyCreatedAt = r.familyCreatedAt) :
    s.minCreatedAt f = some r.familyCreatedAt := by
  refine min?_of_forall_eq (ne_nil_of_mem (mem_map_of_mem hr)) fun x hx => ?_
  obtain ⟨r', hr', rfl⟩ := mem_map.mp hx
  exact h r' hr'

/-- A successor takes the family's birth date from any row of it, when they agree on it. -/
theorem rowToInsert_familyCreatedAt (hr : r ∈ s.family tok.familyID)
    (hkin : ∀ r' ∈ s.family tok.familyID, r'.Kin r) :
    (s.rowToInsert tok).familyCreatedAt = r.familyCreatedAt := by
  have hmin := minCreatedAt_of_agree hr fun r' hr' => (hkin r' hr').familyCreatedAt
  simp only [rowToInsert, hmin, Option.getD_some]

/-- A successor takes the family's sender key from any row of it, when they agree on it. -/
theorem rowToInsert_dpopJKT (hr : r ∈ s.family tok.familyID)
    (h : ∀ r' ∈ s.family tok.familyID, r'.dpopJKT = r.dpopJKT) :
    (s.rowToInsert tok).dpopJKT = r.dpopJKT := by
  have hlen : (s.family tok.familyID).length ≠ 0 := by
    intro h0
    rw [length_eq_zero_iff.mp h0] at hr
    cases hr
  simp only [rowToInsert, if_neg hlen]
  cases hjkt : r.dpopJKT with
  | none =>
    -- an unbound family has no key to read back
    have hnil : (s.family tok.familyID).filterMap (fun r => r.dpopJKT) = [] := by
      refine filterMap_eq_nil_iff.mpr fun r' hr' => ?_
      exact (h r' hr').trans hjkt
    rw [hnil]
    rfl
  | some =>
    refine min?_of_forall_eq ?_ ?_
    · refine ne_nil_of_mem (mem_filterMap.mpr ⟨r, hr, hjkt⟩)
    · intro x hx
      obtain ⟨r', hr', hx'⟩ := mem_filterMap.mp hx
      rw [h r' hr', hjkt] at hx'
      exact (Option.some.inj hx').symm

end TokenStore

/-! ### What a step marks -/

section Step

variable {cap : ℤ} {t : ℕ} {w : World} {φ φ' : Custody} {cl : Call} {s' : TokenStore}
  {n' : ℕ} {req : Req}

theorem mem_revokeIds {rows : List Row} {ids : List UUID}
    (h : r ∈ revokeIds rows ids) :
    ∃ r₀ ∈ rows, r₀.Ages r ∧ (r.revoked ↔ r₀.revoked ∨ r₀.id ∈ ids) := by
  obtain ⟨r₀, hr₀, rfl⟩ := mem_map.mp h
  refine ⟨r₀, hr₀, ?_⟩
  split
  next hid => exact ⟨ages_revoked r₀, by simp [hid]⟩
  next hid => exact ⟨.refl r₀, by simp [hid]⟩

section

variable (h : TableStep cap t w φ cl s' n' φ')
include h

/-- **What a step revokes**: the rows that the transaction of its thread has marked, if it commits,
and no others; the history records their families. -/
theorem TableStep.marks :
    ∃ ids : List UUID, (ids = [] ∨ ∃ x ∈ w.tokens.txns, x.owner = t ∧ ids = x.revoking) ∧
      (∀ r ∈ s'.rows, Born cap t w φ cl φ' r ∨ ∃ r₀ ∈ w.tokens.rows, r₀.Ages r ∧
        (r.revoked ↔ r₀.revoked ∨ r₀.id ∈ ids)) ∧
      (∀ f, TableEvent.burned f ∈ s'.log ↔
        f ∈ familiesOf w.tokens.rows ids ∨ TableEvent.burned f ∈ w.tokens.log) := by
  have quiet : ∀ {s : TokenStore}, (∀ r ∈ s.rows, Born cap t w φ cl φ' r ∨
        ∃ r₀ ∈ w.tokens.rows, r₀.Ages r ∧ (r.revoked ↔ r₀.revoked)) →
      (∀ f, TableEvent.burned f ∈ s.log ↔ TableEvent.burned f ∈ w.tokens.log) →
      ∃ ids : List UUID, (ids = [] ∨ ∃ x ∈ w.tokens.txns, x.owner = t ∧ ids = x.revoking) ∧
        (∀ r ∈ s.rows, Born cap t w φ cl φ' r ∨ ∃ r₀ ∈ w.tokens.rows, r₀.Ages r ∧
          (r.revoked ↔ r₀.revoked ∨ r₀.id ∈ ids)) ∧
        (∀ f, TableEvent.burned f ∈ s.log ↔
          f ∈ familiesOf w.tokens.rows ids ∨ TableEvent.burned f ∈ w.tokens.log) := by
    intro s hrows hlog
    refine ⟨[], .inl rfl, fun r hr => ?_, fun f => ?_⟩
    · simpa using hrows r hr
    · rw [hlog f]
      simp [familiesOf]
  have same : ∀ r ∈ w.tokens.rows, Born cap t w φ cl φ' r ∨
      ∃ r₀ ∈ w.tokens.rows, r₀.Ages r ∧ (r.revoked ↔ r₀.revoked) :=
    fun r hr => .inr ⟨r, hr, .refl r, Iff.rfl⟩
  cases h with
  | create hfresh htxn hkind hguard hdup hfree =>
    refine quiet (fun r hr => ?_) (fun f => by simp [TokenStore.insert])
    rcases mem_append.mp hr with hr | hr
    · exact same r hr
    · rw [mem_singleton] at hr
      subst hr
      exact .inl (.created hfresh htxn hkind hguard hfree)
  | commit htxn hx howner =>
    rename_i x
    refine ⟨x.revoking, .inr ⟨x, hx, howner, rfl⟩, fun r hr => ?_, fun f => ?_⟩
    · rcases mem_append.mp hr with hr | hr
      · exact .inr (mem_revokeIds hr)
      · exact .inl (.committed hx howner (Option.mem_toList.mp hr))
    · simp [committed]
  | spend hmay hr =>
    refine quiet (fun r hr => .inr ?_) (fun f => Iff.rfl)
    obtain ⟨r₀, hr₀, rfl⟩ := mem_map.mp hr
    refine ⟨r₀, hr₀, ?_⟩
    split
    · exact ⟨ages_used r₀, Iff.rfl⟩
    · exact ⟨.refl r₀, Iff.rfl⟩
  | reap =>
    exact quiet (fun r hr => same r (mem_of_mem_reapBatch hr)) (fun f => Iff.rfl)
  | _ => exact quiet same (fun f => Iff.rfl)

/-- Only a reaper deletes rows. -/
theorem TableStep.persist :
    (∃ dead, reaperOf w.clock cl = some dead ∧ s' = (w.tokens.reapBatch dead).2 ∧ φ' = φ) ∨
      ∀ r ∈ w.tokens.rows, ∃ r' ∈ s'.rows, r.Ages r' := by
  cases h with
  | create => exact .inr fun r hr => ⟨r, mem_append_left _ hr, .refl r⟩
  | commit =>
    rename_i x _ _ _
    refine .inr fun r hr => ?_
    refine ⟨_, mem_append_left _ (mem_map_of_mem hr), ?_⟩
    split
    · exact ages_revoked r
    · exact .refl r
  | spend =>
    refine .inr fun r hr => ?_
    refine ⟨_, mem_map_of_mem hr, ?_⟩
    split
    · exact ages_used r
    · exact .refl r
  | reap hq =>
    rcases hq with ⟨rfl, rfl⟩ | ⟨rfl, rfl⟩
    · exact .inl ⟨_, rfl, rfl, rfl⟩
    · exact .inl ⟨_, rfl, rfl, rfl⟩
  | _ => exact .inr fun r hr => ⟨r, hr, .refl r⟩

/-- **What a transaction has marked.** It is nothing, or what it was, or what the thread's write
statement has just found: then every row of its scope is marked, and locked. -/
theorem TableStep.revoking (hfits : ∀ y ∈ w.tokens.txns, y.owner = t → y.Fits φ.txn) {x : Txn}
    (hx : x ∈ s'.txns) :
    (x.revoking = [] ∧ x.owner = t ∧ ∀ sc, φ'.txn ≠ .revoking sc) ∨
    (∃ y ∈ w.tokens.txns, y.owner = x.owner ∧ x.revoking = y.revoking ∧ y.locked ⊆ x.locked ∧
      (x.owner = t → φ'.txn = φ.txn)) ∨
    (∃ sc, x.owner = t ∧ φ'.txn = .revoking sc ∧ φ'.rotation = φ.rotation ∧
      s'.rows = w.tokens.rows ∧ s'.log = w.tokens.log ∧
      x.revoking = (w.tokens.rows.filter sc.covers).map (fun r => r.id) ∧
      x.revoking ⊆ x.locked) := by
  have old : x ∈ w.tokens.txns → (x.owner = t → φ'.txn = φ.txn) →
      ∃ y ∈ w.tokens.txns, y.owner = x.owner ∧ x.revoking = y.revoking ∧ y.locked ⊆ x.locked ∧
        (x.owner = t → φ'.txn = φ.txn) :=
    fun hmem heq => ⟨x, hmem, rfl, rfl, Subset.refl _, heq⟩
  have other : x ∈ w.tokens.txns ∧ x.owner ≠ t →
      ∃ y ∈ w.tokens.txns, y.owner = x.owner ∧ x.revoking = y.revoking ∧ y.locked ⊆ x.locked ∧
        (x.owner = t → φ'.txn = φ.txn) :=
    fun hx => old hx.1 fun heq => absurd heq hx.2
  have fits : ∀ {y p}, y ∈ w.tokens.txns → y.owner = t → φ.txn = p → y.Fits p :=
    fun hy hown htxn => htxn ▸ hfits _ hy hown
  cases h with
  | begin =>
    rcases mem_cons.mp hx with rfl | hx
    · exact .inl ⟨rfl, rfl, nofun⟩
    · exact .inr (.inl (other (mem_filter_owner hx)))
  | lockSessions htxn =>
    rcases mem_updateTxn hx with hx | ⟨y, hy, hown, rfl⟩
    · exact .inr (.inl (other hx))
    · exact .inl ⟨(fits hy hown htxn).1, hown, nofun⟩
  | count htxn =>
    by_cases hown : x.owner = t
    · exact .inl ⟨(fits hx hown htxn).1, hown, nofun⟩
    · exact .inr (.inl (other ⟨hx, hown⟩))
  | insert hfresh hborn htxn =>
    rcases mem_updateTxn hx with hx | ⟨y, hy, hown, rfl⟩
    · exact .inr (.inl (other hx))
    · exact .inl ⟨(fits hy hown htxn).1, hown, nofun⟩
  | refuse htxn =>
    rcases mem_updateTxn hx with hx | ⟨y, hy, hown, rfl⟩
    · exact .inr (.inl (other hx))
    · exact .inl ⟨(fits hy hown htxn).1, hown, fun sc hc => by rw [htxn] at hc; cases hc⟩
  | lockScope htxn =>
    rename_i sc
    rcases mem_updateTxn hx with hx | ⟨y, hy, hown, rfl⟩
    · exact .inr (.inl (other hx))
    · refine .inl ⟨?_, (owner_lock y _ _).trans hown, nofun⟩
      cases sc <;> exact (fits hy hown htxn).1
  | @revokeScope sc htxn =>
    rcases mem_updateTxn hx with hx | ⟨y, hy, hown, rfl⟩
    · exact .inr (.inl (other hx))
    · have hrev : (y.revoke sc w.tokens.rows).revoking =
          (w.tokens.rows.filter sc.covers).map (fun r => r.id) := by
        simp only [Txn.revoke, (fits hy hown htxn).1, nil_append]
      refine .inr (.inr ⟨sc, hown, rfl, rfl, rfl, rfl, hrev, ?_⟩)
      rw [hrev]
      exact subset_append_right _ _
  | commit htxn hx' howner =>
    subst howner
    exact .inr (.inl (other (mem_filter_owner hx)))
  | rollback => exact .inr (.inl (other (mem_filter_owner hx)))
  | _ => exact .inr (.inl (old hx fun _ => rfl))

/-- A scope a thread has revoked, it had revoked before or commits now. -/
theorem TableStep.burnt {sc : Scope} (hsc : sc ∈ φ'.burnt) :
    sc ∈ φ.burnt ∨ ∃ x ∈ w.tokens.txns, x.owner = t ∧ φ.txn = .revoking sc ∧
      s' = w.tokens.committed x ∧ φ'.rotation = φ.rotation := by
  cases h with
  | commit htxn hx howner =>
    rcases mem_append.mp hsc with hsc | hsc
    · cases htx : φ.txn with
      | revoking sc' =>
        rw [htx] at hsc
        obtain rfl : sc = sc' := mem_singleton.mp hsc
        exact .inr ⟨_, hx, howner, rfl, rfl, rfl⟩
      | _ =>
        rw [htx] at hsc
        cases hsc
    · exact .inl hsc
  | _ => exact .inl hsc

end

/-- What a row committed into an existing family owes to it: its thread has spent a token of the
family, none of whose rows is revoked or locked by anybody else. -/
structure Born.Successor (t : ℕ) (w : World) (φ φ' : Custody) (row : Row) (stored : RefreshToken)
    (tok : RefreshToken) : Prop where
  row_eq : row = w.tokens.rowToInsert tok
  successor : φ.Successor tok stored
  txn : φ.txn = .none
  unrevoked : ∀ r ∈ w.tokens.rows, r.familyID = row.familyID → r.revoked = false
  unlocked : ∀ r ∈ w.tokens.rows, r.familyID = row.familyID → w.tokens.rowLocked t r.id = false

theorem unlocked_of_not_writeBlocked {needs : Row → Bool}
    (h : s.writeBlocked t needs = false) (hr : r ∈ s.rows) (hn : needs r) :
    s.rowLocked t r.id = false := by
  simp only [writeBlocked, Bool.or_eq_false_iff, any_eq_false,
    Bool.and_eq_true, not_and, Bool.not_eq_true] at h
  exact h.2 r hr hn

/-- The guard of the insert sees every row of the family, and waits for those that are locked. -/
theorem successor_of_guard (hsucc : φ.Successor tok stored)
    (htxn : φ.txn = .none) (hguard : w.tokens.insertGuard w.users tok)
    (hfree : w.tokens.writeBlocked t (fun r => r.familyID == tok.familyID) = false) :
    Born.Successor t w φ φ' (w.tokens.rowToInsert tok) stored tok := by
  refine ⟨rfl, hsucc, htxn, ?_, ?_⟩
  · intro r hr hf
    simp only [insertGuard, Bool.and_eq_true, Bool.not_eq_true',
      any_eq_false, Bool.not_eq_true] at hguard
    exact hguard.1 r (mem_family.mpr ⟨hr, hf⟩)
  · intro r hr hf
    exact unlocked_of_not_writeBlocked hfree hr (beq_iff_eq.mpr hf)

/-- A committed row is the first of its family, or the successor of a token its thread has spent. -/
theorem Born.new_or_successor {row : Row} (h : Born cap t w φ cl φ' row)
    (hL : Ledger w.tokens w.supply ps) (hat : At ps t φ) :
    (∀ r, .inserted r ∈ w.tokens.log → r.familyID ≠ row.familyID) ∨
      ∃ stored tok, Born.Successor t w φ φ' row stored tok := by
  cases h with
  | created hfresh htxn hkind hguard hfree =>
    rename_i tok
    rcases hkind with ⟨-, hborn⟩ | ⟨stored, hsucc⟩
    · exact .inl fun _ => hL.not_logged_of_firstborn hat hfresh hborn
    · exact .inr ⟨stored, tok, successor_of_guard hsucc htxn hguard hfree⟩
  | committed hx howner hrow => exact .inl fun r hr => (hL.pending_new hx hrow hr).2

end Step

/-! ### The invariant -/

/-- All rows of the family are revoked. -/
def TokenStore.Dead (s : TokenStore) (f : UUID) : Prop :=
  ∀ r ∈ s.rows, r.familyID = f → r.revoked

/-- A row of the family has been committed. -/
def TokenStore.Known (s : TokenStore) (f : UUID) : Prop :=
  ∃ r, TableEvent.inserted r ∈ s.log ∧ r.familyID = f

/-- **What the rows of a family have in common**, under every schedule that spares rotations. -/
structure Families (s : TokenStore) (ps : List (Req × Custody)) : Prop where
  kin : ∀ {r r'}, .inserted r ∈ s.log → .inserted r' ∈ s.log → r.familyID = r'.familyID → r.Kin r'
  /-- A rotation between its two statements finds a row of its family. -/
  present : ∀ {t φ stored}, At ps t φ → φ.rotation = .spent stored →
    ∃ r ∈ s.rows, r.familyID = stored.familyID
  /-- The rows of a family are revoked together. -/
  revoked : ∀ {r r'}, r ∈ s.rows → r' ∈ s.rows → r.familyID = r'.familyID → r.revoked →
    r'.revoked
  /-- A revocation under way has marked all rows of a family, or none. -/
  whole : ∀ {x r r'}, x ∈ s.txns → r ∈ s.rows → r.id ∈ x.revoking → r' ∈ s.rows →
    r'.familyID = r.familyID → r'.id ∈ x.revoking
  marked_locked : ∀ {x}, x ∈ s.txns → x.revoking ⊆ x.locked
  marked_logged : ∀ {x id}, x ∈ s.txns → id ∈ x.revoking → ∃ r, .inserted r ∈ s.log ∧ r.id = id
  /-- A refresh that revokes the family of its token has marked all rows of it. -/
  contains : ∀ {x φ tok r}, x ∈ s.txns → At ps x.owner φ → φ.rotation.stored = some tok →
    φ.txn = .revoking (.family tok.familyID) → r ∈ s.rows → r.familyID = tok.familyID →
    r.id ∈ x.revoking
  /-- A committed revocation of a family has reached all of it. -/
  burned : ∀ {f}, .burned f ∈ s.log → s.Known f ∧ s.Dead f
  /-- So has the revocation with which a refresh contained its token; and the family of a token that
  was read revoked had been revoked before. -/
  contained : ∀ {t φ tok}, At ps t φ → φ.rotation.stored = some tok →
    .family tok.familyID ∈ φ.burnt ∨ tok.revoked → s.Dead tok.familyID
  /-- No row of a family is committed after a revocation of it. The history has the latest event
  first. -/
  ordered : s.log.Pairwise fun e e' => ∀ r f, e = .inserted r → e' = .burned f → r.familyID ≠ f

namespace Families

section Step

variable {cap : ℤ} {t : ℕ} {w : World} {φ φ' : Custody} {cl : Call} {s' : TokenStore}
  {n' : ℕ} {req : Req} {row : Row} {x : Txn}

variable (hF : Families w.tokens ps) (hL : Ledger w.tokens w.supply ps)
  (h : TableStep cap t w φ cl s' n' φ') (hat : At ps t φ)
  (hspare : ∀ dead, reaperOf w.clock cl = some dead → ∀ u ψ stored, At ps u ψ →
    ψ.rotation = .spent stored →
    ∃ r ∈ (w.tokens.reapBatch dead).2.rows, r.familyID = stored.familyID)

include h in
theorem known_step (hknown : w.tokens.Known f) :
    s'.Known f := by
  obtain ⟨born, -, -, hlog, -⟩ := h.rows
  obtain ⟨r, hr, hf⟩ := hknown
  exact ⟨r, (hlog r).mpr (.inr hr), hf⟩

include hF

/-- The ids a step marks are whole families, and the thread that marks them commits no row. -/
theorem marks_whole {ids : List UUID}
    (hids : ids = [] ∨ ∃ x ∈ w.tokens.txns, x.owner = t ∧ ids = x.revoking) (hr : r ∈ w.tokens.rows)
    (hid : r.id ∈ ids) (hr' : r' ∈ w.tokens.rows) (hf : r'.familyID = r.familyID) :
    r'.id ∈ ids := by
  rcases hids with rfl | ⟨x, hx, -, rfl⟩
  · cases hid
  · exact hF.whole hx hr hid hr' hf

include hL

theorem rows_kin (hr : r ∈ w.tokens.rows) (hr' : r' ∈ w.tokens.rows)
    (hf : r.familyID = r'.familyID) : r.Kin r' := by
  have hk := hF.kin (hL.rows_logged r hr) (hL.rows_logged r' hr') hf
  exact ⟨hk.userID, hk.deviceID, hk.familyCreatedAt, hk.dpopJKT⟩

include hat

/-- A family that is known and dead gets no row: a new row would be of a new family, or find a row
of its family that is revoked. -/
theorem born_ne_of_dead (hb : Born cap t w φ cl φ' row) (hknown : w.tokens.Known f)
    (hdead : w.tokens.Dead f) : row.familyID ≠ f := by
  intro heq
  obtain ⟨r, hr, hrf⟩ := hknown
  rcases hb.new_or_successor hL hat with hnew | ⟨stored, tok, hsucc⟩
  · exact hnew r hr (hrf.trans heq.symm)
  · obtain ⟨r₀, hr₀, hf₀⟩ := hF.present hat hsucc.successor.rotation
    have hrow : r₀.familyID = row.familyID := by
      rw [hf₀, hsucc.row_eq, ← hsucc.successor.family]
      rfl
    have hrev := hdead r₀ hr₀ (hrow.trans heq)
    rw [hsucc.unrevoked r₀ hr₀ hrow] at hrev
    cases hrev

/-- A successor carries the identity of its family. -/
theorem successor_kin (hsucc : Born.Successor t w φ φ' row stored tok)
    (hr : .inserted r ∈ w.tokens.log) (hf : r.familyID = row.familyID) : row.Kin r := by
  obtain ⟨r₀, hr₀, hf₀⟩ := hF.present hat hsucc.successor.rotation
  have htok : tok.familyID = stored.familyID := hsucc.successor.family
  have hrow : row = w.tokens.rowToInsert tok := hsucc.row_eq
  -- the row the token was read from says whose session it is
  obtain ⟨r₁, hr₁, hmodel⟩ := hL.spent_logged hat hsucc.successor.rotation
  have huser : r₁.userID = stored.userID := congrArg RefreshToken.userID hmodel
  have hdev : r₁.deviceID = stored.deviceID := congrArg RefreshToken.deviceID hmodel
  have hfam : r₁.familyID = stored.familyID := congrArg RefreshToken.familyID hmodel
  have hk₁ : r₁.Kin r := by
    refine hF.kin hr₁ hr ?_
    rw [hfam, hf, hrow, ← htok]
    rfl
  -- the rows that are still there say when it began and whom it is bound to
  have hmem : r₀ ∈ w.tokens.family tok.familyID :=
    mem_family.mpr ⟨hr₀, hf₀.trans htok.symm⟩
  have hkin : ∀ r' ∈ w.tokens.family tok.familyID, r'.Kin r₀ := by
    intro r' hr'
    obtain ⟨hr', hf'⟩ := mem_family.mp hr'
    exact hF.rows_kin hL hr' hr₀ (hf'.trans (htok.trans hf₀.symm))
  have hk₀ : r₀.pristine.Kin r := by
    refine hF.kin (hL.rows_logged r₀ hr₀) hr ?_
    rw [hf, hrow]
    exact hf₀.trans htok.symm
  constructor
  · rw [hrow, ← hk₁.userID, huser]
    exact hsucc.successor.user
  · rw [hrow, ← hk₁.deviceID, hdev]
    exact hsucc.successor.device
  · rw [hrow, rowToInsert_familyCreatedAt hmem hkin]
    exact hk₀.familyCreatedAt
  · rw [hrow, rowToInsert_dpopJKT hmem fun r' hr' => (hkin r' hr').dpopJKT]
    exact hk₀.dpopJKT

/-- A row committed into a family that somebody else holds locked: there is none. -/
theorem born_not_locked (hb : Born cap t w φ cl φ' row) {y : Txn} (hy : y ∈ w.tokens.txns)
    (hne : y.owner ≠ t) (hr : r ∈ w.tokens.rows) (hid : r.id ∈ y.revoking) :
    r.familyID ≠ row.familyID := by
  intro heq
  rcases hb.new_or_successor hL hat with hnew | ⟨stored, tok, hsucc⟩
  · exact hnew _ (hL.rows_logged r hr) heq
  · have hfree := hsucc.unlocked r hr heq
    have hlocked : w.tokens.rowLocked t r.id := by
      refine any_eq_true.mpr ⟨y, hy, ?_⟩
      simp only [Bool.and_eq_true, bne_iff_ne, ne_eq, hne, not_false_eq_true,
        contains_iff_mem, true_and]
      exact hF.marked_locked hy hid
    rw [hfree] at hlocked
    cases hlocked

include h

theorem dead_step (hknown : w.tokens.Known f) (hdead : w.tokens.Dead f) : s'.Dead f := by
  obtain ⟨born, hborn, hrows, -, -⟩ := h.rows
  intro r hr hf
  rcases hrows r hr with hb | ⟨r₀, hr₀, hage⟩
  · exact absurd hf (hF.born_ne_of_dead hL hat (hborn r hb) hknown hdead)
  · exact hage.revoked (hdead r₀ hr₀ (hage.familyID.symm.trans hf))

theorem step_kin (hr : .inserted r ∈ s'.log) (hr' : .inserted r' ∈ s'.log)
    (hf : r.familyID = r'.familyID) : r.Kin r' := by
  obtain ⟨born, hborn, -, hlog, -⟩ := h.rows
  have fresh : ∀ row ∈ born, ∀ r₀, .inserted r₀ ∈ w.tokens.log → r₀.familyID = row.familyID →
      row.Kin r₀ := by
    intro row hb r₀ hr₀ heq
    rcases (hborn row hb).new_or_successor hL hat with hnew | ⟨stored, tok, hsucc⟩
    · exact absurd heq (hnew r₀ hr₀)
    · exact hF.successor_kin hL hat hsucc hr₀ heq
  rcases (hlog r).mp hr with hb | hr
  · rcases (hlog r').mp hr' with hb' | hr'
    · rw [Option.mem_unique hb hb']
      exact ⟨rfl, rfl, rfl, rfl⟩
    · exact fresh r hb r' hr' hf.symm
  · rcases (hlog r').mp hr' with hb' | hr'
    · exact (fresh r' hb' r hr hf).symm
    · exact hF.kin hr hr' hf

theorem step_revoked (hr : r ∈ s'.rows) (hr' : r' ∈ s'.rows) (hf : r.familyID = r'.familyID)
    (hrev : r.revoked) : r'.revoked := by
  obtain ⟨ids, hids, hrows, -⟩ := h.marks
  have unrevoked : ∀ {row}, Born cap t w φ cl φ' row → row.revoked = false := by
    intro row hb
    rw [← hb.pristine hL]
    rfl
  rcases hrows r hr with hb | ⟨r₀, hr₀, hage, hiff⟩
  · rw [unrevoked hb] at hrev
    cases hrev
  rcases hrows r' hr' with hb' | ⟨r₁, hr₁, hage', hiff'⟩
  · -- nothing is committed into a family that has a revoked row
    rcases hb'.new_or_successor hL hat with hnew | ⟨stored, tok, hsucc⟩
    · exact (hnew _ (hL.rows_logged r₀ hr₀) (hage.familyID.symm.trans hf)).elim
    · have hun := hsucc.unrevoked r₀ hr₀ (hage.familyID.symm.trans hf)
      rcases hiff.mp hrev with h₀ | hid
      · rw [hun] at h₀
        cases h₀
      · -- the thread that commits the row has no transaction to mark rows in
        rcases hids with rfl | ⟨x, hx, hown, -⟩
        · cases hid
        · have hfit := hL.own_fits hat x hx hown
          rw [hsucc.txn] at hfit
          exact hfit.elim
  · have hf₀ : r₁.familyID = r₀.familyID :=
      hage'.familyID.symm.trans (hf.symm.trans hage.familyID)
    rcases hiff.mp hrev with h₀ | hid
    · exact hiff'.mpr (.inl (hF.revoked hr₀ hr₁ hf₀.symm h₀))
    · exact hiff'.mpr (.inr (hF.marks_whole hids hr₀ hid hr₁ hf₀))

omit hF in
/-- A thread that has just committed a row owns no transaction. -/
theorem owner_ne_of_born (hb : Born cap t w φ cl φ' row) (hx : x ∈ s'.txns) : x.owner ≠ t := by
  rcases h.txn (hL.own_fits hat) hx with ⟨-, hne⟩ | ⟨-, hfit⟩
  · exact hne
  · rw [hb.txn] at hfit
    exact hfit.elim

theorem step_marked_logged {id : UUID} (hx : x ∈ s'.txns) (hid : id ∈ x.revoking) :
    ∃ r, .inserted r ∈ s'.log ∧ r.id = id := by
  obtain ⟨born, -, -, hlog, -⟩ := h.rows
  rcases h.revoking (hL.own_fits hat) hx with ⟨hnil, -, -⟩ | ⟨y, hy, -, hrev, -, -⟩ |
    ⟨sc, -, -, -, -, -, hrev, -⟩
  · rw [hnil] at hid
    cases hid
  · rw [hrev] at hid
    obtain ⟨r, hr, hrid⟩ := hF.marked_logged hy hid
    exact ⟨r, (hlog r).mpr (.inr hr), hrid⟩
  · rw [hrev] at hid
    obtain ⟨r, hr, rfl⟩ := mem_map.mp hid
    exact ⟨r.pristine, (hlog _).mpr (.inr (hL.rows_logged r (mem_of_mem_filter hr))), rfl⟩

theorem step_whole (hx : x ∈ s'.txns) (hr : r ∈ s'.rows) (hid : r.id ∈ x.revoking)
    (hr' : r' ∈ s'.rows) (hf : r'.familyID = r.familyID) : r'.id ∈ x.revoking := by
  rcases h.revoking (hL.own_fits hat) hx with ⟨hnil, -, -⟩ | ⟨y, hy, hown, hrev, -, -⟩ |
    ⟨sc, -, -, -, hrows, -, hrev, -⟩
  · rw [hnil] at hid
    cases hid
  · obtain ⟨born, hborn, hrows, -, -⟩ := h.rows
    rw [hrev] at hid ⊢
    rcases hrows r hr with hb | ⟨r₀, hr₀, hage⟩
    · -- a row just committed has an id no transaction can have marked
      obtain ⟨r₁, hr₁, hid₁⟩ := hF.marked_logged hy hid
      exact absurd hid₁ (((hborn r hb).id hL hat).2.2 r₁ hr₁)
    rw [hage.id] at hid
    rcases hrows r' hr' with hb' | ⟨r₁, hr₁, hage'⟩
    · have hne : y.owner ≠ t := hown ▸ owner_ne_of_born hL h hat (hborn r' hb') hx
      exact absurd (hage.familyID.symm.trans hf.symm)
        (hF.born_not_locked hL hat (hborn r' hb') hy hne hr₀ hid)
    · rw [hage'.id]
      exact hF.whole hy hr₀ hid hr₁ (hage'.familyID.symm.trans (hf.trans hage.familyID))
  · -- the write statement has just marked its scope, and a scope covers whole families
    rw [hrows] at hr hr'
    rw [hrev] at hid ⊢
    obtain ⟨r₁, hr₁, hid₁⟩ := mem_map.mp hid
    obtain ⟨hr₁, hcov⟩ := mem_filter.mp hr₁
    obtain rfl : r₁ = r := hL.row_eq hr₁ hr hid₁
    refine mem_map.mpr ⟨r', mem_filter.mpr ⟨hr', ?_⟩, rfl⟩
    exact Scope.covers_of_kin (hF.rows_kin hL hr hr' hf.symm) hf.symm hcov

theorem step_marked_locked (hx : x ∈ s'.txns) : x.revoking ⊆ x.locked := by
  rcases h.revoking (hL.own_fits hat) hx with ⟨hnil, -, -⟩ | ⟨y, hy, -, hrev, hsub, -⟩ |
    ⟨sc, -, -, -, -, -, -, hsub⟩
  · rw [hnil]
    exact nil_subset _
  · rw [hrev]
    exact Subset.trans (hF.marked_locked hy) hsub
  · exact hsub

theorem step_contains (hx : x ∈ s'.txns) (hψ : At (ps.set t (req, φ')) x.owner ψ)
    (hst : ψ.rotation.stored = some tok) (htxn : ψ.txn = .revoking (.family tok.familyID))
    (hr : r ∈ s'.rows) (hf : r.familyID = tok.familyID) : r.id ∈ x.revoking := by
  -- the transaction has marked the family before, or does so now
  have old : ∀ ψ₀, At ps x.owner ψ₀ → ψ₀.rotation.stored = some tok →
      ψ₀.txn = .revoking (.family tok.familyID) → ∀ y ∈ w.tokens.txns, y.owner = x.owner →
      x.revoking = y.revoking → r.id ∈ x.revoking := by
    intro ψ₀ hψ₀ hst₀ htxn₀ y hy hown hrev
    obtain ⟨born, hborn, hrows, -, -⟩ := h.rows
    have hψy : At ps y.owner ψ₀ := by
      rw [hown]
      exact hψ₀
    rw [hrev]
    rcases hrows r hr with hb | ⟨r₀, hr₀, hage⟩
    · exfalso
      have hne : y.owner ≠ t := hown ▸ owner_ne_of_born hL h hat (hborn r hb) hx
      rcases (hborn r hb).new_or_successor hL hat with hnew | ⟨stored, tok', hsucc⟩
      · obtain ⟨r₁, hr₁, -, hf₁⟩ := hL.stored_family hψ₀ hst₀
        exact hnew r₁ hr₁ (hf₁.trans hf.symm)
      · -- the rotation that writes into the family would find one of its rows locked
        obtain ⟨r₀, hr₀, hf₀⟩ := hF.present hat hsucc.successor.rotation
        have hrow : r₀.familyID = r.familyID := by
          rw [hf₀, hsucc.row_eq, ← hsucc.successor.family]
          rfl
        have hmark := hF.contains hy hψy hst₀ htxn₀ hr₀ (hrow.trans hf)
        exact hF.born_not_locked hL hat (hborn r hb) hy hne hr₀ hmark hrow
    · rw [hage.id]
      exact hF.contains hy hψy hst₀ htxn₀ hr₀ (hage.familyID.symm.trans hf)
  rcases h.revoking (hL.own_fits hat) hx with ⟨-, hown, hno⟩ | ⟨y, hy, hown, hrev, -, hsame⟩ |
    ⟨sc, hown, htxn', hrot, hrows, -, hrev, -⟩
  · rw [hown] at hψ
    rw [hψ.unique hat.set_self] at htxn
    exact absurd htxn (hno _)
  · rcases hψ.of_set with ⟨hxt, rfl⟩ | ⟨hne, hψ₀⟩
    · have htxn₀ : φ.txn = .revoking (.family tok.familyID) := (hsame hxt).symm.trans htxn
      rcases h.stored_or_read with hst' | ⟨-, -, -, hnone⟩
      · rw [hst'] at hst
        exact old φ (by rw [hxt]; exact hat) hst htxn₀ y hy hown hrev
      · rw [hnone] at htxn
        cases htxn
    · exact old ψ hψ₀ hst htxn y hy hown hrev
  · have hψ' : ψ = φ' := by
      rw [hown] at hψ
      exact hψ.unique hat.set_self
    rw [hψ', htxn'] at htxn
    obtain rfl : sc = .family tok.familyID := TxnPhase.revoking.inj htxn
    rw [hrev]
    rw [hrows] at hr
    exact mem_map.mpr ⟨r, mem_filter.mpr ⟨hr, beq_iff_eq.mpr hf⟩, rfl⟩

theorem step_burned (hf : .burned f ∈ s'.log) : s'.Known f ∧ s'.Dead f := by
  obtain ⟨ids, hids, hrows, hlog⟩ := h.marks
  rcases (hlog f).mp hf with hfam | hf
  · simp only [familiesOf, mem_dedup, mem_map, mem_filter,
      decide_eq_true_eq] at hfam
    obtain ⟨r₀, ⟨hr₀, hid₀⟩, rfl⟩ := hfam
    refine ⟨known_step h ⟨r₀.pristine, hL.rows_logged r₀ hr₀, rfl⟩, ?_⟩
    intro r hr hfr
    rcases hrows r hr with hb | ⟨r₁, hr₁, hage, hiff⟩
    · rcases hb.new_or_successor hL hat with hnew | ⟨stored, tok, hsucc⟩
      · exact (hnew _ (hL.rows_logged r₀ hr₀) hfr.symm).elim
      · rcases hids with rfl | ⟨x, hx, hown, -⟩
        · cases hid₀
        · have hfit := hL.own_fits hat x hx hown
          rw [hsucc.txn] at hfit
          exact hfit.elim
    · exact hiff.mpr (.inr (hF.marks_whole hids hr₀ hid₀ hr₁ (hage.familyID.symm.trans hfr)))
  · obtain ⟨hknown, hdead⟩ := hF.burned hf
    exact ⟨known_step h hknown, hF.dead_step hL h hat hknown hdead⟩

theorem step_contained {u : ℕ} (hψ : At (ps.set t (req, φ')) u ψ)
    (hst : ψ.rotation.stored = some tok)
    (hburnt : .family tok.familyID ∈ ψ.burnt ∨ tok.revoked) : s'.Dead tok.familyID := by
  have stay : ∀ {v χ}, At ps v χ → χ.rotation.stored = some tok →
      .family tok.familyID ∈ χ.burnt ∨ tok.revoked → s'.Dead tok.familyID := by
    intro v χ hχ hst hburnt
    obtain ⟨r, hr, -, hf⟩ := hL.stored_family hχ hst
    exact hF.dead_step hL h hat ⟨r, hr, hf⟩ (hF.contained hχ hst hburnt)
  rcases hψ.of_set with ⟨rfl, rfl⟩ | ⟨-, hψ⟩
  · rcases h.stored_or_read with hst' | ⟨⟨r, hr, hst'⟩, rfl, hnil, -⟩
    · rw [hst'] at hst
      rcases hburnt with hburnt | hrev
      · rcases h.burnt hburnt with hburnt | ⟨x, hx, rfl, htxn, rfl, -⟩
        · exact stay hat hst (.inl hburnt)
        · -- the revocation commits now: everything it had to reach is marked
          intro r hr hf
          rcases mem_append.mp hr with hr | hr
          · obtain ⟨r₀, hr₀, hage, hiff⟩ := mem_revokeIds hr
            exact hiff.mpr (.inr (hF.contains hx hat hst htxn hr₀ (hage.familyID.symm.trans hf)))
          · have hfit := hL.own_fits hat x hx rfl
            rw [htxn] at hfit
            have hnone : x.inserted = none := hfit
            rw [hnone] at hr
            cases hr
      · exact stay hat hst (.inr hrev)
    · -- the token has just been read
      rw [hst'] at hst
      obtain rfl : r.toModel = tok := Option.some.inj hst
      rcases hburnt with hburnt | hrev
      · rw [hnil] at hburnt
        cases hburnt
      · exact fun r' hr' hf => hF.revoked hr hr' hf.symm hrev
  · exact stay hψ hst hburnt

omit hF in
/-- What a step adds to the history: one row, or the families of a revocation, never both. -/
theorem log_append :
    ∃ new, s'.log = new ++ w.tokens.log ∧
      (∀ r, TableEvent.inserted r ∈ new → Born cap t w φ cl φ' r) ∧
      ((∀ r, TableEvent.inserted r ∉ new) ∨ ∀ f, TableEvent.burned f ∉ new) := by
  cases h with
  | create hfresh htxn hkind hguard hdup hfree =>
    refine ⟨[_], rfl, fun r hr => ?_, .inr (by simp)⟩
    rw [mem_singleton, TableEvent.inserted.injEq] at hr
    subst hr
    exact .created hfresh htxn hkind hguard hfree
  | commit htxn hx howner =>
    rename_i x
    have hfit := hL.own_fits hat x hx howner
    refine ⟨_, rfl, fun r hr => .committed hx howner (by simpa using hr), ?_⟩
    rcases htxn with htxn | ⟨sc, htxn⟩
    · rw [htxn] at hfit
      refine .inr ?_
      simp [hfit.1, familiesOf]
    · rw [htxn] at hfit
      have hnone : x.inserted = none := hfit
      refine .inl ?_
      simp [hnone]
  | _ => exact ⟨[], rfl, by simp, .inl (by simp)⟩

theorem step_ordered :
    s'.log.Pairwise fun e e' => ∀ r f, e = .inserted r → e' = .burned f → r.familyID ≠ f := by
  obtain ⟨new, hlog, hborn, hone⟩ := log_append hL h hat
  rw [hlog]
  refine pairwise_append.mpr ⟨?_, hF.ordered, ?_⟩
  · refine pairwise_of_forall_mem_list fun e he e' he' r f her hef => ?_
    subst her hef
    rcases hone with hno | hno
    · exact absurd he (hno r)
    · exact absurd he' (hno f)
  · intro e he e' he' r f her hef
    subst her hef
    obtain ⟨hknown, hdead⟩ := hF.burned he'
    exact hF.born_ne_of_dead hL hat (hborn r he) hknown hdead

include hspare

/-- A rotation still finds its family: rows are deleted by the reaper only, and it spares this
one. -/
theorem step_present {u : ℕ}
    (hψ : At (ps.set t (req, φ')) u ψ) (hst : ψ.rotation = .spent stored) :
    ∃ r ∈ s'.rows, r.familyID = stored.familyID := by
  rcases h.persist with ⟨dead, hdead, rfl, rfl⟩ | hpersist
  · -- the reaper's own thread has not moved
    rcases hψ.of_set with ⟨rfl, rfl⟩ | ⟨-, hψ⟩
    · exact hspare dead hdead _ _ _ hat hst
    · exact hspare dead hdead _ _ _ hψ hst
  · have found : ∃ r ∈ w.tokens.rows, r.familyID = stored.familyID := by
      rcases hψ.of_set with ⟨rfl, rfl⟩ | ⟨-, hψ⟩
      · rcases h.consumed with ⟨hspent, -⟩ | ⟨stored', r, hst', hφ', -, hr, hspend⟩
        · exact hF.present hat (hspent stored hst)
        · obtain rfl : stored' = stored := Rotation.spent.inj (hφ'.symm.trans hst)
          exact ⟨r, hr, (hL.row_of_stored hat hst' hr (live_of_spendable hspend).1).2.1⟩
      · exact hF.present hψ hst
    obtain ⟨r, hr, hf⟩ := found
    obtain ⟨r', hr', hage⟩ := hpersist r hr
    exact ⟨r', hr', hage.familyID.trans hf⟩

/-- **The invariant survives every step that spares rotations.** -/
theorem step :
    Families s' (ps.set t (req, φ')) where
  kin := hF.step_kin hL h hat
  present := hF.step_present hL h hat hspare
  revoked := hF.step_revoked hL h hat
  whole := hF.step_whole hL h hat
  marked_locked := hF.step_marked_locked hL h hat
  marked_logged := hF.step_marked_logged hL h hat
  contains := hF.step_contains hL h hat
  burned := hF.step_burned hL h hat
  contained := hF.step_contained hL h hat
  ordered := hF.step_ordered hL h hat

end Step

section Frame

theorem spawn (hF : Families s ps) (req : Req) : Families s (ps ++ [(req, .start)]) where
  kin := hF.kin
  present hat hst := hF.present (hat.of_snoc (by rintro rfl; cases hst)) hst
  revoked := hF.revoked
  whole := hF.whole
  marked_locked := hF.marked_locked
  marked_logged := hF.marked_logged
  contains hx hat hst := hF.contains hx (hat.of_snoc (by rintro rfl; cases hst)) hst
  burned := hF.burned
  contained hat hst := hF.contained (hat.of_snoc (by rintro rfl; cases hst)) hst
  ordered := hF.ordered

theorem rollback (hF : Families s ps) (t : ℕ) : Families (s.rollback t) ps where
  kin := hF.kin
  present := hF.present
  revoked := hF.revoked
  whole hx := hF.whole (mem_filter_owner hx).1
  marked_locked hx := hF.marked_locked (mem_filter_owner hx).1
  marked_logged hx := hF.marked_logged (mem_filter_owner hx).1
  contains hx := hF.contains (mem_filter_owner hx).1
  burned := hF.burned
  contained := hF.contained
  ordered := hF.ordered

end Frame

end Families

/-- **A coherent table**: well formed, and the rows of a family agree on what identifies it and are
revoked together. -/
structure TokenStore.Coherent (s : TokenStore) (supply : ℕ) : Prop extends s.WellFormed supply where
  kin : ∀ r ∈ s.rows, ∀ r' ∈ s.rows, r.familyID = r'.familyID → r.Kin r' ∧ r.revoked = r'.revoked

/-- The worlds a run can start from, when it is about families. -/
def World.Coherent (w : World) : Prop := w.tokens.Coherent w.supply

theorem TokenStore.Coherent.families {n : ℕ} (h : s.Coherent n) :
    Families s [] := by
  have unburned : ∀ {f}, .burned f ∉ s.log := by
    intro f hf
    rw [h.log] at hf
    obtain ⟨r₀, -, heq⟩ := mem_map.mp hf
    cases heq
  refine
    { kin := ?_
      present := fun hat => absurd hat not_at_nil
      revoked := fun hr hr' hf hrev => (h.kin _ hr _ hr' hf).2 ▸ hrev
      whole := fun hx => by rw [h.txns] at hx; cases hx
      marked_locked := fun hx => by rw [h.txns] at hx; cases hx
      marked_logged := fun hx => by rw [h.txns] at hx; cases hx
      contains := fun hx => by rw [h.txns] at hx; cases hx
      burned := fun hf => absurd hf unburned
      contained := fun hat => absurd hat not_at_nil
      ordered := ?_ }
  · intro r r' hr hr' hf
    obtain ⟨r₀, hr₀, rfl⟩ := h.row_of_logged hr
    obtain ⟨r₁, hr₁, rfl⟩ := h.row_of_logged hr'
    obtain ⟨hk, -⟩ := h.kin r₀ hr₀ r₁ hr₁ hf
    exact ⟨hk.userID, hk.deviceID, hk.familyCreatedAt, hk.dpopJKT⟩
  · refine pairwise_of_forall_mem_list fun e he e' he' r f _ hef => ?_
    subst hef
    exact absurd he' unburned

theorem families_invariant (cfg : Settings) :
    TableInvariant cfg World.Coherent sparesRotations
      (fun _ s n ps => Ledger s n ps ∧ Families s ps) where
  init _ hw := ⟨hw.toWellFormed.ledger, hw.families⟩
  spawn _ _ _ _ r h := ⟨h.1.spawn r, h.2.spawn r⟩
  refused w ps t r φ b ν h hat := by
    have hstep : TableStep cfg.maxSessionsPerUser t w φ .now w.tokens w.supply _ := .aside .now b ν
    exact ⟨h.1.step hstep ⟨r, hat⟩,
      h.2.step h.1 hstep ⟨r, hat⟩ nofun⟩
  step c t r φ cl s' n' φ' _ h hat hpend hok hstep := by
    refine ⟨h.1.step hstep ⟨r, hat⟩, h.2.step h.1 hstep ⟨r, hat⟩ ?_⟩
    intro dead hdead u ψ stored hψ hst
    exact hok cl dead hpend hdead u stored.familyID ⟨ψ, stored, hψ, hst, rfl⟩
  tick _ _ _ _ _ h := h
  disconnect _ _ _ _ t h := ⟨h.1.rollback t, h.2.rollback t⟩

end Vault42
