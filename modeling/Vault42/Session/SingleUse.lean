import Vault42.Session.Ledger

/-!
# A refresh token is used once

In every state that any schedule of refreshes, logins, logouts, revocations and reaper ticks can
reach, a family has at most one row that is neither used nor revoked, and a token is the parent of
at most one successor.

The count of live rows alone is not inductive: between `MarkUsed` and `Create` a rotation has taken
the live row away and not yet put its successor there, and a second rotation of the same family
could in principle do the same. `SingleUse` therefore counts the two together. A family has a live
row, or one thread between its two statements, or neither, and never two of them.

* `SingleUse.step`, from `step_of_not_spend` and `step_spend`: the invariant survives every step.
* `refresh_single_use`: the result, for every reachable configuration.
-/

namespace Vault42

open Framework Program Option Custody TokenStore

/-- The token a rotation has spent. -/
def Rotation.consumed : Rotation → Option RefreshToken
  | .spent tok => some tok
  | .closed tok => some tok
  | _ => none

theorem Rotation.stored_of_consumed {ρ : Rotation} {tok : RefreshToken}
    (h : ρ.consumed = some tok) : ρ.stored = some tok := by
  cases ρ with
  | spent => exact h
  | closed => exact h
  | _ => cases h

/-- **Single use.** Live rows and rotations under way, counted together. -/
structure SingleUse (s : TokenStore) (ps : List (Req × Custody)) : Prop where
  live_unique : ∀ {r r'}, r ∈ s.rows → r' ∈ s.rows → r.live → r'.live →
    r.familyID = r'.familyID → r = r'
  /-- While a rotation is between its two statements, its family has no live row. -/
  spent_dead : ∀ {t φ stored r}, At ps t φ → φ.rotation = .spent stored → r ∈ s.rows →
    r.familyID = stored.familyID → r.live = false
  /-- A family has at most one rotation between its two statements. -/
  spent_unique : ∀ {t u φ ψ a b}, At ps t φ → At ps u ψ → φ.rotation = .spent a →
    ψ.rotation = .spent b → a.familyID = b.familyID → t = u
  /-- A token some thread has spent stays used. -/
  consumed_used : ∀ {t φ tok r}, At ps t φ → φ.rotation.consumed = some tok → r ∈ s.rows →
    r.id = tok.id → r.used
  /-- A token is spent by one thread. -/
  consumed_unique : ∀ {t u φ ψ a b}, At ps t φ → At ps u ψ → φ.rotation.consumed = some a →
    ψ.rotation.consumed = some b → a.id = b.id → t = u

/-! ### What a step does to a rotation -/

section Rotation

variable {ρ : Rotation} {a : RefreshToken}

theorem consumed_readClock (at_ : Time) : (readClock at_ ρ).consumed = ρ.consumed := by
  cases ρ <;> rfl

theorem spent_of_readClock {at_ : Time} (h : readClock at_ ρ = .spent a) : ρ = .spent a := by
  cases ρ <;> first | exact h | cases h

theorem consumed_lose : (lose ρ).consumed = ρ.consumed := by
  cases ρ <;> rfl

theorem spent_of_lose (h : lose ρ = .spent a) : ρ = .spent a := by
  cases ρ <;> first | exact h | cases h

theorem consumed_close : (close ρ).consumed = ρ.consumed := by
  cases ρ <;> rfl

theorem close_ne_spent : close ρ ≠ .spent a := by
  cases ρ <;> simp [close]

end Rotation

section Step

variable {cap : ℤ} {t : ℕ} {w : World} {φ φ' : Custody} {cl : Call} {s' : TokenStore} {n' : ℕ}
  {ps : List (Req × Custody)} {req : Req}

/-- A step leaves the rotations alone, closes one, or spends a row that is live. -/
theorem TableStep.consumed (h : TableStep cap t w φ cl s' n' φ') :
    ((∀ a, φ'.rotation = .spent a → φ.rotation = .spent a) ∧
      φ'.rotation.consumed = φ.rotation.consumed) ∨
    ∃ stored r, φ.rotation.stored = some stored ∧ φ'.rotation = .spent stored ∧
      s' = (w.tokens.markUsed stored.id).2 ∧ r ∈ w.tokens.rows ∧
      spendable stored.id r := by
  cases h with
  | clock =>
    exact .inl ⟨fun _ => spent_of_readClock, consumed_readClock _⟩
  | read hidle =>
    refine .inl ⟨?_, ?_⟩
    · rintro a ⟨⟩
    · rw [hidle]
      rfl
  | create => exact .inl ⟨fun a ha => absurd ha close_ne_spent, consumed_close⟩
  | lose => exact .inl ⟨fun _ => spent_of_lose, consumed_lose⟩
  | spend hmay hr hspend =>
    obtain ⟨stored, at_, hrot, rfl, -⟩ := hmay
    refine .inr ⟨stored, _, ?_, ?_, rfl, hr, hspend⟩
    · rw [hrot]
      rfl
    · show Custody.spend φ.rotation = .spent stored
      rw [hrot]
      rfl
  | _ => exact .inl ⟨fun a ha => ha, rfl⟩

/-- The rows after a compare-and-set: the one it spent, now used, and the others as they were. -/
theorem mem_markUsed {s : TokenStore} {id : UUID} {r : Row} (h : r ∈ (s.markUsed id).2.rows) :
    ∃ r₀ ∈ s.rows, r₀.Ages r ∧
      (spendable id r₀ → r.used) := by
  obtain ⟨r₀, hr₀, rfl⟩ := List.mem_map.mp h
  refine ⟨r₀, hr₀, ?_⟩
  split
  next hs => exact ⟨ages_used r₀, fun _ => rfl⟩
  next hs => exact ⟨.refl r₀, fun hc => absurd hc hs⟩

theorem live_of_spendable {id : UUID} {r : Row} (h : spendable id r) :
    r.id = id ∧ r.live := by
  simp only [spendable, Bool.and_eq_true, beq_iff_eq] at h
  simp only [Row.live, Bool.and_eq_true]
  exact ⟨h.1.1, h.1.2, h.2⟩

theorem not_used_of_live {r : Row} (h : r.live) : r.used = false := by
  simp only [Row.live, Bool.and_eq_true, Bool.not_eq_true'] at h
  exact h.1

namespace SingleUse

/-- A step that spends nothing. A row it commits is the first live one of its family: either the
family is new, or the thread was between its two statements. -/
theorem step_of_not_spend (hS : SingleUse w.tokens ps) (hL : Ledger w.tokens w.supply ps)
    (h : TableStep cap t w φ cl s' n' φ') (hat : At ps t φ)
    (hspent : ∀ a, φ'.rotation = .spent a → φ.rotation = .spent a)
    (hcons : φ'.rotation.consumed = φ.rotation.consumed) :
    SingleUse s' (ps.set t (req, φ')) := by
  obtain ⟨born, hborn, hrows, -, -⟩ := h.rows
  have hL' : Ledger s' n' (ps.set t (req, φ')) := hL.step h hat
  -- what the threads hold after the step, they held before
  have spent₀ : ∀ {u ψ a}, At (ps.set t (req, φ')) u ψ → ψ.rotation = .spent a →
      ∃ ψ₀, At ps u ψ₀ ∧ ψ₀.rotation = .spent a := by
    intro u ψ a hψ ha
    rcases hψ.of_set with ⟨rfl, rfl⟩ | ⟨-, hψ⟩
    · exact ⟨φ, hat, hspent a ha⟩
    · exact ⟨ψ, hψ, ha⟩
  have cons₀ : ∀ {u ψ a}, At (ps.set t (req, φ')) u ψ → ψ.rotation.consumed = some a →
      ∃ ψ₀, At ps u ψ₀ ∧ ψ₀.rotation.consumed = some a := by
    intro u ψ a hψ ha
    rcases hψ.of_set with ⟨rfl, rfl⟩ | ⟨-, hψ⟩
    · exact ⟨φ, hat, hcons ▸ ha⟩
    · exact ⟨ψ, hψ, ha⟩
  -- a row the step commits shares its family with no live row
  have born_live : ∀ row ∈ born, ∀ r ∈ w.tokens.rows, r.live →
      r.familyID ≠ row.familyID := by
    intro row hrow r hr hlive heq
    rcases (hborn row hrow).family hL hat with ⟨-, hnew⟩ | ⟨stored, hst, -, hf⟩
    · exact hnew _ (hL.rows_logged r hr) heq
    · have hdead := hS.spent_dead hat hst hr (heq.trans hf)
      rw [hlive] at hdead
      cases hdead
  refine ⟨?_, ?_, ?_, ?_, ?_⟩
  · intro r r' hr hr' hl hl' hfam
    rcases hrows r hr with hb | ⟨r₀, hr₀, hage⟩
    · rcases hrows r' hr' with hb' | ⟨r₁, hr₁, hage'⟩
      · exact mem_unique hb hb'
      · exact absurd (hage'.familyID.symm.trans hfam.symm) (born_live r hb r₁ hr₁ (hage'.live hl'))
    · rcases hrows r' hr' with hb' | ⟨r₁, hr₁, hage'⟩
      · exact absurd (hage.familyID.symm.trans hfam) (born_live r' hb' r₀ hr₀ (hage.live hl))
      · have heq : r₀ = r₁ := hS.live_unique hr₀ hr₁ (hage.live hl) (hage'.live hl')
          (hage.familyID.symm.trans (hfam.trans hage'.familyID))
        subst heq
        exact hL'.row_eq hr hr' (hage.id.trans hage'.id.symm)
  · intro u ψ stored r hψ hst hr hfam
    obtain ⟨ψ₀, hψ₀, hst₀⟩ := spent₀ hψ hst
    by_contra hc
    rw [Bool.not_eq_false] at hc
    rcases hrows r hr with hb | ⟨r₀, hr₀, hage⟩
    · rcases (hborn r hb).family hL hat with ⟨-, hnew⟩ | ⟨stored', hst', hclosed, hf⟩
      · obtain ⟨r₁, hr₁, -, hf₁⟩ := hL.spent_family hψ₀ hst₀
        exact hnew r₁ hr₁ (hf₁.trans hfam.symm)
      · -- the thread that wrote the row was the family's only rotation, and is closed now
        obtain rfl := hS.spent_unique hψ₀ hat hst₀ hst' (hfam.symm.trans hf)
        rw [hψ.unique hat.set_self, hclosed] at hst
        cases hst
    · have hdead := hS.spent_dead hψ₀ hst₀ hr₀ (hage.familyID.symm.trans hfam)
      rw [hage.live hc] at hdead
      cases hdead
  · intro u v ψ χ a b hψ hχ ha hb hfam
    obtain ⟨ψ₀, hψ₀, ha₀⟩ := spent₀ hψ ha
    obtain ⟨χ₀, hχ₀, hb₀⟩ := spent₀ hχ hb
    exact hS.spent_unique hψ₀ hχ₀ ha₀ hb₀ hfam
  · intro u ψ tok r hψ htok hr hid
    obtain ⟨ψ₀, hψ₀, htok₀⟩ := cons₀ hψ htok
    rcases hrows r hr with hb | ⟨r₀, hr₀, hage⟩
    · obtain ⟨r₁, hr₁, hid₁, -⟩ := hL.stored_family hψ₀ (Rotation.stored_of_consumed htok₀)
      exact absurd (hid₁.trans hid.symm) (((hborn r hb).id hL hat).2.2 r₁ hr₁)
    · exact hage.used (hS.consumed_used hψ₀ htok₀ hr₀ (hage.id.symm.trans hid))
  · intro u v ψ χ a b hψ hχ ha hb hid
    obtain ⟨ψ₀, hψ₀, ha₀⟩ := cons₀ hψ ha
    obtain ⟨χ₀, hχ₀, hb₀⟩ := cons₀ hχ hb
    exact hS.consumed_unique hψ₀ hχ₀ ha₀ hb₀ hid

/-- The step that spends a live row: it was the family's only one, so nobody else is between the two
statements of a rotation of this family, and nobody has spent this token before. -/
theorem step_spend (hS : SingleUse w.tokens ps) (hL : Ledger w.tokens w.supply ps)
    (hat : At ps t φ) {stored : RefreshToken} {r : Row} (hst : φ.rotation.stored = some stored)
    (hφ' : φ'.rotation = .spent stored) (hr : r ∈ w.tokens.rows)
    (hspend : spendable stored.id r) :
    SingleUse (w.tokens.markUsed stored.id).2 (ps.set t (req, φ')) := by
  obtain ⟨hid, hlive⟩ := live_of_spendable hspend
  have hfam : r.familyID = stored.familyID := (hL.row_of_stored hat hst hr hid).2.1
  have hunused := not_used_of_live hlive
  have hcons : φ'.rotation.consumed = some stored := by
    rw [hφ']
    rfl
  have only_spent : ∀ {u ψ b}, At ps u ψ → ψ.rotation = .spent b →
      stored.familyID ≠ b.familyID := by
    intro u ψ b hψ hb heq
    have hdead := hS.spent_dead hψ hb hr (hfam.trans heq)
    rw [hlive] at hdead
    cases hdead
  have only_consumed : ∀ {u ψ b}, At ps u ψ → ψ.rotation.consumed = some b → stored.id ≠ b.id := by
    intro u ψ b hψ hb heq
    have hused := hS.consumed_used hψ hb hr (hid.trans heq)
    rw [hunused] at hused
    cases hused
  -- nothing of the family is live any more
  have all_dead : ∀ {r' : Row}, r' ∈ (w.tokens.markUsed stored.id).2.rows →
      r'.familyID = stored.familyID → r'.live = false := by
    intro r' hr' hf
    by_contra hc
    rw [Bool.not_eq_false] at hc
    obtain ⟨r₀, hr₀, hage, hused⟩ := mem_markUsed hr'
    have heq : r₀ = r := hS.live_unique hr₀ hr (hage.live hc) hlive
      (hage.familyID.symm.trans (hf.trans hfam.symm))
    rw [heq] at hused
    have := hused hspend
    rw [not_used_of_live hc] at this
    cases this
  refine ⟨?_, ?_, ?_, ?_, ?_⟩
  · intro r₁ r₂ hr₁ hr₂ hl₁ hl₂ hf
    obtain ⟨p₁, hp₁, hage₁, -⟩ := mem_markUsed hr₁
    obtain ⟨p₂, hp₂, hage₂, -⟩ := mem_markUsed hr₂
    have heq : p₁ = p₂ := hS.live_unique hp₁ hp₂ (hage₁.live hl₁) (hage₂.live hl₂)
      (hage₁.familyID.symm.trans (hf.trans hage₂.familyID))
    refine List.inj_on_of_nodup_map ?_ hr₁ hr₂ (hage₁.id.trans (heq ▸ hage₂.id.symm))
    rw [map_id_markUsed]
    exact hL.ids_nodup
  · intro u ψ a r' hψ ha hr' hf
    rcases hψ.of_set with ⟨-, rfl⟩ | ⟨-, hψ⟩
    · obtain rfl : stored = a := Rotation.spent.inj (hφ'.symm.trans ha)
      exact all_dead hr' hf
    · obtain ⟨r₀, hr₀, hage, -⟩ := mem_markUsed hr'
      by_contra hc
      rw [Bool.not_eq_false] at hc
      have hdead := hS.spent_dead hψ ha hr₀ (hage.familyID.symm.trans hf)
      rw [hage.live hc] at hdead
      cases hdead
  · intro u v ψ χ a b hψ hχ ha hb hf
    rcases hψ.of_set with ⟨rfl, rfl⟩ | ⟨-, hψ₀⟩
    · rcases hχ.of_set with ⟨rfl, -⟩ | ⟨-, hχ₀⟩
      · rfl
      · obtain rfl : stored = a := Rotation.spent.inj (hφ'.symm.trans ha)
        exact absurd hf (only_spent hχ₀ hb)
    · rcases hχ.of_set with ⟨rfl, rfl⟩ | ⟨-, hχ₀⟩
      · obtain rfl : stored = b := Rotation.spent.inj (hφ'.symm.trans hb)
        exact absurd hf.symm (only_spent hψ₀ ha)
      · exact hS.spent_unique hψ₀ hχ₀ ha hb hf
  · intro u ψ tok r' hψ htok hr' hid'
    obtain ⟨r₀, hr₀, hage, hused⟩ := mem_markUsed hr'
    rcases hψ.of_set with ⟨-, rfl⟩ | ⟨-, hψ⟩
    · obtain rfl := mem_unique hcons htok
      have heq : r₀ = r := hL.row_eq hr₀ hr (hage.id.symm.trans (hid'.trans hid.symm))
      exact hused (heq ▸ hspend)
    · exact hage.used (hS.consumed_used hψ htok hr₀ (hage.id.symm.trans hid'))
  · intro u v ψ χ a b hψ hχ ha hb hid'
    rcases hψ.of_set with ⟨rfl, rfl⟩ | ⟨-, hψ₀⟩
    · rcases hχ.of_set with ⟨rfl, -⟩ | ⟨-, hχ₀⟩
      · rfl
      · obtain rfl := mem_unique hcons ha
        exact absurd hid' (only_consumed hχ₀ hb)
    · rcases hχ.of_set with ⟨rfl, rfl⟩ | ⟨-, hχ₀⟩
      · obtain rfl := mem_unique hcons hb
        exact absurd hid'.symm (only_consumed hψ₀ ha)
      · exact hS.consumed_unique hψ₀ hχ₀ ha hb hid'

/-- **Single use survives every step.** -/
theorem step (hS : SingleUse w.tokens ps) (hL : Ledger w.tokens w.supply ps)
    (h : TableStep cap t w φ cl s' n' φ') (hat : At ps t φ) :
    SingleUse s' (ps.set t (req, φ')) := by
  rcases h.consumed with ⟨hspent, hcons⟩ | ⟨stored, r, hst, hφ', rfl, hr, hspend⟩
  · exact hS.step_of_not_spend hL h hat hspent hcons
  · exact hS.step_spend hL hat hst hφ' hr hspend

end SingleUse

end Step

namespace SingleUse

variable {s : TokenStore} {ps : List (Req × Custody)}

theorem init {n : ℕ} (h : s.WellFormed n) : SingleUse s [] where
  live_unique hr hr' := h.live _ hr _ hr'
  spent_dead := by
    rintro t φ stored r ⟨q, hq⟩
    cases hq
  spent_unique := by
    rintro t u φ ψ a b ⟨q, hq⟩
    cases hq
  consumed_used := by
    rintro t φ tok r ⟨q, hq⟩
    cases hq
  consumed_unique := by
    rintro t u φ ψ a b ⟨q, hq⟩
    cases hq

theorem spawn (hS : SingleUse s ps) (req : Req) : SingleUse s (ps ++ [(req, .start)]) where
  live_unique := hS.live_unique
  spent_dead hat hst := hS.spent_dead (hat.of_snoc (by rintro rfl; cases hst)) hst
  spent_unique hat hat' ha hb :=
    hS.spent_unique (hat.of_snoc (by rintro rfl; cases ha))
      (hat'.of_snoc (by rintro rfl; cases hb)) ha hb
  consumed_used hat htok := hS.consumed_used (hat.of_snoc (by rintro rfl; cases htok)) htok
  consumed_unique hat hat' ha hb :=
    hS.consumed_unique (hat.of_snoc (by rintro rfl; cases ha))
      (hat'.of_snoc (by rintro rfl; cases hb)) ha hb

theorem rollback (hS : SingleUse s ps) (t : ℕ) : SingleUse (s.rollback t) ps :=
  ⟨hS.live_unique, hS.spent_dead, hS.spent_unique, hS.consumed_used, hS.consumed_unique⟩

end SingleUse

theorem singleUse_invariant (cfg : Settings) :
    TableInvariant cfg World.WellFormed anyStep
      (fun _ s n ps => Ledger s n ps ∧ SingleUse s ps) where
  init _ hw := ⟨hw.ledger, .init hw⟩
  spawn _ _ _ _ r h := ⟨h.1.spawn r, h.2.spawn r⟩
  refused w ps t r φ b ν h hat := by
    have hstep : TableStep cfg.maxSessionsPerUser t w φ .now w.tokens w.supply _ := .aside .now b ν
    exact ⟨h.1.step hstep ⟨r, hat⟩, h.2.step h.1 hstep ⟨r, hat⟩⟩
  step _ _ r _ _ _ _ _ _ h hat _ _ hstep :=
    ⟨h.1.step hstep ⟨r, hat⟩, h.2.step h.1 hstep ⟨r, hat⟩⟩
  tick _ _ _ _ _ h := h
  disconnect _ _ _ _ t h := ⟨h.1.rollback t, h.2.rollback t⟩

/-! ### The history of a rotation -/

section History

variable {cfg : Settings} {φ : Custody} {c : Call}

/-- How a rotation that has read a token can move. -/
inductive Moves (ρ : Rotation) : Rotation → Prop where
  | stay : Moves ρ ρ
  | clock (at_ : Time) : Moves ρ (Custody.readClock at_ ρ)
  | lose {stored : RefreshToken} {at_ : Time} (h : ρ = .timed stored at_) : Moves ρ (.lost stored)
  | spend {stored : RefreshToken} {at_ : Time} (h : ρ = .timed stored at_) : Moves ρ (.spent stored)
  | close : Moves ρ (Custody.close ρ)

theorem Moves.consumed {ρ ρ' : Rotation} {tok : RefreshToken} (hm : Moves ρ ρ')
    (h : ρ.consumed = some tok) : ρ'.consumed = some tok := by
  cases hm with
  | stay => exact h
  | clock =>
    rw [consumed_readClock]
    exact h
  | lose hrot | spend hrot =>
    rw [hrot] at h
    cases h
  | close =>
    rw [consumed_close]
    exact h

/-- An allowed call moves a rotation that has begun in one of these ways, whatever it is told. -/
theorem moves_next (r : c.Reply) (hallows : (custody cfg).Allows φ c) (hne : φ.rotation ≠ .idle) :
    Moves φ.rotation (φ.next c r).rotation := by
  cases c with
  | now => exact .clock _
  | tokens q =>
    cases q with
    | getByTokenHash => exact absurd hallows.1.1 hne
    | markUsed =>
      obtain ⟨⟨stored, at_, hrot, -⟩, -⟩ := hallows
      rcases r with e | b
      · exact .stay
      · cases b with
        | false =>
          show Moves φ.rotation (lose φ.rotation)
          rw [hrot]
          exact .lose rfl
        | true =>
          show Moves φ.rotation (Custody.spend φ.rotation)
          rw [hrot]
          exact .spend rfl
    | create =>
      rcases r with e | o
      · exact .stay
      · cases o with
        | inserted => exact .close
        | familyRevoked => exact .stay
    | insertInTxn =>
      rcases r with e | o
      · exact .stay
      · cases o <;> exact .stay
    | rollback => exact .stay
    | _ => rcases r with e | a <;> exact .stay
  | _ => exact .stay

/-- Once a thread has spent a token, it is a token spent for good. -/
theorem consumed_next {tok : RefreshToken} (r : c.Reply) (hallows : (custody cfg).Allows φ c)
    (h : φ.rotation.consumed = some tok) : (φ.next c r).rotation.consumed = some tok := by
  refine (moves_next r hallows ?_).consumed h
  intro h0
  rw [h0] at h
  cases h

theorem wrote_next (r : c.Reply) (h : φ.wrote) : (φ.next c r).wrote := by
  cases c with
  | tokens q =>
    cases q with
    | getByTokenHash =>
      rcases r with e | o
      · exact h
      · cases o <;> exact h
    | create | insertInTxn =>
      rcases r with e | o
      · exact h
      · cases o <;> first | rfl | exact h
    | markUsed =>
      rcases r with e | o
      · exact h
      · cases o <;> exact h
    | rollback => exact h
    | _ => rcases r with e | a <;> exact h
  | _ => exact h

/-- A successful compare-and-set spends the token its thread has read. -/
theorem consumed_markUsed {p : UUID} (hallows : (custody cfg).Allows φ (.tokens (.markUsed p))) :
    ∃ tok, (φ.next (.tokens (.markUsed p)) (.ok true)).rotation.consumed = some tok ∧
      tok.id = p := by
  obtain ⟨⟨stored, at_, hrot, hid, -⟩, -⟩ := hallows
  refine ⟨stored, ?_, hid⟩
  show (Custody.spend φ.rotation).consumed = some stored
  rw [hrot]
  rfl

end History

variable {cfg : Settings}

/-- **Parentage.** The row `s` was written by a rotation that had spent the token `p` before. -/
def Parent (c : Config (service cfg)) (p s : UUID) : Prop :=
  ∃ t i j tok, i < j ∧
    c.exchange t j = some ⟨.tokens (.markUsed p), .ok true⟩ ∧
    c.exchange t i = some ⟨.tokens (.create tok), .ok .inserted⟩ ∧ tok.id = s

section Reachable

variable {c : Config (service cfg)}

/-- What an exchange establishes for good can be read off its thread's phase. -/
theorem phase_of_exchange (hD : Disciplined (custody cfg) post c) {P : Custody → Prop}
    (hP : (custody cfg).Stable P) {t i : ℕ} {cl : Call} {r : cl.Reply}
    (hest : ∀ φ, (custody cfg).Allows φ cl → P (φ.next cl r))
    (h : c.exchange t i = some ⟨cl, r⟩) : ∃ φ, At (c.phases (custody cfg)) t φ ∧ P φ := by
  obtain ⟨th, hth, -⟩ := Config.exchange_eq_some h
  exact ⟨_, ⟨_, c.phases_getElem? (custody cfg) hth⟩, hD.phase_of_exchange hP hest hth h⟩

/-- The compare-and-set that spent a token leaves its mark on the thread's phase for good. -/
theorem consumed_of_exchange (hD : Disciplined (custody cfg) post c) {p : UUID} {t i : ℕ}
    (h : c.exchange t i = some ⟨.tokens (.markUsed p), .ok true⟩) :
    ∃ φ, At (c.phases (custody cfg)) t φ ∧
      ∃ tok, φ.rotation.consumed = some tok ∧ tok.id = p := by
  refine phase_of_exchange hD ?_ (fun _ => consumed_markUsed) h
  rintro φ cl r hallows ⟨tok, htok, hid⟩
  exact ⟨tok, consumed_next r hallows htok, hid⟩

/-- A token is spent at most once, by one thread and at one moment of its conversation. -/
theorem markUsed_once (hS : SingleUse c.world.tokens (c.phases (custody cfg)))
    (hD : Disciplined (custody cfg) post c) {p : UUID} {t u i j : ℕ}
    (h : c.exchange t i = some ⟨.tokens (.markUsed p), .ok true⟩)
    (h' : c.exchange u j = some ⟨.tokens (.markUsed p), .ok true⟩) : t = u ∧ i = j := by
  obtain ⟨φ, hφ, a, ha, hida⟩ := consumed_of_exchange hD h
  obtain ⟨ψ, hψ, b, hb, hidb⟩ := consumed_of_exchange hD h'
  obtain rfl : t = u := hS.consumed_unique hφ hψ ha hb (hida.trans hidb.symm)
  refine ⟨rfl, ?_⟩
  obtain ⟨th, hth, hi⟩ := Config.exchange_eq_some h
  obtain ⟨th', hth', hj⟩ := Config.exchange_eq_some h'
  obtain rfl := mem_unique hth hth'
  obtain ⟨hconf, -⟩ := hD t th hth
  -- after a token is spent no compare-and-set is allowed, so neither exchange is after the other
  have stable : (custody cfg).Stable fun φ => φ.rotation.consumed.isSome := by
    intro φ cl r hallows hsome
    obtain ⟨tok, htok⟩ := isSome_iff_exists.mp hsome
    exact isSome_iff_exists.mpr ⟨tok, consumed_next r hallows htok⟩
  have est : ∀ φ, (custody cfg).Allows φ (.tokens (.markUsed p)) →
      (φ.next (.tokens (.markUsed p)) (.ok true)).rotation.consumed.isSome := by
    intro φ hallows
    obtain ⟨tok, htok, -⟩ := consumed_markUsed hallows
    rw [htok]
    rfl
  have no : ∀ φ, φ.rotation.consumed.isSome →
      ¬ (custody cfg).Allows φ (.tokens (.markUsed p)) := by
    rintro φ hsome ⟨⟨stored, at_, hrot, -⟩, -⟩
    rw [hrot] at hsome
    cases hsome
  have hji : j ≤ i := hconf.not_after stable hi hj est no
  have hij : i ≤ j := hconf.not_after stable hj hi est no
  exact Nat.le_antisymm hij hji

theorem create_once (hD : Disciplined (custody cfg) post c) {t i j : ℕ}
    {tok tok' : RefreshToken} (h : c.exchange t i = some ⟨.tokens (.create tok), .ok .inserted⟩)
    (h' : c.exchange t j = some ⟨.tokens (.create tok'), .ok .inserted⟩) : tok = tok' := by
  obtain ⟨th, hth, hi⟩ := Config.exchange_eq_some h
  obtain ⟨th', hth', hj⟩ := Config.exchange_eq_some h'
  obtain rfl := mem_unique hth hth'
  obtain ⟨hconf, -⟩ := hD t th hth
  have stable : (custody cfg).Stable fun φ => φ.wrote :=
    fun _ _ r _ => wrote_next r
  have no : ∀ φ a, φ.wrote →
      ¬ (custody cfg).Allows φ (.tokens (.create a)) := by
    rintro φ a hw ⟨⟨hfresh, -⟩, -⟩
    rw [hfresh.wrote] at hw
    cases hw
  have hji : j ≤ i := hconf.not_after stable hi hj (fun _ _ => rfl) fun φ => no φ tok
  have hij : i ≤ j := hconf.not_after stable hj hi (fun _ _ => rfl) fun φ => no φ tok'
  obtain rfl : i = j := Nat.le_antisymm hij hji
  rw [hi] at hj
  cases hj
  rfl

theorem length_le_one_of_nodup {α : Type} {l : List α} (hn : l.Nodup)
    (heq : ∀ a ∈ l, ∀ b ∈ l, a = b) : l.length ≤ 1 := by
  match l, hn, heq with
  | [], _, _ => exact Nat.zero_le 1
  | [a], _, _ => exact Nat.le_refl 1
  | a :: b :: l, hn, heq =>
    have hab : a = b := heq a (by simp) b (by simp)
    simp [hab] at hn

/-- **No token is rotated twice.** From any well-formed table, under any schedule: a family has at
most one row that is neither used nor revoked, a token is the parent of at most one row, and the
compare-and-set that spends a token succeeds at most once. -/
theorem refresh_single_use (hc : Reachable World.WellFormed anyStep c) :
    (∀ f, (c.world.tokens.rows.filter fun r => r.familyID == f && r.live).length ≤ 1) ∧
      (∀ p s s', Parent c p s → Parent c p s' → s = s') ∧
      ∀ p t u i j, c.exchange t i = some ⟨.tokens (.markUsed p), .ok true⟩ →
        c.exchange u j = some ⟨.tokens (.markUsed p), .ok true⟩ → t = u ∧ i = j := by
  obtain ⟨⟨hL, hS⟩, hD⟩ := (singleUse_invariant cfg).keeps.reachable hc
  refine ⟨fun f => ?_, ?_, fun _ _ _ _ _ => markUsed_once hS hD⟩
  · -- the live rows of a family are all one row, and the table lists no row twice
    refine length_le_one_of_nodup (hL.ids_nodup.of_map.filter _) ?_
    intro r hr r' hr'
    simp only [List.mem_filter, Bool.and_eq_true, beq_iff_eq] at hr hr'
    obtain ⟨hr, hf, hlive⟩ := hr
    obtain ⟨hr', hf', hlive'⟩ := hr'
    exact hS.live_unique hr hr' hlive hlive' (hf.trans hf'.symm)
  · rintro p s s' ⟨t, i, j, tok, -, hspent, hcreate, rfl⟩ ⟨u, k, l, tok', -, hspent', hcreate', rfl⟩
    obtain ⟨rfl, -⟩ := markUsed_once hS hD hspent hspent'
    rw [create_once hD hcreate hcreate']

end Reachable

/-! ### A small deployment, for runs -/

namespace Sample

theorem world_wellFormed : world.WellFormed where
  txns := rfl
  log := rfl
  ids := List.nodup_nil
  bound := by simp [world]
  live := by simp [world]

/-- The request that presents a token, from the same place. -/
def refreshInput (token : ℕ) : AuthService.RefreshInput := ⟨token, ⟨"1", "", "", ""⟩, ""⟩

/-- Let a thread make its next `n` calls. -/
def acts {cfg : Settings} (t n : ℕ) : List (Label (service cfg)) := List.replicate n (.act t)

/-- The error a refresh was refused with. -/
def refusal : Response → Option AuthError
  | .refresh (.error e) => some e
  | _ => none

/-- A login, whose refresh token is the third value drawn, and two refreshes that present it. The
first one has spent it when the second arrives. -/
def replayed : Config (service settings) :=
  (execAll (fun _ _ => true) ⟨world, []⟩
    ([.spawn (.login loginInput)] ++ acts 0 24 ++
      [.spawn (.refresh (refreshInput 3))] ++ acts 1 4 ++
      [.spawn (.refresh (refreshInput 3))] ++ acts 2 2 ++ acts 1 9)).getD ⟨world, []⟩

theorem replayed_reachable : Reachable World.WellFormed anyStep replayed :=
  ⟨world, world_wellFormed, run_execAll (fun _ _ _ => trivial) _ _⟩

end Sample

theorem refresh_single_use_replayed :
    (Sample.replayed.world.tokens.rows.map fun r => (r.id, r.used, r.revoked)) =
        [(5, true, false), (8, false, false)] ∧
      (∀ f, (Sample.replayed.world.tokens.rows.filter
        fun r => r.familyID == f && r.live).length ≤ 1) ∧
      (∀ p s s', Parent Sample.replayed p s → Parent Sample.replayed p s' → s = s') ∧
      ∀ p t u i j, Sample.replayed.exchange t i = some ⟨.tokens (.markUsed p), .ok true⟩ →
        Sample.replayed.exchange u j = some ⟨.tokens (.markUsed p), .ok true⟩ → t = u ∧ i = j :=
  ⟨by decide +kernel, refresh_single_use Sample.replayed_reachable⟩

end Vault42
