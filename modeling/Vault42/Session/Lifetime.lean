import Vault42.Session.SessionCap

/-!
# How long a session lasts

A rotation issues a token with a fresh lifetime every time, so two bounds keep a session from
lasting for ever: `maxSessionLifetime`, measured from the birth of the family, and
`inactivityTimeout`, measured from the issue of the row that is presented. Each of them is enforced
twice. The rotation is refused when its bound has passed, and the new token's expiry is clamped to
it.

`session_lifetime` says that both hold along every chain of rotations, whatever else the service
does in the meantime: every row ever committed keeps both bounds, and a refresh that starts outside
them, or cannot date its family, is refused. The birth of a family is read back from its rows, so
the reaper has to spare the families of rotations under way.

The invariant is `Lifetimes`. Its rows are `Row.Dated`; its threads have read a clock that never
goes back (`Notes.Sane`), have been told the birth date of the family they rotate, and were in time
when they spent their token (`Custody.Punctual`).
-/

namespace Vault42

open Framework Program List Option Custody TokenStore

variable {w : World} {tok : RefreshToken} {ps : List (Req × Custody)} {cap : ℤ}

section Told

variable {φ φ' : Custody} {cl : Call}

/-- What a step may tell a thread about time: the clock, or the origin of a family, zero if the
store could not say. -/
structure Told (w : World) (φ : Custody) (cl : Call) (φ' : Custody) : Prop where
  clocks : φ'.notes.clocks = φ.notes.clocks ∨ φ'.notes.clocks = w.clock :: φ.notes.clocks
  origin : φ'.notes.origin = φ.notes.origin ∨ ∃ f o, cl = .tokens (.familyOrigin f) ∧
    φ'.notes.origin = some o ∧ (o = 0 ∨ o = w.tokens.familyOrigin f)

theorem Told.of_notes (h : φ'.notes = φ.notes) : Told w φ cl φ' :=
  ⟨.inl (congrArg Notes.clocks h), .inl (congrArg Notes.origin h)⟩

/-- Only two calls tell a thread anything about time. -/
theorem notes_next (r : cl.Reply) (hnow : cl ≠ .now)
    (horigin : ∀ f, cl ≠ .tokens (.familyOrigin f)) : (φ.next cl r).notes = φ.notes := by
  cases cl with
  | now => exact absurd rfl hnow
  | tokens q =>
    cases q with
    | familyOrigin f => exact absurd rfl (horigin f)
    | getByTokenHash | create | insertInTxn =>
      rcases r with e | o
      · rfl
      · cases o <;> rfl
    | markUsed =>
      rcases r with e | b
      · rfl
      · cases b <;> rfl
    | rollback => rfl
    | _ => rcases r with e | o <;> rfl
  | _ => rfl

theorem told_of_answer (t : ℕ) (cl : Call) : Told w φ cl (φ.next cl (answer t cl w).1) := by
  by_cases hnow : cl = .now
  · subst hnow
    exact ⟨.inr rfl, .inl rfl⟩
  by_cases horigin : ∃ f, cl = .tokens (.familyOrigin f)
  · obtain ⟨f, rfl⟩ := horigin
    exact ⟨.inl rfl, .inr ⟨f, w.tokens.familyOrigin f, rfl, rfl, .inr rfl⟩⟩
  · exact .of_notes (notes_next _ hnow fun f hf => horigin ⟨f, hf⟩)

theorem told_of_fault {r : cl.Reply} (hr : Fault cl r) : Told w φ cl (φ.next cl r) := by
  by_cases hnow : cl = .now
  · subst hnow
    cases hr
  by_cases horigin : ∃ f, cl = .tokens (.familyOrigin f)
  · obtain ⟨f, rfl⟩ := horigin
    obtain ⟨e, rfl⟩ := hr
    exact ⟨.inl rfl, .inr ⟨f, 0, rfl, rfl, .inl rfl⟩⟩
  · exact .of_notes (notes_next _ hnow fun f hf => horigin ⟨f, hf⟩)

end Told

/-! ### The invariant -/

/-- A row that keeps both bounds, at the instant `now`. -/
structure Row.Dated (cfg : Settings) (now : Time) (r : Row) : Prop where
  born : 0 < r.familyCreatedAt
  order : r.familyCreatedAt ≤ r.createdAt
  past : r.createdAt ≤ now
  life : 0 < cfg.maxSessionLifetime → r.expiresAt ≤ r.familyCreatedAt + cfg.maxSessionLifetime
  idle : 0 < cfg.inactivityTimeout → r.expiresAt ≤ r.createdAt + cfg.inactivityTimeout

theorem Row.Dated.mono {cfg : Settings} {now now' : Time} {r : Row} (h : r.Dated cfg now)
    (hle : now ≤ now') : r.Dated cfg now' :=
  ⟨h.born, h.order, h.past.trans hle, h.life, h.idle⟩

/-- A rotation that was within both bounds at one of its clock readings, after its row was
issued. -/
def Custody.Punctual (cfg : Settings) (φ : Custody) (stored : RefreshToken) : Prop :=
  ∃ x ∈ φ.notes.clocks, stored.createdAt ≤ x ∧
    (0 < cfg.inactivityTimeout → x < stored.createdAt + cfg.inactivityTimeout) ∧
      (0 < cfg.maxSessionLifetime →
        ∃ o, φ.notes.origin = some o ∧ o ≠ 0 ∧ x < o + cfg.maxSessionLifetime)

/-- The rows of a family were born at `o`. -/
def TokenStore.BornAt (s : TokenStore) (f : UUID) (o : Time) : Prop :=
  ∀ r, .inserted r ∈ s.log → r.familyID = f → r.familyCreatedAt = o

/-- **Lifetimes.** What holds of the table `s` at `now`, with the threads in the phases `ps`, as
long as rotations are spared. -/
structure Lifetimes (cfg : Settings) (now : Time) (s : TokenStore) (ps : List (Req × Custody)) :
    Prop where
  set : 0 < now
  logged : ∀ {r}, .inserted r ∈ s.log → r.Dated cfg now
  pending : ∀ {x r}, x ∈ s.txns → x.inserted = some r → r.Dated cfg now
  clocks : ∀ {t φ}, At ps t φ → φ.notes.Sane ∧ ∀ x ∈ φ.notes.clocks, x ≤ now
  timed : ∀ {t φ stored at_}, At ps t φ → φ.rotation = .timed stored at_ →
    at_ ∈ φ.notes.clocks ∧ stored.createdAt ≤ at_
  /-- Only a rotation dates a family, and what it is told is the birth date of its own. -/
  origin : ∀ {t φ o}, At ps t φ → φ.notes.origin = some o →
    ∃ stored, φ.rotation.stored = some stored ∧ (o ≠ 0 → s.BornAt stored.familyID o)
  punctual : ∀ {t φ stored}, At ps t φ → φ.rotation.consumed = some stored → φ.Punctual cfg stored

section Tables

variable {s : TokenStore}

/-- The first row of a family is born when it is issued. -/
theorem rowToInsert_familyCreatedAt_of_new (h : ∀ r ∈ s.rows, r.familyID ≠ tok.familyID) :
    (s.rowToInsert tok).familyCreatedAt = tok.createdAt := by
  have hnil : s.family tok.familyID = [] := family_eq_nil h
  have hmin : s.minCreatedAt tok.familyID = none := by
    unfold minCreatedAt
    rw [hnil]
    rfl
  show (s.minCreatedAt tok.familyID).getD tok.createdAt = tok.createdAt
  rw [hmin]
  rfl

/-- The origin a rotation is told is the birth date of the family, if it has rows. -/
theorem familyOrigin_eq {n : ℕ} (hL : Ledger s n ps)
    (hF : Families s ps) {f : UUID} (hne : s.familyOrigin f ≠ 0) :
    s.BornAt f (s.familyOrigin f) := by
  intro r hr hf
  -- some row of the family is there, or its origin would be zero
  obtain ⟨r₀, hr₀⟩ : ∃ r₀, r₀ ∈ s.family f := by
    by_contra hno
    have hnil : s.family f = [] := eq_nil_iff_forall_not_mem.mpr fun r hr => hno ⟨r, hr⟩
    refine hne ?_
    unfold familyOrigin minCreatedAt
    rw [hnil]
    rfl
  have agree : ∀ r' ∈ s.family f, r'.familyCreatedAt = r.familyCreatedAt := by
    intro r' hr'
    obtain ⟨hr', hf'⟩ := mem_family.mp hr'
    exact (hF.kin (hL.rows_logged r' hr') hr (hf'.trans hf.symm)).familyCreatedAt
  have hmin : s.minCreatedAt f = some r₀.familyCreatedAt :=
    minCreatedAt_of_agree hr₀ fun r' hr' => (agree r' hr').trans (agree r₀ hr₀).symm
  unfold familyOrigin
  rw [hmin, getD_some]
  exact (agree r₀ hr₀).symm

end Tables

namespace Lifetimes

section Step

variable {cfg : Settings} {t : ℕ} {φ φ' : Custody} {cl : Call} {s' : TokenStore}
  {n' : ℕ} {req : Req} {stored : RefreshToken}

/-- A thread that has spent its token had, or has just done so. -/
theorem consumed_or_spends (h : TableStep cap t w φ cl s' n' φ')
    (hc : φ'.rotation.consumed = some stored) :
    φ.rotation.consumed = some stored ∨
      ∃ id at_, cl = .tokens (.markUsed id) ∧ φ.rotation = .timed stored at_ ∧
        φ'.notes = φ.notes := by
  cases h with
  | clock => exact .inl ((consumed_readClock _).symm.trans hc)
  | read => cases hc
  | create => exact .inl (consumed_close.symm.trans hc)
  | spend hmay =>
    obtain ⟨tok, at_, hrot, -⟩ := hmay
    refine .inr ⟨_, at_, rfl, ?_, rfl⟩
    simp only [hrot, spend, Rotation.consumed, some.injEq] at hc
    rw [hrot, hc]
  | lose => exact .inl (consumed_lose.symm.trans hc)
  | _ => exact .inl hc

theorem clocks_subset (htold : Told w φ cl φ') : φ.notes.clocks ⊆ φ'.notes.clocks := by
  rcases htold.clocks with h | h
  · rw [h]
    exact Subset.refl _
  · rw [h]
    exact subset_cons_self _ _

theorem stored_of_step (h : TableStep cap t w φ cl s' n' φ')
    (hst : φ.rotation.stored = some stored) : φ'.rotation.stored = some stored := by
  cases h with
  | clock => rw [stored_readClock, hst]
  | read hidle =>
    rw [hidle] at hst
    cases hst
  | create => rw [stored_close, hst]
  | spend => rw [stored_spend, hst]
  | lose => rw [stored_lose, hst]
  | _ => exact hst

/-- The birth date of a family that is being rotated stays what it was: a new row is kin to the
token's. -/
theorem bornAt_of_step (hL : Ledger w.tokens w.supply ps)
    (h : TableStep cap t w φ cl s' n' φ') {ps' : List (Req × Custody)} (hF' : Families s' ps')
    {u : ℕ} {ψ : Custody} (hψ : At ps u ψ) (hst : ψ.rotation.stored = some stored) {o : Time}
    (hborn : w.tokens.BornAt stored.familyID o) : s'.BornAt stored.familyID o := by
  intro r hr hf
  obtain ⟨r₀, hr₀, hmodel⟩ := hL.stored_logged hψ hst
  have hfam : r₀.familyID = stored.familyID := congrArg RefreshToken.familyID hmodel
  obtain ⟨born, -, -, hlog, -⟩ := h.rows
  have hr₀' : .inserted r₀ ∈ s'.log := (hlog r₀).mpr (.inr hr₀)
  rw [(hF'.kin hr hr₀' (hf.trans hfam.symm)).familyCreatedAt]
  exact hborn r₀ hr₀ hfam

variable (hT : Lifetimes cfg w.clock w.tokens ps) (hL : Ledger w.tokens w.supply ps)
  (hF : Families w.tokens ps) (h : TableStep cfg.maxSessionsPerUser t w φ cl s' n' φ')
  (hat : At ps t φ) (hallows : (custody cfg).Allows φ cl) (htold : Told w φ cl φ')
include hT hat

include htold in
/-- Readings follow one another: the new one is the clock's. -/
theorem step_clocks : φ'.notes.Sane ∧ ∀ x ∈ φ'.notes.clocks, x ≤ w.clock := by
  obtain ⟨hsane, hpast⟩ := hT.clocks hat
  rcases htold.clocks with h | h
  · refine ⟨hsane.of_suffix ?_, ?_⟩
    · rw [h]
    · rw [h]
      exact hpast
  · refine ⟨⟨?_, ?_⟩, ?_⟩
    · rw [h]
      exact pairwise_cons.mpr ⟨hpast, hsane.ordered⟩
    · rw [h]
      rintro x (_ | ⟨_, hx⟩)
      · exact hT.set
      · exact hsane.positive x hx
    · rw [h]
      rintro x (_ | ⟨_, hx⟩)
      · exact le_refl _
      · exact hpast x hx

include hL

/-- The first row of a family keeps both bounds. -/
theorem dated_of_firstborn (hfresh : φ.Fresh tok) (hborn : φ.Firstborn tok)
    (hlease : φ.Leased cfg tok) :
    (w.tokens.rowToInsert tok).Dated cfg w.clock := by
  obtain ⟨hsane, hpast⟩ := hT.clocks hat
  have hmem : tok.createdAt ∈ φ.notes.clocks := mem_of_mem_head? hlease.issued
  have hnew : (w.tokens.rowToInsert tok).familyCreatedAt = tok.createdAt :=
    rowToInsert_familyCreatedAt_of_new fun r hr hf =>
      hL.not_logged_of_firstborn hat hfresh hborn (hL.rows_logged r hr) hf
  refine ⟨?_, ?_, hpast _ hmem, fun hlife => ?_, hlease.idle hsane⟩
  · rw [hnew]
    exact hsane.positive _ hmem
  · rw [hnew]
    exact le_refl _
  · rw [hnew]
    rcases hlease.life hsane hlife with ⟨-, h⟩ | ⟨o, ho, -⟩
    · exact h
    · -- a login never dates a family
      obtain ⟨stored, hst, -⟩ := hT.origin hat ho
      rw [hborn.rotation] at hst
      cases hst

/-- A row that is issued is issued no later than now. -/
theorem stored_le (hst : φ.rotation.stored = some stored) : stored.createdAt ≤ w.clock := by
  obtain ⟨r, hr, hmodel⟩ := hL.stored_logged hat hst
  have hcreated : r.createdAt = stored.createdAt :=
    congrArg RefreshToken.createdAt hmodel
  rw [← hcreated]
  exact (hT.logged hr).past

include h htold in
theorem step_timed {at_ : Time} (hrot : φ'.rotation = .timed stored at_) :
    at_ ∈ φ'.notes.clocks ∧ stored.createdAt ≤ at_ := by
  rcases h.timed hrot with hold | ⟨hread, rfl, hnotes⟩
  · obtain ⟨hmem, hle⟩ := hT.timed hat hold
    exact ⟨clocks_subset htold hmem, hle⟩
  · refine ⟨?_, hT.stored_le hL hat (show _ = some stored by rw [hread]; rfl)⟩
    rw [hnotes]
    exact mem_cons_self

include hF

/-- A successor keeps both bounds: it is born when its family was, and is issued after the row it
replaces. -/
theorem dated_of_successor {row : Row}
    (hsucc : Born.Successor t w φ φ' row stored tok) (hlease : φ.Leased cfg tok) :
    row.Dated cfg w.clock := by
  obtain ⟨hsane, hpast⟩ := hT.clocks hat
  have hrot : φ.rotation = .spent stored := hsucc.successor.rotation
  have hmem : tok.createdAt ∈ φ.notes.clocks := mem_of_mem_head? hlease.issued
  obtain ⟨x, hx, hissued, -, hlife⟩ := hT.punctual hat (show _ = some stored by rw [hrot]; rfl)
  obtain ⟨r, hr, hmodel⟩ := hL.spent_logged hat hrot
  have hcreated : r.createdAt = stored.createdAt :=
    congrArg RefreshToken.createdAt hmodel
  have hfam : r.familyID = stored.familyID := congrArg RefreshToken.familyID hmodel
  have hkin : row.familyCreatedAt = r.familyCreatedAt := by
    refine (hF.successor_kin hL hat hsucc hr ?_).familyCreatedAt
    rw [hfam, hsucc.row_eq, ← hsucc.successor.family]
    rfl
  have hdated := hT.logged hr
  have hrow : row.createdAt = tok.createdAt := by rw [hsucc.row_eq]; rfl
  have hexp : row.expiresAt = tok.expiresAt := by rw [hsucc.row_eq]; rfl
  refine ⟨?_, ?_, ?_, fun hL => ?_, fun hI => ?_⟩
  · rw [hkin]
    exact hdated.born
  · calc row.familyCreatedAt = r.familyCreatedAt := hkin
      _ ≤ r.createdAt := hdated.order
      _ = stored.createdAt := hcreated
      _ ≤ x := hissued
      _ ≤ tok.createdAt := hsane.le_head hlease.issued hx
      _ = row.createdAt := hrow.symm
  · rw [hrow]
    exact hpast _ hmem
  · rcases hlease.life hsane hL with ⟨hidle, -⟩ | ⟨o, ho, hle⟩
    · rw [hrot] at hidle
      cases hidle
    · -- the origin the rotation was told is the birth date of the row it replaces
      obtain ⟨o', ho', hne, -⟩ := hlife hL
      obtain rfl := mem_unique ho ho'
      obtain ⟨stored', hst, hborn⟩ := hT.origin hat ho
      rw [hrot] at hst
      obtain rfl : stored = stored' := some.inj hst
      have hr_born : r.familyCreatedAt = o := hborn hne r hr hfam
      rw [hexp, hkin, hr_born]
      exact hle (hr_born ▸ hdated.born)
  · rw [hexp, hrow]
    exact hlease.idle hsane hI

include hallows

/-- **Every row that is committed keeps both bounds.** -/
theorem dated_of_born {row : Row} (hb : Born cfg.maxSessionsPerUser t w φ cl φ' row) :
    row.Dated cfg w.clock := by
  cases hb with
  | created hfresh htxn hkind hguard hfree =>
    obtain ⟨-, hlease⟩ := hallows
    rcases hkind with ⟨-, hborn⟩ | ⟨stored, hsucc⟩
    · exact hT.dated_of_firstborn hL hat hfresh hborn hlease
    · have hsucc' : Born.Successor t w φ φ _ stored _ :=
        successor_of_guard hsucc htxn hguard hfree
      exact hT.dated_of_successor hL hF hat hsucc' hlease
  | committed hx howner hrow => exact hT.pending hx hrow

include h htold

omit hL hF in
theorem step_punctual (hc : φ'.rotation.consumed = some stored) : φ'.Punctual cfg stored := by
  rcases consumed_or_spends h hc with hold | ⟨id, at_, rfl, hrot, hnotes⟩
  · obtain ⟨x, hx, hissued, hidle, hlife⟩ := hT.punctual hat hold
    refine ⟨x, clocks_subset htold hx, hissued, hidle, fun hL => ?_⟩
    obtain ⟨o, ho, hne, hlt⟩ := hlife hL
    rcases htold.origin with hsame | ⟨f, o', rfl, -⟩
    · exact ⟨o, hsame.trans ho, hne, hlt⟩
    · -- a family is dated once
      obtain ⟨-, hnone, -⟩ := hallows
      rw [hnone] at ho
      cases ho
  · obtain ⟨hmem, hissued⟩ := hT.timed hat hrot
    obtain ⟨hidle, hlife⟩ := hallows.2 stored at_ hrot (hT.clocks hat).1
    unfold Custody.Punctual
    rw [hnotes]
    exact ⟨at_, hmem, hissued, hidle, hlife⟩

theorem step_origin {ps' : List (Req × Custody)} (hF' : Families s' ps') {o : Time}
    (ho : φ'.notes.origin = some o) :
    ∃ stored, φ'.rotation.stored = some stored ∧ (o ≠ 0 → s'.BornAt stored.familyID o) := by
  rcases htold.origin with hsame | ⟨f, o', rfl, ho', hzero⟩
  · obtain ⟨stored, hst, hborn⟩ := hT.origin hat (hsame.symm.trans ho)
    exact ⟨stored, stored_of_step h hst, fun hne => bornAt_of_step hL h hF' hat hst (hborn hne)⟩
  · -- the family has just been dated
    obtain rfl := mem_unique ho' ho
    obtain ⟨-, -, stored, hst, rfl⟩ := hallows
    refine ⟨stored, stored_of_step h hst, fun hne => bornAt_of_step hL h hF' hat hst ?_⟩
    rcases hzero with hzero | hread
    · exact absurd hzero hne
    · rw [hread]
      exact familyOrigin_eq hL hF (hread ▸ hne)

/-- **One step keeps the lifetimes.** -/
theorem step (hF' : Families s' (ps.set t (req, φ'))) :
    Lifetimes cfg w.clock s' (ps.set t (req, φ')) where
  set := hT.set
  logged := by
    intro r hr
    obtain ⟨born, hborn, -, hlog, -⟩ := h.rows
    rcases (hlog r).mp hr with hb | hold
    · exact hT.dated_of_born hL hF hat hallows (hborn r hb)
    · exact hT.logged hold
  pending := by
    intro x r hx hr
    rcases h.pending hx hr with ⟨y, hy, -, hyr⟩ | ⟨-, -, -, tok, rfl, hfresh, hborn, rfl⟩
    · exact hT.pending hy hyr
    · exact hT.dated_of_firstborn hL hat hfresh hborn hallows.2
  clocks := by
    intro u ψ hψ
    rcases hψ.of_set with ⟨rfl, rfl⟩ | ⟨-, hψ₀⟩
    · exact hT.step_clocks hat htold
    · exact hT.clocks hψ₀
  timed := by
    intro u ψ stored at_ hψ hrot
    rcases hψ.of_set with ⟨rfl, rfl⟩ | ⟨-, hψ₀⟩
    · exact hT.step_timed hL h hat htold hrot
    · exact hT.timed hψ₀ hrot
  origin := by
    intro u ψ o hψ ho
    rcases hψ.of_set with ⟨rfl, rfl⟩ | ⟨-, hψ₀⟩
    · exact hT.step_origin hL hF h hat hallows htold hF' ho
    · obtain ⟨stored, hst, hborn⟩ := hT.origin hψ₀ ho
      exact ⟨stored, hst, fun hne => bornAt_of_step hL h hF' hψ₀ hst (hborn hne)⟩
  punctual := by
    intro u ψ stored hψ hc
    rcases hψ.of_set with ⟨rfl, rfl⟩ | ⟨-, hψ₀⟩
    · exact hT.step_punctual h hat hallows htold hc
    · exact hT.punctual hψ₀ hc

end Step

section Others

variable {cfg : Settings} {now : Time} {s : TokenStore}

theorem spawn (hT : Lifetimes cfg now s ps) (req : Req) :
    Lifetimes cfg now s (ps ++ [(req, .start)]) where
  set := hT.set
  logged := hT.logged
  pending := hT.pending
  clocks := by
    intro t φ hat
    rcases hat.of_append with hold | ⟨-, rfl⟩
    · exact hT.clocks hold
    · exact ⟨⟨Pairwise.nil, nofun⟩, nofun⟩
  timed hat hrot := hT.timed (hat.of_snoc (by rintro rfl; cases hrot)) hrot
  origin hat ho := hT.origin (hat.of_snoc (by rintro rfl; cases ho)) ho
  punctual hat hc := hT.punctual (hat.of_snoc (by rintro rfl; cases hc)) hc

theorem tick (hT : Lifetimes cfg now s ps) (d : ℕ) : Lifetimes cfg (now + d) s ps :=
  have hle : now ≤ now + d := by lia
  { set := lt_of_lt_of_le hT.set hle
    logged := fun hr => (hT.logged hr).mono hle
    pending := fun hx hr => (hT.pending hx hr).mono hle
    clocks := fun hat => ⟨(hT.clocks hat).1, fun x hx => ((hT.clocks hat).2 x hx).trans hle⟩
    timed := hT.timed
    origin := hT.origin
    punctual := hT.punctual }

theorem rollback (hT : Lifetimes cfg now s ps) (t : ℕ) : Lifetimes cfg now (s.rollback t) ps where
  set := hT.set
  logged := hT.logged
  pending hx := hT.pending (mem_filter_owner hx).1
  clocks := hT.clocks
  timed := hT.timed
  origin := hT.origin
  punctual := hT.punctual

end Others

end Lifetimes

/-- **A timely world**: a coherent table whose rows keep both bounds, at an instant that is set. -/
structure World.Timely (cfg : Settings) (w : World) : Prop where
  coherent : w.Coherent
  set : 0 < w.clock
  rows : ∀ r ∈ w.tokens.rows, r.Dated cfg w.clock

theorem World.Timely.lifetimes {cfg : Settings} (h : w.Timely cfg) :
    Lifetimes cfg w.clock w.tokens [] := by
  refine
    { set := h.set
      logged := ?_
      pending := fun hx => by rw [h.coherent.txns] at hx; cases hx
      clocks := fun hat => absurd hat not_at_nil
      timed := fun hat => absurd hat not_at_nil
      origin := fun hat => absurd hat not_at_nil
      punctual := fun hat => absurd hat not_at_nil }
  intro r hr
  rw [h.coherent.log] at hr
  obtain ⟨r₀, hr₀, heq⟩ := mem_map.mp hr
  obtain rfl : r₀.pristine = r := TableEvent.inserted.inj heq
  have hdated := h.rows r₀ hr₀
  exact ⟨hdated.born, hdated.order, hdated.past, hdated.life, hdated.idle⟩

theorem lifetimes_keeps (cfg : Settings) :
    Keeps (M := service cfg) (World.Timely cfg) sparesRotations (custody cfg) post
      (fun (w : World) ps =>
        (Ledger w.tokens w.supply ps ∧ Families w.tokens ps) ∧
          Lifetimes cfg w.clock w.tokens ps) where
  program := serve_obeys cfg
  init w hw := ⟨(families_invariant cfg).init w hw.coherent, hw.lifetimes⟩
  spawn w ps r h := ⟨(families_invariant cfg).keeps.spawn w ps r h.1, h.2.spawn r⟩
  act c t th cl hreach h hth hpend hfree hok hallows := by
    obtain ⟨-, hfam⟩ := (families_invariant cfg).keeps.act c t th cl
      (hreach.weaken fun _ => World.Timely.coherent) h.1 hth hpend hfree hok hallows
    refine ⟨trivial, hfam, ?_⟩
    have hclock : ((service cfg).answer t cl c.world).2.clock = c.world.clock := answer_clock t cl _
    rw [hclock]
    exact h.2.step h.1.1 h.1.2 (tableStep_of_answer cl hallows hfree)
      ⟨_, c.phases_getElem? (custody cfg) hth⟩ hallows (told_of_answer t cl) hfam.2
  fault c t th cl r hreach h hth hpend hr hok hallows := by
    obtain ⟨-, hfam⟩ := (families_invariant cfg).keeps.fault c t th cl r
      (hreach.weaken fun _ => World.Timely.coherent) h.1 hth hpend hr hok hallows
    refine ⟨trivial, hfam, ?_⟩
    have hstep : TableStep cfg.maxSessionsPerUser t c.world ((custody cfg).phase th.past) cl
        c.world.tokens c.world.supply ((custody cfg).next ((custody cfg).phase th.past) cl r) := by
      obtain ⟨b, ν, hb⟩ := next_of_fault cl hr
      have hnext : (custody cfg).next ((custody cfg).phase th.past) cl r = _ := hb
      rw [hnext]
      exact .aside cl b ν
    exact h.2.step h.1.1 h.1.2 hstep ⟨_, c.phases_getElem? (custody cfg) hth⟩ hallows
      (told_of_fault hr) hfam.2
  nudge c n hreach h hok := by
    refine ⟨(families_invariant cfg).keeps.nudge c n
      (hreach.weaken fun _ => World.Timely.coherent) h.1 hok, ?_⟩
    cases n with
    | tick d => exact h.2.tick d
    | disconnect t => exact h.2.rollback t
    | addUser u =>
      obtain ⟨hclock, htokens, -⟩ := nudge_addUser u c.world
      change Lifetimes cfg (nudge (.addUser u) c.world).clock (nudge (.addUser u) c.world).tokens _
      rw [hclock, htokens]
      exact h.2
    | _ => exact h.2

/-! ### What a run can rely on -/

/-- The clock readings of a conversation, the latest first. -/
def clockReadings (past : List (Event vault)) : List Time :=
  past.filterMap fun
    | ⟨.now, r⟩ => some r
    | _ => none

/-- The instant a thread started at, as far as it knows: its first reading of the clock. -/
def startedAt {cfg : Settings} (th : Thread (service cfg)) : Option Time :=
  (clockReadings th.past).getLast?

/-- Every row ever committed expires no later than the inactivity timeout after it was issued, and
no later than the absolute lifetime after any row of its family was issued, the first one
included. -/
def TokenStore.KeepsBounds (s : TokenStore) (cfg : Settings) : Prop :=
  ∀ r, .inserted r ∈ s.log →
    (0 < cfg.inactivityTimeout → r.expiresAt ≤ r.createdAt + cfg.inactivityTimeout) ∧
      (0 < cfg.maxSessionLifetime → ∀ b, .inserted b ∈ s.log → b.familyID = r.familyID →
        r.expiresAt ≤ b.createdAt + cfg.maxSessionLifetime)

/-- At `at_`, the token's family is as old as a session may get, or the token has been idle for as
long as it may. -/
def Outlived (cfg : Settings) (s : TokenStore) (stored : RefreshToken) (at_ : Time) : Prop :=
  (0 < cfg.maxSessionLifetime ∧ ∃ b, .inserted b ∈ s.log ∧ b.familyID = stored.familyID ∧
      b.createdAt + cfg.maxSessionLifetime ≤ at_) ∨
    0 < cfg.inactivityTimeout ∧ stored.createdAt + cfg.inactivityTimeout ≤ at_

/-- Thread `t` has asked for the origin of a family and was not told: the store failed, or knows no
row of it. -/
def Undated {cfg : Settings} (c : Config (service cfg)) (t : ℕ) : Prop :=
  ∃ j f r,
    c.exchange t j = some ⟨.tokens (.familyOrigin f), r⟩ ∧ ((∃ e, r = .error e) ∨ r = .ok 0)

section Results

variable {cfg : Settings} {c : Config (service cfg)}

theorem clocks_phase (past : List (Event vault)) :
    ((custody cfg).phase past).notes.clocks = clockReadings past := by
  induction past with
  | nil => rfl
  | cons e past ih =>
    obtain ⟨cl, r⟩ := e
    by_cases hnow : cl = .now
    · subst hnow
      exact congrArg (r :: ·) ih
    have hread : clockReadings (⟨cl, r⟩ :: past) = clockReadings past := by
      cases cl with
      | now => exact absurd rfl hnow
      | _ => rfl
    rw [hread, ← ih]
    by_cases horigin : ∃ f, cl = .tokens (.familyOrigin f)
    · obtain ⟨f, rfl⟩ := horigin
      rcases r with e | o <;> rfl
    · exact congrArg Notes.clocks (notes_next r hnow fun f hf => horigin ⟨f, hf⟩)

/-- A thread that was not told the origin of its family never is. -/
theorem origin_of_undated (hD : Disciplined (custody cfg) post c) {t : ℕ}
    (h : Undated c t) :
    ∃ φ, At (c.phases (custody cfg)) t φ ∧ φ.notes.origin = some 0 := by
  obtain ⟨j, f, r, hj, hr⟩ := h
  have stable : (custody cfg).Stable fun φ => φ.notes.origin = some 0 := by
    intro φ cl r hallows ho
    by_cases hnow : cl = .now
    · subst hnow
      exact ho
    by_cases horigin : ∃ f, cl = .tokens (.familyOrigin f)
    · -- a family is dated once
      obtain ⟨f, rfl⟩ := horigin
      obtain ⟨-, hnone, -⟩ := hallows
      rw [hnone] at ho
      cases ho
    · exact (congrArg Notes.origin (notes_next r hnow fun f hf => horigin ⟨f, hf⟩)).trans ho
  have est : ∀ φ, (custody cfg).Allows φ (.tokens (.familyOrigin f)) →
      (φ.next (.tokens (.familyOrigin f)) r).notes.origin = some 0 := by
    intro φ _
    rcases hr with ⟨e, rfl⟩ | rfl
    · rfl
    · rfl
  exact phase_of_exchange hD stable est hj

theorem Notes.Sane.last_le {ν : Notes} (h : ν.Sane) {x y : Time} (hy : ν.clocks.getLast? = some y)
    (hx : x ∈ ν.clocks) : y ≤ x := by
  obtain ⟨rest, hrest⟩ := getLast?_eq_some_iff.mp hy
  have hord := h.ordered
  rw [hrest] at hord hx
  rcases mem_append.mp hx with hx | hx
  · exact (pairwise_append.mp hord).2.2 x hx y mem_cons_self
  · rw [mem_singleton.mp hx]

/-- **Session lifetimes.** Along every run in which the reaper spares rotations under way: every row
ever committed keeps both bounds, and a refresh that starts when its session has outlived one of
them, or cannot date its family under an absolute lifetime, is refused. -/
theorem session_lifetime (hc : Reachable (World.Timely cfg) sparesRotations c) :
    c.world.tokens.KeepsBounds cfg ∧
    ∀ t th input res i hash stored, c.threads[t]? = some th → th.req = .refresh input →
      th.result = some (.refresh res) →
      c.exchange t i = some ⟨.tokens (.getByTokenHash hash), .ok (some stored)⟩ →
      (∃ at_, startedAt th = some at_ ∧ Outlived cfg c.world.tokens stored at_) ∨
        0 < cfg.maxSessionLifetime ∧ Undated c t →
      ∃ e, res = .error e := by
  obtain ⟨⟨⟨hL, hF⟩, hT⟩, hD⟩ := (lifetimes_keeps cfg).reachable hc
  constructor
  · intro r hr
    refine ⟨(hT.logged hr).idle, fun hlife b hb hfam => ?_⟩
    calc r.expiresAt ≤ r.familyCreatedAt + cfg.maxSessionLifetime := (hT.logged hr).life hlife
      _ = b.familyCreatedAt + cfg.maxSessionLifetime := by
        rw [(hF.kin hr hb hfam.symm).familyCreatedAt]
      _ ≤ b.createdAt + cfg.maxSessionLifetime := by
        have := (hT.logged hb).order
        lia
  intro t th input res i hash stored hth hreq hres hread hcase
  cases res with
  | error e => exact ⟨e, rfl⟩
  | ok a =>
    exfalso
    -- a refresh that answers with a pair has spent the token it read, in time
    obtain ⟨φ, hφ, hst⟩ := phase_of_exchange hD
      (fun _ _ => stored_next) (fun _ _ => rfl) hread
    have hphase : φ = (custody cfg).phase th.past :=
      hφ.unique ⟨_, c.phases_getElem? (custody cfg) hth⟩
    obtain ⟨r, hr, -, hrotated⟩ := refreshPost_of_result hD hth hreq hres
    cases hr
    obtain ⟨stored', hclosed⟩ := hrotated a rfl
    rw [← hphase] at hclosed
    obtain rfl : stored' = stored := by
      rw [hclosed] at hst
      exact Option.some.inj hst
    obtain ⟨x, hx, -, hidle, hlife⟩ := hT.punctual hφ (show _ = some stored' by rw [hclosed]; rfl)
    rcases hcase with ⟨at_, hstart, hout⟩ | ⟨hpos, hundated⟩
    · have hle : at_ ≤ x := by
        refine (hT.clocks hφ).1.last_le ?_ hx
        rw [hphase, clocks_phase]
        exact hstart
      rcases hout with ⟨hpos, b, hb, hfam, hold⟩ | ⟨hpos, hold⟩
      · obtain ⟨o, ho, hne, hlt⟩ := hlife hpos
        obtain ⟨s, hs, hborn⟩ := hT.origin hφ ho
        rw [hst] at hs
        obtain rfl : stored' = s := Option.some.inj hs
        have hb_born : b.familyCreatedAt = o := hborn hne b hb hfam
        have := (hT.logged hb).order
        lia
      · have := hidle hpos
        lia
    · obtain ⟨o, ho, hne, -⟩ := hlife hpos
      obtain ⟨ψ, hψ, hzero⟩ := origin_of_undated hD hundated
      obtain rfl := hφ.unique hψ
      exact hne (mem_unique ho hzero)

end Results

namespace Sample

/-- The deployment with both bounds. -/
def withBounds : Settings := { settings with maxSessionLifetime := 80, inactivityTimeout := 50 }

theorem world_timely : world.Timely withBounds := ⟨world_coherent, by decide, nofun⟩

/-- A login at 1, a refresh at 41, and a refresh of the second token at 81. That token has not
expired, but the session is as old as it may get. -/
def outlived : Config (service withBounds) :=
  (execAll sparesRotationsTest ⟨world, []⟩
    ([.spawn (.login loginInput)] ++ acts 0 24 ++
      [.nudge (.tick 40), .spawn (.refresh (refreshInput 3))] ++ acts 1 14 ++
      [.nudge (.tick 40), .spawn (.refresh (refreshInput 7))] ++ acts 2 9)).getD ⟨world, []⟩

theorem outlived_reachable : Reachable (World.Timely withBounds) sparesRotations outlived :=
  ⟨world, world_timely, run_execAll sparesRotations_of_test _ _⟩

end Sample

theorem session_lifetime_outlived :
    (Sample.outlived.world.tokens.rows.map fun r => (r.createdAt, r.expiresAt)) =
        [(1, 51), (41, 81)] ∧
      Sample.outlived.threads[2]?.bind startedAt = some 81 ∧
      (Sample.outlived.threads[2]?.bind fun th => th.result.bind Sample.refusal) =
        some .sessionExpired ∧
      Sample.outlived.world.tokens.KeepsBounds Sample.withBounds ∧
      ∀ th input res i hash stored, Sample.outlived.threads[2]? = some th →
        th.req = .refresh input → th.result = some (.refresh res) →
        Sample.outlived.exchange 2 i =
          some ⟨.tokens (.getByTokenHash hash), .ok (some stored)⟩ →
        (∃ at_, startedAt th = some at_ ∧
            Outlived Sample.withBounds Sample.outlived.world.tokens stored at_) ∨
          0 < Sample.withBounds.maxSessionLifetime ∧ Undated Sample.outlived 2 →
        ∃ e, res = .error e :=
  ⟨by decide +kernel, by decide +kernel, by decide +kernel,
    (session_lifetime Sample.outlived_reachable).1,
    (session_lifetime Sample.outlived_reachable).2 2⟩

end Vault42
