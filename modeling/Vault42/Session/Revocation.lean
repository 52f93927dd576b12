import Vault42.Session.Families

/-!
# Revocations reach what they cover

The two results about families, read off the invariant of `Families.lean`.

* `revoked_family_stays_dead`: while no reaper runs, a family that a committed revocation covered
  has no live row in any later state, not even the successor of a rotation that had passed
  `MarkUsed` when the revocation ran; and a refresh that finds its token used ends with the family
  revoked, unless the store fails the revocation.
* `family_identity`: the reaper may run, as long as it spares rotations under way. All rows ever
  committed under one family id then have one birth date and one sender key, and none of them is
  committed after a revocation of the family. `family_identity_lost` is what happens otherwise.
-/

namespace Vault42

open Framework Program List TokenStore

/-! ### The history only grows -/

theorem answerTokens_log (t : ℕ) (w : World) (q : TokenCall) :
    w.tokens.log <:+ (answerTokens t w q).2.log := by
  cases q with
  | create =>
    simp only [answerTokens, create]
    split
    · split
      · exact suffix_refl _
      · exact suffix_cons _ _
    · exact suffix_refl _
  | lockSessions =>
    simp only [answerTokens, lockSessions]
    split <;> exact suffix_refl _
  | countInTxn =>
    simp only [answerTokens]
    split <;> exact suffix_refl _
  | insertInTxn =>
    simp only [answerTokens, insertInTxn]
    split
    · exact suffix_refl _
    · split
      · split <;> exact suffix_refl _
      · exact suffix_refl _
  | lockScope =>
    simp only [answerTokens, lockScope]
    split <;> exact suffix_refl _
  | revokeScope =>
    simp only [answerTokens, revokeScope]
    split <;> exact suffix_refl _
  | commit =>
    simp only [answerTokens, commit]
    split
    · exact suffix_refl _
    · exact suffix_append _ _
  | _ => exact suffix_refl _

theorem answer_log (t : ℕ) (c : Call) (w : World) :
    w.tokens.log <:+ (answer t c w).2.tokens.log := by
  cases c with
  | tokens q => exact answerTokens_log t w q
  | updatePassword | createDevice => simp only [answer]; split <;> exact suffix_refl _
  | _ => exact suffix_refl _

variable {cfg : Settings}

/-- Along a run the history of the table only grows. -/
theorem log_suffix_of_run {ok : Config (service cfg) → Label (service cfg) → Prop}
    {c c' : Config (service cfg)} (hr : Run ok c c') :
    c.world.tokens.log <:+ c'.world.tokens.log := by
  induction hr with
  | refl => exact suffix_refl _
  | snoc _ _ hs ih =>
    refine ih.trans ?_
    cases hs with
    | spawn | fault => exact suffix_refl _
    | act => exact answer_log _ _ _
    | nudge n =>
      cases n with
      | addUser u =>
        rename_i c₁ _ _
        have hlog : c₁.world.tokens.log = (nudge (.addUser u) c₁.world).tokens.log :=
          congrArg log (nudge_addUser u c₁.world).2.1.symm
        exact hlog ▸ suffix_refl _
      | _ => exact suffix_refl _

/-! ### What a finished refresh has seen -/

/-- A statement of the transaction that a revocation is made of. -/
def TokenCall.revokes : TokenCall → Bool
  | .begin => true
  | .lockScope _ => true
  | .revokeScope _ => true
  | .commit => true
  | _ => false

/-- The store has failed a statement of thread `t`'s revocation. -/
def RevocationFailed (c : Config (service cfg)) (t : ℕ) : Prop :=
  ∃ i q r, q.revokes ∧ Fault.tokenFault q r ∧
    c.exchange t i = some ⟨.tokens q, r⟩

/-- Thread `t` has presented a token that was already used: the row it read said so, or the
compare-and-set on it found nothing to spend. -/
def PresentsUsed (c : Config (service cfg)) (t : ℕ) (stored : RefreshToken) : Prop :=
  ∃ i h, c.exchange t i = some ⟨.tokens (.getByTokenHash h), .ok (some stored)⟩ ∧
    (stored.used ∨ ∃ j p, c.exchange t j = some ⟨.tokens (.markUsed p), .ok false⟩)

section Phase

variable {φ : Custody} {c : Call}

variable {tok : RefreshToken}

theorem Moves.stored {ρ ρ' : Rotation} (hm : Moves ρ ρ') (h : ρ.stored = some tok) :
    ρ'.stored = some tok := by
  cases hm with
  | stay => exact h
  | clock =>
    rw [Custody.stored_readClock]
    exact h
  | lose hrot | spend hrot =>
    rw [hrot] at h
    exact h
  | close =>
    rw [Custody.stored_close]
    exact h

theorem stored_next (r : c.Reply) (hallows : (custody cfg).Allows φ c)
    (h : φ.rotation.stored = some tok) : (φ.next c r).rotation.stored = some tok := by
  refine (moves_next r hallows ?_).stored h
  intro h0
  rw [h0] at h
  cases h

theorem Moves.lost {ρ' : Rotation} (hm : Moves (.lost tok) ρ') : ρ' = .lost tok := by
  cases hm with
  | stay | clock | close => rfl
  | lose hrot => cases hrot
  | spend hrot => cases hrot

theorem lost_next (r : c.Reply) (hallows : (custody cfg).Allows φ c) (h : φ.rotation = .lost tok) :
    (φ.next c r).rotation = .lost tok := by
  refine Moves.lost ?_
  rw [← h]
  refine moves_next r hallows ?_
  rw [h]
  exact nofun

/-- The store's failures are only remembered when there was one. -/
theorem refused_next (r : c.Reply) (h : (φ.next c r).refused) :
    φ.refused ∨ ∃ q, q.revokes ∧ ∃ r', Fault.tokenFault q r' ∧
      (⟨c, r⟩ : Event vault) = ⟨.tokens q, r'⟩ := by
  cases c with
  | tokens q =>
    cases q with
    | getByTokenHash | create | insertInTxn =>
      rcases r with e | o
      · exact .inl h
      · cases o <;> exact .inl h
    | markUsed =>
      rcases r with e | b
      · exact .inl h
      · cases b <;> exact .inl h
    | begin =>
      rcases r with e | u
      · exact .inr ⟨.begin, rfl, .error e, ⟨e, rfl⟩, rfl⟩
      · exact .inl h
    | lockScope sc =>
      rcases r with e | u
      · exact .inr ⟨.lockScope sc, rfl, .error e, ⟨e, rfl⟩, rfl⟩
      · exact .inl h
    | revokeScope sc =>
      rcases r with e | u
      · exact .inr ⟨.revokeScope sc, rfl, .error e, ⟨e, rfl⟩, rfl⟩
      · exact .inl h
    | commit =>
      rcases r with e | u
      · exact .inr ⟨.commit, rfl, .error e, ⟨e, rfl⟩, rfl⟩
      · exact .inl h
    | rollback => exact .inl h
    | _ => rcases r with e | a <;> exact .inl h
  | _ => exact .inl h

end Phase

section Refresh

variable {c : Config (service cfg)} {t : ℕ}

theorem failed_of_refused {past : List (Event vault)}
    (h : ((custody cfg).phase past).refused) :
    ∃ (i : ℕ) (q : TokenCall) (r : q.Reply), q.revokes ∧ Fault.tokenFault q r ∧
      past[i]? = some ⟨.tokens q, r⟩ := by
  induction past with
  | nil => cases h
  | cons e past ih =>
    obtain ⟨cl, r⟩ := e
    rcases refused_next r h with h | ⟨q, hq, r', hr', heq⟩
    · obtain ⟨i, q, r', hq, hr', hi⟩ := ih h
      exact ⟨i + 1, q, r', hq, hr', hi⟩
    · exact ⟨0, q, r', hq, hr', congrArg some heq⟩

/-- A thread that has presented a used token, seen from its phase. -/
theorem foundUsed_of_presentsUsed (hD : Disciplined (custody cfg) Custody.post c)
    {stored : RefreshToken} (h : PresentsUsed c t stored) :
    ∃ φ, At (c.phases (custody cfg)) t φ ∧ φ.rotation.stored = some stored ∧
      (stored.revoked ∨ φ.FoundUsed stored) := by
  obtain ⟨i, hash, hread, hused⟩ := h
  obtain ⟨φ, hφ, hst⟩ := phase_of_exchange hD
    (fun _ _ => stored_next) (fun _ _ => rfl) hread
  refine ⟨φ, hφ, hst, ?_⟩
  rcases hused with hused | ⟨j, p, hlost⟩
  · cases hrev : stored.revoked with
    | true => exact .inl rfl
    | false => exact .inr (.inl ⟨hst, hused, hrev⟩)
  · -- the compare-and-set was made on the token that was read
    have stable : (custody cfg).Stable fun φ => ∃ tok, φ.rotation = .lost tok := by
      rintro φ cl r hallows ⟨tok, htok⟩
      exact ⟨tok, lost_next r hallows htok⟩
    have est : ∀ φ, (custody cfg).Allows φ (.tokens (.markUsed p)) →
        ∃ tok, (φ.next (.tokens (.markUsed p)) (.ok false)).rotation = .lost tok := by
      rintro φ ⟨⟨tok, at_, hrot, -⟩, -⟩
      refine ⟨tok, ?_⟩
      show Custody.lose φ.rotation = .lost tok
      rw [hrot]
      rfl
    obtain ⟨ψ, hψ, tok, htok⟩ := phase_of_exchange hD stable est hlost
    obtain rfl := hφ.unique hψ
    rw [htok] at hst
    obtain rfl : tok = stored := Option.some.inj hst
    exact .inr (.inr htok)

/-- A finished refresh has contained the reuse it found, or the store failed it; and it has written
a successor if it answers with a pair. -/
theorem refreshPost_of_result (hD : Disciplined (custody cfg) Custody.post c)
    {th : Thread (service cfg)} (hth : c.threads[t]? = some th) {input : AuthService.RefreshInput}
    (hreq : th.req = .refresh input) {res : Response} (hres : th.result = some res) :
    ∃ r, res = .refresh r ∧ Custody.RefreshPost ((custody cfg).phase th.past) ∧
      Custody.Rotated ((custody cfg).phase th.past) r := by
  obtain ⟨-, hob⟩ := hD t th hth
  rw [Thread.rest_of_result hres, hreq] at hob
  cases res with
  | refresh r => exact ⟨r, rfl, hob⟩
  | login | redirect | exchange | done => cases hob

/-- **Revoked families stay dead.** No reaper runs. Once a revocation covering a family has
committed, no later state has a live row of it; and a refresh that presents a used token ends with
every row of the family revoked, unless the store failed its revocation. -/
theorem revoked_family_stays_dead (hc : Reachable World.Coherent noReaper c) :
    (∀ f c', .burned f ∈ c.world.tokens.log → Run noReaper c c' →
      ∀ r ∈ c'.world.tokens.rows, r.familyID = f → r.live = false) ∧
    ∀ t th input res stored, c.threads[t]? = some th → th.req = .refresh input →
      th.result = some res → PresentsUsed c t stored →
      RevocationFailed c t ∨
        ∀ r ∈ c.world.tokens.rows, r.familyID = stored.familyID → r.revoked := by
  constructor
  · intro f c' hf hrun r hr hfam
    have hc' : Reachable World.Coherent sparesRotations c' := by
      obtain ⟨w, hw, hr⟩ := hc
      exact ⟨w, hw, (hr.trans hrun).mono sparesRotations_of_noReaper⟩
    obtain ⟨⟨-, hF⟩, -⟩ := (families_invariant cfg).keeps.reachable hc'
    have hrev := (hF.burned ((log_suffix_of_run hrun).subset hf)).2 r hr hfam
    simp [Row.live, hrev]
  · intro t th input res stored hth hreq hres hused
    obtain ⟨⟨-, hF⟩, hD⟩ :=
      (families_invariant cfg).keeps.reachable (hc.mono sparesRotations_of_noReaper)
    obtain ⟨φ, hφ, hst, hcase⟩ := foundUsed_of_presentsUsed hD hused
    rcases hcase with hrev | hfound
    · exact .inr (hF.contained hφ hst (.inr hrev))
    have hphase : φ = (custody cfg).phase th.past :=
      hφ.unique ⟨_, c.phases_getElem? (custody cfg) hth⟩
    obtain ⟨-, -, hpost, -⟩ := refreshPost_of_result hD hth hreq hres
    rcases hpost stored (hphase ▸ hfound) with hburnt | hrefused
    · exact .inr (hF.contained hφ hst (.inl (hphase ▸ hburnt)))
    · obtain ⟨i, q, r, hq, hr, hi⟩ := failed_of_refused hrefused
      refine .inl ⟨i, q, r, hq, hr, ?_⟩
      simp only [Config.exchange, hth, Option.bind_some, hi]

end Refresh

namespace Sample

theorem world_coherent : world.Coherent where
  toWellFormed := world_wellFormed
  kin := by simp [world]

/-- A login and two refreshes of its token. The first one has spent the token when the second reads
it; the second revokes the family and finishes; then the first goes on. -/
def contained : Config (service settings) :=
  (execAll noReaperTest ⟨world, []⟩
    ([.spawn (.login loginInput)] ++ acts 0 24 ++
      [.spawn (.refresh (refreshInput 3))] ++ acts 1 4 ++
      [.spawn (.refresh (refreshInput 3))] ++ acts 2 6 ++ acts 1 9)).getD ⟨world, []⟩

theorem contained_reachable : Reachable World.Coherent noReaper contained :=
  ⟨world, world_coherent, run_execAll noReaper_of_test _ _⟩

end Sample

theorem revoked_family_stays_dead_contained :
    .burned 4 ∈ Sample.contained.world.tokens.log ∧
      (Sample.contained.world.tokens.rows.map fun r => (r.id, r.familyID, r.used, r.revoked)) =
        [(5, 4, true, true)] ∧
      (∀ f c', .burned f ∈ Sample.contained.world.tokens.log → Run noReaper Sample.contained c' →
        ∀ r ∈ c'.world.tokens.rows, r.familyID = f → r.live = false) ∧
      ∀ t th input res stored, Sample.contained.threads[t]? = some th → th.req = .refresh input →
        th.result = some res → PresentsUsed Sample.contained t stored →
        RevocationFailed Sample.contained t ∨
          ∀ r ∈ Sample.contained.world.tokens.rows, r.familyID = stored.familyID →
            r.revoked :=
  ⟨by decide +kernel, by decide +kernel, revoked_family_stays_dead Sample.contained_reachable⟩

/-! ### The identity of a family -/

/-- **The identity of a family survives**: all rows ever committed under one family id have one
birth date and one sender key, and none of them is committed after a revocation of the family. The
history has the latest event first. -/
def TokenStore.KeepsIdentity (s : TokenStore) : Prop :=
  (∀ r r', .inserted r ∈ s.log → .inserted r' ∈ s.log → r.familyID = r'.familyID →
    r.familyCreatedAt = r'.familyCreatedAt ∧ r.dpopJKT = r'.dpopJKT) ∧
  s.log.Pairwise fun e e' => ∀ r f, e = .inserted r → e' = .burned f → r.familyID ≠ f

/-- Along every run in which the reaper spares rotations under way, families keep their identity. -/
theorem family_identity {c : Config (service cfg)}
    (hc : Reachable World.Coherent sparesRotations c) : c.world.tokens.KeepsIdentity := by
  obtain ⟨⟨-, hF⟩, -⟩ := (families_invariant cfg).keeps.reachable hc
  refine ⟨fun r r' hr hr' hf => ?_, hF.ordered⟩
  have hk := hF.kin hr hr' hf
  exact ⟨hk.familyCreatedAt, hk.dpopJKT⟩

namespace Sample

/-- A login, a refresh, and a sweep when both rows have expired. -/
def swept : Config (service settings) :=
  (execAll sparesRotationsTest ⟨world, []⟩
    ([.spawn (.login loginInput)] ++ acts 0 24 ++ [.spawn (.refresh (refreshInput 3))] ++
      acts 1 12 ++ [.nudge (.tick 200), .spawn .sweep] ++ acts 2 2)).getD ⟨world, []⟩

/-- A login, and a refresh that has spent the token when the family is revoked, its only row expires
and a sweep deletes it; then the refresh goes on. -/
def emptied : Config (service settings) :=
  (execAll (fun _ _ => true) ⟨world, []⟩
    ([.spawn (.login loginInput)] ++ acts 0 24 ++
      [.spawn (.refresh (refreshInput 3))] ++ acts 1 4 ++
      [.spawn (.revoke (.family 4))] ++ acts 2 4 ++ [.nudge (.tick 200), .spawn .sweep] ++
      acts 3 1 ++ acts 1 8)).getD ⟨world, []⟩

theorem swept_reachable : Reachable World.Coherent sparesRotations swept :=
  ⟨world, world_coherent, run_execAll sparesRotations_of_test _ _⟩

theorem emptied_reachable : Reachable World.Coherent anyStep emptied :=
  ⟨world, world_coherent, run_execAll (fun _ _ _ => trivial) _ _⟩

/-- The row of the login. -/
def firstRow : Row where
  id := 5
  userID := "u"
  clientID := none
  tokenHash := ⟨3⟩
  familyID := 4
  deviceID := some 1
  fingerprintHash := some ⟨⟨"1", "", "", ""⟩⟩
  expiresAt := 101
  used := false
  revoked := false
  createdAt := 1
  familyCreatedAt := 1
  dpopJKT := none

/-- The row of a rotation that found its family emptied: the family is born again. -/
def rebornRow : Row :=
  { firstRow with
    id := 8
    tokenHash := ⟨7⟩
    expiresAt := 301
    createdAt := 201
    familyCreatedAt := 201 }

theorem emptied_log :
    emptied.world.tokens.log = [.inserted rebornRow, .burned 4, .inserted firstRow] := by
  decide +kernel

end Sample

theorem family_identity_swept :
    Sample.swept.world.tokens.log.length = 2 ∧ Sample.swept.world.tokens.rows = [] ∧
      Sample.swept.world.tokens.KeepsIdentity :=
  ⟨by decide +kernel, by decide +kernel, family_identity Sample.swept_reachable⟩

/-- **The reaper can empty a family under a rotation.** The successor is then committed after the
family was revoked, and as the first row of a family born again. -/
theorem family_identity_lost :
    Reachable World.Coherent anyStep Sample.emptied ∧
      .inserted Sample.firstRow ∈ Sample.emptied.world.tokens.log ∧
      .inserted Sample.rebornRow ∈ Sample.emptied.world.tokens.log ∧
      Sample.firstRow.familyID = Sample.rebornRow.familyID ∧
      Sample.firstRow.familyCreatedAt ≠ Sample.rebornRow.familyCreatedAt ∧
      ¬ (Sample.emptied.world.tokens.log.Pairwise fun e e' =>
        ∀ r f, e = .inserted r → e' = .burned f → r.familyID ≠ f) ∧
      ¬ Sample.emptied.world.tokens.KeepsIdentity := by
  have hfirst : .inserted Sample.firstRow ∈ Sample.emptied.world.tokens.log := by
    rw [Sample.emptied_log]
    simp
  have hreborn : .inserted Sample.rebornRow ∈ Sample.emptied.world.tokens.log := by
    rw [Sample.emptied_log]
    simp
  refine ⟨Sample.emptied_reachable, hfirst, hreborn, rfl, by decide, ?_, ?_⟩
  · rw [Sample.emptied_log]
    intro hp
    exact (List.pairwise_cons.mp hp).1 (.burned 4) (by simp) _ _ rfl rfl rfl
  · intro hk
    exact absurd (hk.1 _ _ hfirst hreborn rfl).1 (by decide)

/-! ### The identity of a row -/

section Identity

variable {cfg : Settings} {c c' : Config (service cfg)} {l : Label (service cfg)}

/-- A row that a step brings into the table has an id that no committed row has had. -/
theorem new_id_of_step (hc : Reachable World.WellFormed anyStep c) (hs : Step c l c') {r' : Row}
    (hr' : r' ∈ c'.world.tokens.rows) :
    (∃ r₀ ∈ c.world.tokens.rows, r₀.id = r'.id) ∨
      ∀ r, .inserted r ∈ c.world.tokens.log → r.id ≠ r'.id := by
  obtain ⟨hL, hD⟩ := (ledger_invariant cfg).keeps.reachable hc
  cases hs with
  | spawn | fault => exact .inl ⟨r', hr', rfl⟩
  | @act t th cl k hth hrest hfree =>
    obtain ⟨-, hob⟩ := hD t th hth
    rw [hrest] at hob
    have hstep := tableStep_of_answer cl hob.1 hfree
    obtain ⟨born, hborn, hrows, -, -⟩ := hstep.rows
    rcases hrows r' hr' with hb | ⟨r₀, hr₀, hage⟩
    · exact .inr ((hborn r' hb).id hL ⟨_, c.phases_getElem? (custody cfg) hth⟩).2.2
    · exact .inl ⟨r₀, hr₀, hage.id.symm⟩
  | nudge n =>
    cases n with
    | addUser u =>
      have htable : (nudge (.addUser u) c.world).tokens = c.world.tokens := (nudge_addUser u _).2.1
      exact .inl ⟨r', htable ▸ hr', rfl⟩
    | _ => exact .inl ⟨r', hr', rfl⟩

/-- The id of a row that was there once and is there no more does not come back. -/
theorem gone_of_run (hc : Reachable World.WellFormed anyStep c) (hr : Run anyStep c c') {r : Row}
    (hlogged : .inserted r ∈ c.world.tokens.log)
    (hgone : ∀ r' ∈ c.world.tokens.rows, r.id ≠ r'.id) :
    ∀ r' ∈ c'.world.tokens.rows, r.id ≠ r'.id := by
  induction hr with
  | refl => exact hgone
  | snoc hr _ hs ih =>
    intro r' hr'
    rcases new_id_of_step (hc.run hr) hs hr' with ⟨r₀, hr₀, hid⟩ | hnew
    · rw [← hid]
      exact ih r₀ hr₀
    · exact hnew r ((log_suffix_of_run hr).subset hlogged)

/-- **Nothing of a row changes but its two marks, and no id is used again**: two rows of one id, at
any two moments of a run, were inserted as one; the ids in the table are distinct at every moment;
and an id whose row has been deleted is the id of no row of any later moment. -/
theorem row_identity (hc : Reachable World.WellFormed anyStep c) :
    ∀ c', Run anyStep c c' →
      (∀ r ∈ c.world.tokens.rows, ∀ r' ∈ c'.world.tokens.rows, r.id = r'.id →
        r.pristine = r'.pristine) ∧
      (c'.world.tokens.rows.map Row.id).Nodup ∧
      ∀ c'', Run anyStep c' c'' → ∀ r ∈ c.world.tokens.rows,
        (∀ r' ∈ c'.world.tokens.rows, r.id ≠ r'.id) → ∀ r' ∈ c''.world.tokens.rows,
          r.id ≠ r'.id := by
  intro c' hr
  have hL := Ledger.of_reachable (fun _ h => h) hc
  have hL' := Ledger.of_reachable (fun _ h => h) (hc.run hr)
  have later : ∀ r ∈ c.world.tokens.rows, .inserted r.pristine ∈ c'.world.tokens.log :=
    fun r hmem => (log_suffix_of_run hr).subset (hL.rows_logged r hmem)
  refine ⟨fun r hmem r' hmem' hid => ?_, hL'.ids_nodup, fun c'' hr' r hmem hgone => ?_⟩
  · exact hL'.logged_inj (later r hmem) (hL'.rows_logged r' hmem') hid
  · exact gone_of_run (r := r.pristine) (hc.run hr) hr' (later r hmem) hgone

theorem row_identity_replayed : Sample.replayed.world.tokens.rows.length = 2 ∧
    ∀ c', Run anyStep Sample.replayed c' → ∀ r ∈ Sample.replayed.world.tokens.rows,
      (∀ r' ∈ c'.world.tokens.rows, r.id ≠ r'.id) →
      ∀ c'', Run anyStep c' c'' → ∀ r' ∈ c''.world.tokens.rows, r.id ≠ r'.id :=
  ⟨by decide +kernel, fun c' hr r hmem hgone c'' hr' =>
    (row_identity Sample.replayed_reachable c' hr).2.2 c'' hr' r hmem hgone⟩

end Identity

end Vault42
