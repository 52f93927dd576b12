import Vault42.Session.Handlers

/-!
# What one step can do to the token table

`TableStep` lists what the answer to a call can do to the token table, to the supply of random
values and to the phase of the thread that made the call. It is the only place where the statements
of the table are unfolded against the custody discipline: `tableStep_of_answer` says that every
allowed call that is not waiting for a lock takes one of these steps, `next_of_fault` that a failed
call changes nothing but the thread's record of errors. The invariants of the table are then case
analyses of `TableStep`.

`At ps t φ` reads "thread `t` is in phase `φ`", and `TableInvariant.keeps` turns an invariant of the
table and the phases into the obligations of the general invariant rule.
-/

namespace Vault42

open Framework Program TokenStore

/-- Insert a committed row. -/
def TokenStore.insert (s : TokenStore) (row : Row) : TokenStore :=
  { s with rows := s.rows ++ [row], log := .inserted row :: s.log }

/-- The table after `x` has committed. -/
def TokenStore.committed (s : TokenStore) (x : Txn) : TokenStore where
  rows := revokeIds s.rows x.revoking ++ x.inserted.toList
  txns := s.txns.filter fun y => y.owner != x.owner
  log := x.inserted.toList.map TableEvent.inserted ++
    (familiesOf s.rows x.revoking).map TableEvent.burned ++ s.log

/-- The lock statement of a revocation, on the transaction that runs it. -/
def Txn.lock (x : Txn) (sc : Scope) (rows : List Row) : Txn :=
  match sc with
  | .everything => { x with exclusive := true }
  | _ =>
    { x with
      rowLevel := true
      locked := x.locked ++ (rows.filter sc.covers).map fun r => r.id }

/-- The write statement of a revocation, on the transaction that runs it. -/
def Txn.revoke (x : Txn) (sc : Scope) (rows : List Row) : Txn :=
  { x with
    rowLevel := true
    locked := x.locked ++ (rows.filter sc.covers).map fun r => r.id
    revoking := x.revoking ++ (rows.filter sc.covers).map fun r => r.id }

/-- The guarded insert, on the transaction that runs it: the rows of the family are locked, and the
row is there when the guard let it through. -/
def Txn.insert (x : Txn) (family : List Row) (row : Option Row) : Txn :=
  { x with
    rowLevel := true
    locked := x.locked ++ family.map fun r => r.id
    inserted := row.or x.inserted }

/-- **What the answer to a call can do** to the table, to the supply and to the phase of thread `t`,
with the session cap `cap`. -/
inductive TableStep (cap : ℤ) (t : ℕ) (w : World) (φ : Custody) :
    Call → TokenStore → ℕ → Custody → Prop where
  /-- Nothing, but perhaps an error was reported. -/
  | aside (c : Call) (refused : Bool) (notes : Notes) :
      TableStep cap t w φ c w.tokens w.supply { φ with refused := refused, notes := notes }
  /-- A password was salted. -/
  | salt (p : String) : TableStep cap t w φ (.hashPassword p) w.tokens (w.supply + 1) φ
  | draw : TableStep cap t w φ .random w.tokens (w.supply + 1)
      { φ with drawn := w.supply :: φ.drawn }
  | clock : TableStep cap t w φ .now w.tokens w.supply
      { φ with rotation := Custody.readClock w.clock φ.rotation, notes := φ.noteClock w.clock }
  | read {r : Row} (hidle : φ.rotation = .idle) (htxn : φ.txn = .none) (hburnt : φ.burnt = [])
      (hr : r ∈ w.tokens.rows) :
      TableStep cap t w φ (.tokens (.getByTokenHash r.tokenHash)) w.tokens w.supply
        { φ with rotation := .read r.toModel }
  /-- A row written outside a transaction. -/
  | create {tok : RefreshToken} (hfresh : φ.Fresh tok) (htxn : φ.txn = .none)
      (hkind : cap ≤ 0 ∧ φ.Firstborn tok ∨ ∃ stored, φ.Successor tok stored)
      (hguard : w.tokens.insertGuard w.users tok) (hdup : w.tokens.duplicates tok = false)
      (hfree : w.tokens.writeBlocked t (fun r => r.familyID == tok.familyID) = false) :
      TableStep cap t w φ (.tokens (.create tok)) (w.tokens.insert (w.tokens.rowToInsert tok))
        w.supply { φ with wrote := true, rotation := Custody.close φ.rotation }
  /-- A row spent. -/
  | spend {id : UUID} {r : Row} (hmay : φ.MaySpend id) (hr : r ∈ w.tokens.rows)
      (hspend : TokenStore.spendable id r)
      (hfree : w.tokens.writeBlocked t (TokenStore.spendable id) = false) :
      TableStep cap t w φ (.tokens (.markUsed id)) (w.tokens.markUsed id).2 w.supply
        { φ with rotation := Custody.spend φ.rotation }
  /-- A compare-and-set that found no row to spend. -/
  | lose {id : UUID} (hmay : φ.MaySpend id) :
      TableStep cap t w φ (.tokens (.markUsed id)) w.tokens w.supply
        { φ with rotation := Custody.lose φ.rotation }
  /-- A batch of either reaper. -/
  | reap {q : TokenCall} {dead : Row → Bool}
      (hq : q = .deleteExpired ∧ dead = TokenStore.expiredSpent w.clock ∨
        q = .deleteExpiredUnused ∧ dead = TokenStore.expiredUnused w.clock)
      (hfree : w.tokens.writeBlocked t
        (fun r => (w.tokens.reaped dead).contains r.id) = false) :
      TableStep cap t w φ (.tokens q) (w.tokens.reapBatch dead).2 w.supply φ
  | begin (htxn : φ.txn = .none) :
      TableStep cap t w φ (.tokens .begin) (w.tokens.begin t w.clock) w.supply
        { φ with txn := .opened }
  | lockSessions {u : UserID} (htxn : φ.txn = .opened)
      (hfree : w.tokens.sessionsLocked t u = false) :
      TableStep cap t w φ (.tokens (.lockSessions u))
        (w.tokens.updateTxn t fun x => { x with sessionLock := some u }) w.supply
        { φ with txn := .sessionsLocked u }
  | count {u : UserID} {x : Txn} (htxn : φ.txn = .sessionsLocked u)
      (hx : w.tokens.txnOf t = some x) :
      TableStep cap t w φ (.tokens (.countInTxn u)) w.tokens w.supply
        { φ with txn := .counted u (w.tokens.countActiveFamilies u x.startedAt) }
  /-- A first row written inside a transaction. -/
  | insert {tok : RefreshToken} {n : ℕ} (hfresh : φ.Fresh tok) (hborn : φ.Firstborn tok)
      (htxn : φ.txn = .counted tok.userID n) (hn : (n : ℤ) < cap)
      (hguard : w.tokens.insertGuard w.users tok) (hdup : w.tokens.duplicates tok = false) :
      TableStep cap t w φ (.tokens (.insertInTxn tok))
        (w.tokens.updateTxn t fun x =>
          x.insert (w.tokens.family tok.familyID) (some (w.tokens.rowToInsert tok)))
        w.supply { φ with wrote := true, txn := .inserted }
  /-- The guard refused a first row inside a transaction: its locks stay. -/
  | refuse {tok : RefreshToken} {n : ℕ} (htxn : φ.txn = .counted tok.userID n) :
      TableStep cap t w φ (.tokens (.insertInTxn tok))
        (w.tokens.updateTxn t fun x => x.insert (w.tokens.family tok.familyID) none) w.supply φ
  | lockScope {sc : Scope} (htxn : φ.txn = .opened) :
      TableStep cap t w φ (.tokens (.lockScope sc))
        (w.tokens.updateTxn t fun x => x.lock sc w.tokens.rows) w.supply
        { φ with txn := .locked sc }
  | revokeScope {sc : Scope} (htxn : φ.txn = .locked sc)
      (hfree : w.tokens.writeBlocked t sc.covers = false) :
      TableStep cap t w φ (.tokens (.revokeScope sc))
        (w.tokens.updateTxn t fun x => x.revoke sc w.tokens.rows) w.supply
        { φ with txn := .revoking sc }
  | commit {x : Txn} (htxn : φ.txn = .inserted ∨ ∃ sc, φ.txn = .revoking sc)
      (hx : x ∈ w.tokens.txns) (howner : x.owner = t) :
      TableStep cap t w φ (.tokens .commit) (w.tokens.committed x) w.supply
        { φ with txn := .none, burnt := Custody.commitScope φ.txn ++ φ.burnt }
  | rollback : TableStep cap t w φ (.tokens .rollback) (w.tokens.rollback t) w.supply
      { φ with txn := .none }

section Inversion

variable {cap : ℤ} {t : ℕ} {w : World} {φ : Custody}

theorem TableStep.unchanged (c : Call) : TableStep cap t w φ c w.tokens w.supply φ :=
  .aside c φ.refused φ.notes

theorem markUsed_of_not_any {s : TokenStore} {id : UUID}
    (h : s.rows.any (spendable id) = false) : (s.markUsed id).2 = s := by
  have hrows : s.rows.map (fun r => if spendable id r then { r with used := true } else r)
      = s.rows := by
    refine (List.map_congr_left fun r hr => ?_).trans (List.map_id _)
    rw [List.any_eq_false] at h
    rw [if_neg (h r hr)]
    rfl
  simp only [markUsed, hrows]

/-- A statement of the token table that is allowed and not blocked takes a `TableStep`. -/
theorem tableStep_of_answerTokens (q : TokenCall) (hallows : φ.AllowsToken cap q)
    (hfree : blocked t (.tokens q) w = false) :
    TableStep cap t w φ (.tokens q) (answerTokens t w q).2 w.supply
      (φ.nextToken q (answerTokens t w q).1) := by
  cases q with
  | getByTokenHash h =>
    simp only [answerTokens, getByTokenHash]
    cases hfind : w.tokens.rows.find? fun r => r.tokenHash == h with
    | none => exact .unchanged _
    | some r =>
      have hhash : r.tokenHash = h := by simpa using List.find?_some hfind
      subst hhash
      exact .read hallows.1 hallows.2.1 hallows.2.2 (List.mem_of_find?_eq_some hfind)
  | familyOrigin f =>
    exact .aside _ φ.refused { φ.notes with origin := some (w.tokens.familyOrigin f) }
  | countActiveFamilies => exact .unchanged _
  | create tok =>
    obtain ⟨hfresh, htxn, hkind⟩ := hallows
    simp only [answerTokens, create]
    cases hguard : w.tokens.insertGuard w.users tok with
    | false => exact .unchanged _
    | true =>
      cases hdup : w.tokens.duplicates tok with
      | true => exact .unchanged _
      | false => exact .create hfresh htxn hkind hguard hdup hfree
  | markUsed id =>
    simp only [answerTokens]
    cases hany : w.tokens.rows.any (spendable id) with
    | false =>
      have hfst : (w.tokens.markUsed id).1 = false := hany
      rw [markUsed_of_not_any hany, hfst]
      exact .lose hallows
    | true =>
      have hfst : (w.tokens.markUsed id).1 := hany
      rw [hfst]
      obtain ⟨r, hr, hspend⟩ := List.any_eq_true.mp hany
      exact .spend hallows hr hspend hfree
  | deleteExpired => exact .reap (.inl ⟨rfl, rfl⟩) hfree
  | deleteExpiredUnused => exact .reap (.inr ⟨rfl, rfl⟩) hfree
  | begin => exact .begin hallows
  | lockSessions =>
    simp only [answerTokens, lockSessions]
    cases w.tokens.txnOf t with
    | none => exact .unchanged _
    | some => exact .lockSessions hallows hfree
  | countInTxn =>
    simp only [answerTokens]
    cases hx : w.tokens.txnOf t with
    | none => exact .unchanged _
    | some => exact .count hallows hx
  | insertInTxn tok =>
    obtain ⟨hfresh, hborn, n, htxn, hn⟩ := hallows
    simp only [answerTokens, insertInTxn]
    cases w.tokens.txnOf t with
    | none => exact .unchanged _
    | some =>
      dsimp only
      cases hguard : w.tokens.insertGuard w.users tok with
      | false => exact .refuse htxn
      | true =>
        cases hdup : w.tokens.duplicates tok with
        | true => exact .unchanged _
        | false => exact .insert hfresh hborn htxn hn hguard hdup
  | lockScope =>
    simp only [answerTokens, lockScope]
    cases w.tokens.txnOf t with
    | none => exact .aside _ true φ.notes
    | some => exact .lockScope hallows
  | revokeScope =>
    simp only [answerTokens, revokeScope]
    cases w.tokens.txnOf t with
    | none => exact .aside _ true φ.notes
    | some => exact .revokeScope hallows hfree
  | commit =>
    simp only [answerTokens, commit]
    cases hx : w.tokens.txnOf t with
    | none => exact .aside _ true φ.notes
    | some x =>
      have howner : x.owner = t := by simpa using List.find?_some hx
      subst howner
      exact .commit hallows (List.mem_of_find?_eq_some hx) rfl
  | rollback => exact .rollback

/-- **Every allowed call that is not waiting takes a `TableStep`.** -/
theorem tableStep_of_answer {cfg : Settings} (c : Call) (hallows : (custody cfg).Allows φ c)
    (hfree : blocked t c w = false) :
    TableStep cfg.maxSessionsPerUser t w φ c (answer t c w).2.tokens (answer t c w).2.supply
      (φ.next c (answer t c w).1) := by
  cases c with
  | now => exact .clock
  | random => exact .draw
  | hashPassword p => exact .salt p
  | tokens q => exact tableStep_of_answerTokens q hallows.1 hfree
  | updatePassword | createDevice =>
    simp only [answer]
    split
    · exact .unchanged _
    · exact .unchanged _
  | _ => exact .unchanged _

/-- A call that fails tells its thread at most that it failed. -/
theorem next_of_fault (c : Call) {r : c.Reply} (hr : Fault c r) :
    ∃ b ν, φ.next c r = { φ with refused := b, notes := ν } := by
  cases c with
  | now => cases hr
  | random => cases hr
  | tokens q =>
    cases q with
    | rollback => cases hr
    | _ =>
      obtain ⟨e, rfl⟩ := hr
      first
      | exact ⟨φ.refused, φ.notes, rfl⟩
      | exact ⟨true, φ.notes, rfl⟩
      | exact ⟨φ.refused, { φ.notes with origin := some 0 }, rfl⟩
  | _ => exact ⟨φ.refused, φ.notes, rfl⟩

end Inversion

/-! ### Invariants of the table -/

/-- **The obligations of an invariant of the table.** `I` is about the clock, the table, the supply
and the phases of the threads. -/
structure TableInvariant (cfg : Settings) (Init : World → Prop)
    (ok : Config (service cfg) → Label (service cfg) → Prop)
    (I : Time → TokenStore → ℕ → List (Req × Custody) → Prop) : Prop where
  init : ∀ w, Init w → I w.clock w.tokens w.supply []
  spawn : ∀ now s n ps r, I now s n ps → I now s n (ps ++ [(r, .start)])
  refused : ∀ (w : World) ps t r φ b ν, I w.clock w.tokens w.supply ps → ps[t]? = some (r, φ) →
    I w.clock w.tokens w.supply (ps.set t (r, { φ with refused := b, notes := ν }))
  step : ∀ c t r φ cl s' n' φ', Reachable Init ok c →
    I c.world.clock c.world.tokens c.world.supply (c.phases (custody cfg)) →
    (c.phases (custody cfg))[t]? = some (r, φ) → c.pending t = some cl → ok c (.act t) →
    TableStep cfg.maxSessionsPerUser t c.world φ cl s' n' φ' →
    I c.world.clock s' n' ((c.phases (custody cfg)).set t (r, φ'))
  tick : ∀ now s n ps (d : ℕ), I now s n ps → I (now + d) s n ps
  disconnect : ∀ now s n ps t, I now s n ps → I now (s.rollback t) n ps

theorem answer_clock (t : ℕ) (c : Call) (w : World) : (answer t c w).2.clock = w.clock := by
  cases c with
  | updatePassword | createDevice => simp only [answer]; split <;> rfl
  | _ => rfl

/-- A new account, or one that is refused, leaves the table alone. -/
theorem nudge_addUser (u : User) (w : World) :
    (nudge (.addUser u) w).clock = w.clock ∧ (nudge (.addUser u) w).tokens = w.tokens ∧
      (nudge (.addUser u) w).supply = w.supply := by
  simp only [nudge]
  split
  · exact ⟨rfl, rfl, rfl⟩
  · exact ⟨rfl, rfl, rfl⟩

theorem cache_nudge_addUser (u : User) (w : World) : (nudge (.addUser u) w).cache = w.cache := by
  simp only [nudge]
  split
  · rfl
  · rfl

/-- An invariant of the table is an invariant of the service. -/
theorem TableInvariant.keeps {cfg : Settings} {Init : World → Prop}
    {ok : Config (service cfg) → Label (service cfg) → Prop}
    {I : Time → TokenStore → ℕ → List (Req × Custody) → Prop} (h : TableInvariant cfg Init ok I) :
    Keeps Init ok (custody cfg) Custody.post
      (fun (w : World) ps => I w.clock w.tokens w.supply ps) where
  program := Custody.serve_obeys cfg
  init := h.init
  spawn w ps r := h.spawn w.clock w.tokens w.supply ps r
  act c t th cl hreach hI hth hpend hfree hok hallows := by
    refine ⟨trivial, ?_⟩
    have hpending := (Config.pending_eq hth).trans hpend
    have hstep := tableStep_of_answer cl hallows hfree
    have hI' := h.step c t th.req _ cl _ _ _ hreach hI (c.phases_getElem? (custody cfg) hth)
      hpending hok hstep
    have hclock : ((service cfg).answer t cl c.world).2.clock = c.world.clock := answer_clock t cl _
    rw [hclock]
    exact hI'
  fault c t th cl r hreach hI hth hpend hr _ hallows := by
    refine ⟨trivial, ?_⟩
    have hphase := c.phases_getElem? (custody cfg) hth
    obtain ⟨b, ν, hb⟩ := next_of_fault cl hr
    have hnext : (custody cfg).next ((custody cfg).phase th.past) cl r = _ := hb
    rw [hnext]
    exact h.refused c.world _ t _ _ b ν hI hphase
  nudge c n hreach hI hok := by
    cases n with
    | tick d => exact h.tick _ _ _ _ d hI
    | disconnect t => exact h.disconnect _ _ _ _ t hI
    | addUser u =>
      obtain ⟨hclock, htokens, hsupply⟩ := nudge_addUser u c.world
      change I (nudge (.addUser u) c.world).clock (nudge (.addUser u) c.world).tokens
        (nudge (.addUser u) c.world).supply _
      rw [hclock, htokens, hsupply]
      exact hI
    | _ => exact hI

end Vault42
