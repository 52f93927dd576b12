import Mathlib.Data.List.Nodup

/-!
# Tables with transactions

A table of rows, each under a key, and the transactions open on it. A transaction keeps what it has
written to itself until it commits: its *write set* says, for each key it has touched, which row it
left there, if any. It sees the table with its write set laid over it (`TxTable.view`), and
everybody else sees the table without. A key that a transaction has touched is locked: a statement
of somebody else that needs it has to wait (`TxTable.lockedFor`), which is how a database at READ
COMMITTED keeps two writers of one row apart. A statement outside of a transaction is one that
commits at once (`TxTable.apply`).

Main results, over any type of keys and rows:

* `TxTable.mem_overlay`: which rows a write set leaves.
* `TxTable.WF`: keys are unique, and no two transactions have touched the same one. `begin`,
  `rollback`, `write`, `apply` and `commit` keep it, as long as writers wait for locks.
-/

namespace Framework

open List

variable {K R : Type} [DecidableEq K]

/-- What a transaction has written: the row it left under each key it has touched, or none. -/
abbrev WriteSet (K R : Type) := List (K × Option R)

/-- Something was written under the key. -/
def WriteSet.touches (ws : WriteSet K R) (k : K) : Bool := ws.any fun w => w.1 == k

variable {ws : WriteSet K R}

theorem WriteSet.touches_iff {k : K} : ws.touches k ↔ ∃ o, (k, o) ∈ ws := by
  simp only [touches, any_eq_true, beq_iff_eq]
  constructor
  · rintro ⟨⟨k', o⟩, hmem, rfl⟩
    exact ⟨o, hmem⟩
  · rintro ⟨o, hmem⟩
    exact ⟨(k, o), hmem, rfl⟩

/-- A write set in which a key occurs once, with a row that has it. -/
structure WriteSet.WF (key : R → K) (ws : WriteSet K R) : Prop where
  nodup : (ws.map Prod.fst).Nodup
  keyed : ∀ {k r}, (k, some r) ∈ ws → key r = k

/-- The write set after a further statement: what the statement wrote, and what it left of
before. -/
def WriteSet.add (ws new : WriteSet K R) : WriteSet K R :=
  new ++ ws.filter fun w => !new.touches w.1

variable {new : WriteSet K R}

theorem WriteSet.mem_add {k : K} {o : Option R} :
    (k, o) ∈ ws.add new ↔ (k, o) ∈ new ∨ ((k, o) ∈ ws ∧ new.touches k = false) := by
  simp only [add, mem_append, mem_filter, Bool.not_eq_true']

theorem WriteSet.touches_add {k : K} :
    (ws.add new).touches k ↔ new.touches k ∨ ws.touches k := by
  rw [touches_iff]
  constructor
  · rintro ⟨o, hmem⟩
    rcases mem_add.mp hmem with hnew | ⟨hold, -⟩
    · exact .inl (touches_iff.mpr ⟨o, hnew⟩)
    · exact .inr (touches_iff.mpr ⟨o, hold⟩)
  · intro h
    by_cases hnew : new.touches k
    · obtain ⟨o, hmem⟩ := touches_iff.mp hnew
      exact ⟨o, mem_add.mpr (.inl hmem)⟩
    · obtain ⟨o, hmem⟩ := touches_iff.mp (h.resolve_left hnew)
      exact ⟨o, mem_add.mpr (.inr ⟨hmem, by simpa using hnew⟩)⟩

theorem WriteSet.WF.add {key : R → K} (h : ws.WF key) (hnew : new.WF key) :
    (ws.add new).WF key where
  nodup := by
    rw [WriteSet.add, map_append, nodup_append]
    refine ⟨hnew.nodup, (filter_sublist.map _).nodup h.nodup, ?_⟩
    -- what is kept of before is under keys that the statement did not touch
    intro k hk k' hk' heq
    subst heq
    obtain ⟨⟨k₁, o⟩, hmem, rfl⟩ := mem_map.mp hk
    obtain ⟨w, hw, heq⟩ := mem_map.mp hk'
    have huntouched := (mem_filter.mp hw).2
    rw [heq, WriteSet.touches_iff.mpr ⟨o, hmem⟩] at huntouched
    cases huntouched
  keyed hmem := by
    rcases WriteSet.mem_add.mp hmem with hmem | ⟨hmem, -⟩
    · exact hnew.keyed hmem
    · exact h.keyed hmem

/-- A table and the transactions open on it, each with its owner. -/
structure TxTable (K R : Type) where
  rows : List R
  txns : List (ℕ × WriteSet K R)
deriving Repr

namespace TxTable

/-- The rows that a write set leaves. -/
def overlay (key : R → K) (rows : List R) (ws : WriteSet K R) : List R :=
  ws.filterMap Prod.snd ++ rows.filter fun r => !ws.touches (key r)

/-- What a transaction has written so far. -/
def writesOf (T : TxTable K R) (t : ℕ) : WriteSet K R := (T.txns.lookup t).getD []

/-- What a thread sees: its own writes over the table. -/
def view (key : R → K) (T : TxTable K R) (t : ℕ) : List R := overlay key T.rows (T.writesOf t)

/-- Somebody else has touched the key and not finished. -/
def lockedFor (T : TxTable K R) (t : ℕ) (k : K) : Bool :=
  T.txns.any fun x => x.1 != t && x.2.touches k

def begin (T : TxTable K R) (t : ℕ) : TxTable K R :=
  { T with txns := (t, []) :: T.txns.filter fun x => x.1 != t }

/-- Forget what a transaction has written. -/
def rollback (T : TxTable K R) (t : ℕ) : TxTable K R :=
  { T with txns := T.txns.filter fun x => x.1 != t }

/-- A statement inside of a transaction. -/
def write (T : TxTable K R) (t : ℕ) (new : WriteSet K R) : TxTable K R :=
  { T with txns := T.txns.map fun x => if x.1 = t then (t, x.2.add new) else x }

def apply (key : R → K) (T : TxTable K R) (ws : WriteSet K R) : TxTable K R :=
  { T with rows := overlay key T.rows ws }

/-- Make what a transaction has written visible, and release its locks. -/
def commit (key : R → K) (T : TxTable K R) (t : ℕ) : TxTable K R :=
  (T.apply key (T.writesOf t)).rollback t

variable {key : R → K} {T : TxTable K R} {t u : ℕ} {k : K} {r : R} {ws : WriteSet K R}

@[simp] theorem overlay_nil (rows : List R) : overlay key rows [] = rows := by
  simp [overlay, WriteSet.touches]

variable {rows : List R}

theorem mem_overlay :
    r ∈ overlay key rows ws ↔ (∃ k, (k, some r) ∈ ws) ∨
      (r ∈ rows ∧ ws.touches (key r) = false) := by
  simp only [overlay, mem_append, mem_filterMap, mem_filter, Bool.not_eq_true',
    Prod.exists, exists_eq_right]

/-- A write set leaves what is under other keys alone. -/
theorem mem_overlay_of_not_touches (hws : ws.WF key) (h : ws.touches (key r) = false) :
    r ∈ overlay key rows ws ↔ r ∈ rows := by
  rw [mem_overlay]
  constructor
  · rintro (⟨k, hmem⟩ | ⟨hmem, -⟩)
    · rw [← hws.keyed hmem] at hmem
      rw [WriteSet.touches_iff.mpr ⟨_, hmem⟩] at h
      cases h
    · exact hmem
  · exact fun hmem => .inr ⟨hmem, h⟩

variable {new : WriteSet K R}

theorem mem_overlay_add (hws : ws.WF key) :
    r ∈ overlay key rows (ws.add new) ↔
      (∃ k, (k, some r) ∈ new) ∨ (r ∈ overlay key rows ws ∧ new.touches (key r) = false) := by
  have htouches : (ws.add new).touches (key r) = false ↔
      new.touches (key r) = false ∧ ws.touches (key r) = false := by
    rw [← Bool.not_eq_true, WriteSet.touches_add, not_or, Bool.not_eq_true, Bool.not_eq_true]
  simp only [mem_overlay, WriteSet.mem_add, htouches]
  constructor
  · rintro (⟨k, hnew | ⟨hold, hk⟩⟩ | ⟨hr, hnew, hold⟩)
    · exact .inl ⟨k, hnew⟩
    · rw [← hws.keyed hold] at hk
      exact .inr ⟨.inl ⟨k, hold⟩, hk⟩
    · exact .inr ⟨.inr ⟨hr, hold⟩, hnew⟩
  · rintro (⟨k, hnew⟩ | ⟨⟨k, hold⟩ | ⟨hr, hold⟩, hk⟩)
    · exact .inl ⟨k, .inl hnew⟩
    · rw [hws.keyed hold] at hk
      exact .inl ⟨k, .inr ⟨hold, hk⟩⟩
    · exact .inr ⟨hr, hk, hold⟩

theorem nodup_overlay (hrows : (rows.map key).Nodup) (hws : ws.WF key) :
    ((overlay key rows ws).map key).Nodup := by
  have hwritten : ((ws.filterMap Prod.snd).map key).Nodup := by
    have hsub : ((ws.filterMap Prod.snd).map key).Sublist (ws.map Prod.fst) := by
      have hkeyed : ∀ w ∈ ws, ∀ r, w.2 = some r → key r = w.1 := by
        rintro ⟨k, o⟩ hmem r rfl
        exact hws.keyed hmem
      clear hws
      induction ws with
      | nil => exact Sublist.refl _
      | cons w ws ih =>
        have ih := ih fun w' hw' => hkeyed w' (mem_cons_of_mem _ hw')
        cases hw : w.2 with
        | none =>
          rw [filterMap_cons_none hw, map_cons]
          exact ih.cons _
        | some r =>
          rw [filterMap_cons_some hw, map_cons, map_cons,
            hkeyed w (mem_cons_self ..) r hw]
          exact ih.cons_cons _
    exact hsub.nodup hws.nodup
  rw [overlay, map_append, nodup_append]
  refine ⟨hwritten, (filter_sublist.map _).nodup hrows, ?_⟩
  -- a row that stays is under a key that was not touched
  intro k hk k' hk' heq
  subst heq
  obtain ⟨r, hr, rfl⟩ := mem_map.mp hk
  obtain ⟨w, hw, hwr⟩ := mem_filterMap.mp hr
  obtain ⟨r', hr', heq⟩ := mem_map.mp hk'
  have htouch := (mem_filter.mp hr').2
  rw [heq] at htouch
  obtain ⟨k, o⟩ := w
  obtain rfl : o = some r := hwr
  rw [← hws.keyed hw] at hw
  rw [WriteSet.touches_iff.mpr ⟨_, hw⟩] at htouch
  cases htouch

/-- **A table in order.** Keys are unique, a thread has one transaction, and no two transactions
have touched the same key. -/
structure WF (key : R → K) (T : TxTable K R) : Prop where
  keys : (T.rows.map key).Nodup
  owners : (T.txns.map Prod.fst).Nodup
  writes : ∀ {t ws}, (t, ws) ∈ T.txns → ws.WF key
  exclusive : ∀ {t u ws us k}, (t, ws) ∈ T.txns → (u, us) ∈ T.txns → ws.touches k →
    us.touches k → t = u

/-! ### The transactions of a thread -/

/-- The thread is in a transaction. -/
def opened (T : TxTable K R) (t : ℕ) : Bool := (T.txns.lookup t).isSome

omit [DecidableEq K] in
theorem mem_txns_of_lookup (h : T.txns.lookup t = some ws) : (t, ws) ∈ T.txns := by
  obtain ⟨l₁, l₂, heq, -⟩ := lookup_eq_some_iff.mp h
  rw [heq]
  exact mem_append_right _ (mem_cons_self ..)

theorem WF.lookup_of_mem (h : T.WF key) (hmem : (t, ws) ∈ T.txns) : T.txns.lookup t = some ws := by
  obtain ⟨l₁, l₂, heq⟩ := append_of_mem hmem
  refine lookup_eq_some_iff.mpr ⟨l₁, l₂, heq, fun p hp => ?_⟩
  have hnodup := h.owners
  rw [heq, map_append, map_cons, nodup_append] at hnodup
  have hne := hnodup.2.2 p.1 (mem_map_of_mem hp) t (mem_cons_self ..)
  simpa [bne_iff_ne] using hne.symm

theorem WF.writesOf_of_mem (h : T.WF key) (hmem : (t, ws) ∈ T.txns) : T.writesOf t = ws := by
  rw [writesOf, h.lookup_of_mem hmem, Option.getD_some]

/-- What a thread has written is well-formed, even when that is nothing. -/
theorem WF.writesOf_wf (h : T.WF key) (t : ℕ) : (T.writesOf t).WF key := by
  rw [writesOf]
  cases hl : T.txns.lookup t with
  | none => exact ⟨nodup_nil, nofun⟩
  | some => exact h.writes (mem_txns_of_lookup hl)

omit [DecidableEq K] in
theorem mem_txns_of_opened (h : T.opened t) : (t, T.writesOf t) ∈ T.txns := by
  obtain ⟨ws, hl⟩ := Option.isSome_iff_exists.mp h
  rw [writesOf, hl]
  exact mem_txns_of_lookup hl

theorem lockedFor_eq_false_iff :
    T.lockedFor t k = false ↔ ∀ {u us}, (u, us) ∈ T.txns → u ≠ t → us.touches k = false := by
  simp only [lockedFor, any_eq_false, Bool.and_eq_true, bne_iff_ne, not_and, Bool.not_eq_true,
    Prod.forall]

/-! ### Keeping a table in order -/

theorem WF.rollback (h : T.WF key) (t : ℕ) : (T.rollback t).WF key where
  keys := h.keys
  owners := (filter_sublist.map _).nodup h.owners
  writes hmem := h.writes (mem_filter.mp hmem).1
  exclusive ht hu := h.exclusive (mem_filter.mp ht).1 (mem_filter.mp hu).1

theorem WF.begin (h : T.WF key) (t : ℕ) : (T.begin t).WF key where
  keys := h.keys
  owners := by
    rw [TxTable.begin, map_cons, nodup_cons]
    refine ⟨?_, (h.rollback t).owners⟩
    intro hmem
    obtain ⟨x, hx, heq⟩ := mem_map.mp hmem
    exact (bne_iff_ne.mp (mem_filter.mp hx).2) heq
  writes hmem := by
    rcases mem_cons.mp hmem with heq | hold
    · cases heq
      exact ⟨nodup_nil, nofun⟩
    · exact (h.rollback t).writes hold
  exclusive ht hu := by
    rcases mem_cons.mp ht with heq | hold
    · cases heq
      exact nofun
    · rcases mem_cons.mp hu with heq | hold'
      · cases heq
        exact nofun
      · exact (h.rollback _).exclusive hold hold'

theorem mem_txns_write :
    (u, ws) ∈ (T.write t new).txns ↔
      (u ≠ t ∧ (u, ws) ∈ T.txns) ∨ (u = t ∧ ∃ us, (t, us) ∈ T.txns ∧ ws = us.add new) := by
  simp only [write, mem_map, Prod.exists]
  constructor
  · rintro ⟨v, vs, hmem, heq⟩
    split at heq
    next hvt =>
      cases heq
      exact .inr ⟨rfl, vs, hvt ▸ hmem, rfl⟩
    next hvt =>
      cases heq
      exact .inl ⟨hvt, hmem⟩
  · rintro (⟨hne, hmem⟩ | ⟨rfl, us, hmem, rfl⟩)
    · exact ⟨u, ws, hmem, if_neg hne⟩
    · exact ⟨u, us, hmem, if_pos rfl⟩

/-- A transaction may write under keys that nobody else has touched. -/
theorem WF.write (h : T.WF key) (hnew : new.WF key)
    (hfree : ∀ k, new.touches k → T.lockedFor t k = false) : (T.write t new).WF key where
  keys := h.keys
  owners := by
    have hsame : ((T.write t new).txns.map Prod.fst) = T.txns.map Prod.fst := by
      rw [TxTable.write, map_map]
      refine map_congr_left fun x _ => ?_
      simp only [Function.comp_apply]
      split
      next hx => exact hx.symm
      next => rfl
    rw [hsame]
    exact h.owners
  writes hmem := by
    rcases mem_txns_write.mp hmem with ⟨-, hold⟩ | ⟨rfl, us, hus, rfl⟩
    · exact h.writes hold
    · exact (h.writes hus).add hnew
  exclusive hx hy := by
    intro htx hty
    rcases mem_txns_write.mp hx with ⟨hne, hx₀⟩ | ⟨rfl, xs, hx₀, rfl⟩ <;>
      rcases mem_txns_write.mp hy with ⟨hne', hy₀⟩ | ⟨rfl, ys, hy₀, rfl⟩
    · exact h.exclusive hx₀ hy₀ htx hty
    · -- what the writer has touched is what it had touched, or a key that was free
      rcases WriteSet.touches_add.mp hty with hnew | hold
      · rw [lockedFor_eq_false_iff.mp (hfree _ hnew) hx₀ hne] at htx
        cases htx
      · exact h.exclusive hx₀ hy₀ htx hold
    · rcases WriteSet.touches_add.mp htx with hnew | hold
      · rw [lockedFor_eq_false_iff.mp (hfree _ hnew) hy₀ hne'] at hty
        cases hty
      · exact h.exclusive hx₀ hy₀ hold hty
    · rfl

theorem WF.apply (h : T.WF key) (hws : ws.WF key) : (T.apply key ws).WF key where
  keys := nodup_overlay h.keys hws
  owners := h.owners
  writes := h.writes
  exclusive := h.exclusive

theorem WF.commit (h : T.WF key) (t : ℕ) : (T.commit key t).WF key :=
  (h.apply (h.writesOf_wf t)).rollback t

end TxTable

end Framework
