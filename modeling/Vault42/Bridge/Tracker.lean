import Vault42.Cache.Memory
import Vault42.Framework.Machine
import Mathlib.Algebra.Order.Ring.Int

/-!
# The bridge's sliding windows

`cmd/bridge/detection.go`: `RateTracker` counts the requests of an address, and `LoginFailTracker`
its failed logins, within a window that ends now. The two have the same code, so `Tracker` is both
(the second has no `Count`).

A tracker forgets in three ways: a record drops the samples that have left the window, and the
oldest one at the limit per address, and the reaper drops whole addresses. `Kept` says that what was
forgotten has left the window for good, or that there are as many samples as are ever kept.
`record_exact` is what follows for the counts.

The reaper's cutoff is two windows back, a product of 64 bits: for a window above `2 ^ 62`
nanoseconds it wraps round to an instant in the future, and the reaper drops every address
(`long_window_forgets`).
-/

namespace Vault42.Bridge

open Framework List

def maxSamplesPerIP : ℕ := 4096

def maxTrackedIPs : ℕ := 50000

/-- The samples of one address, oldest first. -/
structure SlidingWindow where
  timestamps : List Time
  lastAccess : Time

def SlidingWindow.record (sw : SlidingWindow) (now cutoff : Time) : SlidingWindow × ℕ :=
  let kept := sw.timestamps.dropWhile fun t => decide (t < cutoff)
  let kept := if maxSamplesPerIP ≤ kept.length then kept.drop 1 else kept
  (⟨kept ++ [now], now⟩, (kept ++ [now]).length)

structure Tracker where
  buckets : AList fun _ : String => SlidingWindow
  window : Duration

namespace Tracker

/-- `NewRateTracker`, `NewLoginFailTracker`. -/
def new (window : Duration) : Tracker := ⟨∅, window⟩

def trackedIPs (rt : Tracker) : ℕ := rt.buckets.entries.length

def record (rt : Tracker) (now : Time) (ip : String) : ℕ × Tracker :=
  match rt.buckets.lookup ip with
  | none =>
    if maxTrackedIPs ≤ rt.trackedIPs then (1, rt)
    else
      let r := SlidingWindow.record ⟨[], 0⟩ now (now - rt.window)
      (r.2, { rt with buckets := rt.buckets.insert ip r.1 })
  | some sw =>
    let r := sw.record now (now - rt.window)
    (r.2, { rt with buckets := rt.buckets.insert ip r.1 })

def count (rt : Tracker) (now : Time) (ip : String) : ℕ :=
  match rt.buckets.lookup ip with
  | none => 0
  | some sw => sw.timestamps.countP fun t => decide (now - rt.window ≤ t)

/-- `time.Now().Add(-2 * rt.window)`: the product is an `int64`. -/
def reapCutoff (rt : Tracker) (now : Time) : Time := now + Int.bmod (-2 * rt.window) (2 ^ 64)

def reap (rt : Tracker) (now : Time) : Tracker :=
  { rt with
    buckets := ⟨rt.buckets.entries.filter fun e => !decide (e.2.lastAccess < rt.reapCutoff now),
      rt.buckets.nodupKeys.sublist filter_sublist⟩ }

end Tracker

inductive Call where
  | record (ip : String)
  | count (ip : String)
  | reap
  deriving DecidableEq

/-- A tracker under calls, with the instant of the latest. -/
def tracking : Machine (Tracker × Time) (Time × Call) (Option ℕ) where
  step s e :=
    match e.2 with
    | .record ip => (((s.1.record e.1 ip).2, e.1), some (s.1.record e.1 ip).1)
    | .count ip => ((s.1, e.1), some (s.1.count e.1 ip))
    | .reap => ((s.1.reap e.1, e.1), none)

/-- A new tracker, its window any `time.Duration` that the check of the configuration lets
through. -/
def Started (s : Tracker × Time) : Prop :=
  ∃ window, 0 < window ∧ window < 2 ^ 63 ∧ s.1 = .new window

/-- The clock does not go back, and the table is below its cap. -/
def BelowCap (s : Tracker × Time) (e : Time × Call) : Prop :=
  s.2 ≤ e.1 ∧ s.1.trackedIPs < maxTrackedIPs

instance (s : Tracker × Time) (e : Time × Call) : Decidable (BelowCap s e) :=
  inferInstanceAs (Decidable (_ ∧ _))

/-- When an address was recorded, oldest first. -/
def times (ip : String) : List ((Time × Call) × Option ℕ) → List Time
  | [] => []
  | (e, _) :: j => times ip j ++ if e.2 = .record ip then [e.1] else []

/-! ### One address -/

/-- The samples that are stored, of all there were: what is missing has left the window, or as many
are stored as ever are. -/
structure Kept (clock : Time) (w : Duration) (all stored : List Time) : Prop where
  ordered : all.Pairwise (· ≤ ·)
  past : ∀ t ∈ all, t ≤ clock
  limited : stored.length ≤ maxSamplesPerIP
  missing : ∃ old, all = old ++ stored ∧
    ((∀ t ∈ old, t < clock - w) ∨ stored.length = maxSamplesPerIP)

variable {clock now cutoff : Time} {w : Duration} {all stored : List Time} {ip : String}

theorem Kept.mono (h : Kept clock w all stored) (hle : clock ≤ now) : Kept now w all stored := by
  obtain ⟨old, hall, hold⟩ := h.missing
  refine ⟨h.ordered, fun t ht => Int.le_trans (h.past t ht) hle, h.limited, old, hall, ?_⟩
  refine hold.imp_left fun hold t ht => ?_
  have := hold t ht
  lia

theorem le_of_mem_dropWhile {l : List Time} (h : l.Pairwise (· ≤ ·)) :
    ∀ t ∈ l.dropWhile (fun t => decide (t < cutoff)), cutoff ≤ t := by
  induction l with
  | nil => exact nofun
  | cons a l ih =>
    obtain ⟨ha, hl⟩ := pairwise_cons.mp h
    rw [dropWhile_cons]
    split
    · exact ih hl
    next hnot =>
      have hle : cutoff ≤ a := by simpa using hnot
      intro t ht
      rcases mem_cons.mp ht with rfl | ht
      · exact hle
      · exact Int.le_trans hle (ha t ht)

/-- Trimming forgets nothing that counts. -/
theorem Kept.trim (h : Kept clock w all stored) :
    Kept clock w all (stored.dropWhile fun t => decide (t < clock - w)) := by
  obtain ⟨old, hall, hold⟩ := h.missing
  have hsplit := stored.takeWhile_append_dropWhile (p := fun t => decide (t < clock - w))
  have hgone : ∀ t ∈ stored.takeWhile fun t => decide (t < clock - w), t < clock - w :=
    fun t ht => of_decide_eq_true (all_eq_true.mp all_takeWhile t ht)
  have hsorted := h.ordered
  rw [hall, pairwise_append] at hsorted
  refine ⟨h.ordered, h.past, Nat.le_trans (stored.dropWhile_suffix _).length_le h.limited,
    old ++ stored.takeWhile _, by rw [append_assoc, hsplit, hall], ?_⟩
  cases htrim : stored.takeWhile fun t => decide (t < clock - w) with
  | nil =>
    rw [htrim, nil_append] at hsplit
    rwa [append_nil, hsplit]
  | cons x =>
    -- what was missing before is older than a sample that has left the window
    rw [htrim] at hgone
    refine .inl fun t ht => ?_
    rcases mem_append.mp ht with ht | ht
    · have hx : x ∈ stored := hsplit ▸ htrim ▸ mem_cons_self
      exact Int.lt_of_le_of_lt (hsorted.2.2 t ht x hx) (hgone x mem_cons_self)
    · exact hgone t ht

theorem Kept.record (h : Kept clock w all stored) (hle : clock ≤ now) (hw : 0 < w) (last : Time) :
    Kept now w (all ++ [now]) (SlidingWindow.record ⟨stored, last⟩ now (now - w)).1.timestamps ∧
      (SlidingWindow.record ⟨stored, last⟩ now (now - w)).2 =
        min maxSamplesPerIP ((all ++ [now]).countP fun t => decide (now - w ≤ t)) := by
  have hkept := (h.mono hle).trim
  have hin : ∀ t ∈ stored.dropWhile fun t => decide (t < now - w), now - w ≤ t := by
    obtain ⟨old, hall, -⟩ := h.missing
    have hsorted := h.ordered
    rw [hall, pairwise_append] at hsorted
    exact le_of_mem_dropWhile hsorted.2.1
  unfold SlidingWindow.record
  dsimp only
  generalize stored.dropWhile (fun t => decide (t < now - w)) = kept at hkept hin
  obtain ⟨old, hall, hold⟩ := hkept.missing
  have hlimit := hkept.limited
  have hordered : (all ++ [now]).Pairwise (· ≤ ·) := by
    refine pairwise_append.mpr ⟨h.ordered, pairwise_singleton _ _, fun t ht x hx => ?_⟩
    rw [mem_singleton.mp hx]
    exact hkept.past t ht
  have hpast : ∀ t ∈ all ++ [now], t ≤ now := by
    intro t ht
    rcases mem_append.mp ht with ht | ht
    · exact hkept.past t ht
    · exact Int.le_of_eq (mem_singleton.mp ht)
  have hcount : (all ++ [now]).countP (fun t => decide (now - w ≤ t)) =
      old.countP (fun t => decide (now - w ≤ t)) + kept.length + 1 := by
    have hlast : decide (now - w ≤ now) := decide_eq_true (by lia)
    have hall' : kept.countP (fun t => decide (now - w ≤ t)) = kept.length :=
      countP_eq_length.mpr fun t ht => decide_eq_true (hin t ht)
    rw [hall, countP_append, countP_append, hall', countP_singleton, if_pos hlast]
  -- at most one sample goes, and only at the limit
  generalize hnew : (if maxSamplesPerIP ≤ kept.length then kept.drop 1 else kept) = kept'
  obtain ⟨lost, hlost⟩ : kept' <:+ kept := by
    rw [← hnew]
    split
    · exact drop_suffix _ _
    · exact suffix_refl _
  have hlen : (kept' ++ [now]).length = min maxSamplesPerIP (kept.length + 1) := by
    have hpos : 0 < maxSamplesPerIP := by decide
    rw [← hnew, length_append, length_singleton]
    split
    · rw [length_drop]
      lia
    · lia
  refine ⟨⟨hordered, hpast, by lia, old ++ lost, ?_, ?_⟩, ?_⟩
  · rw [hall, ← hlost]
    simp only [append_assoc]
  · by_cases hfull : maxSamplesPerIP ≤ kept.length + 1
    · exact .inr (by lia)
    · rw [if_neg (by lia)] at hnew
      rw [← hnew, append_left_eq_self] at hlost
      rw [hlost, append_nil]
      exact .inl (hold.resolve_right (by lia))
  · rw [hlen, hcount]
    rcases hold with hold | hold
    · rw [countP_eq_zero.mpr fun t ht => by have := hold t ht; simp; lia]
      lia
    · lia

/-! ### The table -/

variable {rt : Tracker} {s : Tracker × Time} {j : List ((Time × Call) × Option ℕ)}

/-- What is stored for an address, if anything. -/
def Tracker.bucket (rt : Tracker) (ip : String) : SlidingWindow :=
  (rt.buckets.lookup ip).getD ⟨[], 0⟩

theorem Tracker.record_of_room (h : rt.trackedIPs < maxTrackedIPs) :
    rt.record now ip = (((rt.bucket ip).record now (now - rt.window)).2,
      { rt with
        buckets := rt.buckets.insert ip ((rt.bucket ip).record now (now - rt.window)).1 }) := by
  unfold record bucket
  cases rt.buckets.lookup ip with
  | none => exact if_neg (Nat.not_le.mpr h)
  | some => rfl

/-- Every address has its samples, and none later than the last access of its bucket. -/
def Faithful (s : Tracker × Time) (j : List ((Time × Call) × Option ℕ)) : Prop :=
  ∀ ip, Kept s.2 s.1.window (times ip j) (s.1.bucket ip).timestamps ∧
    ∀ sw ∈ s.1.buckets.lookup ip, ∀ t ∈ times ip j, t ≤ sw.lastAccess

theorem Faithful.record (h : Faithful s j) (hok : BelowCap s (now, .record ip))
    (hw : 0 < s.1.window) :
    Faithful ((s.1.record now ip).2, now)
      (((now, .record ip), some (s.1.record now ip).1) :: j) := by
  rw [Tracker.record_of_room hok.2]
  have hnext := (h ip).1.record hok.1 hw (s.1.bucket ip).lastAccess
  intro k
  simp only [times, Call.record.injEq, Tracker.bucket]
  by_cases hk : ip = k
  · subst hk
    rw [if_pos rfl, AList.lookup_insert]
    refine ⟨hnext.1, fun sw hsw t ht => ?_⟩
    obtain rfl := Option.some.inj hsw
    exact hnext.1.past t ht
  · rw [if_neg hk, append_nil, AList.lookup_insert_ne (Ne.symm hk)]
    exact ⟨(h k).1.mono hok.1, (h k).2⟩

/-- The product that does not wrap. -/
theorem Tracker.reapCutoff_eq (hw : 0 < rt.window) (hshort : rt.window ≤ 2 ^ 62) :
    rt.reapCutoff now = now - 2 * rt.window := by
  have hprod : Int.bmod (-2 * rt.window) (2 ^ 64) = -2 * rt.window :=
    Int.bmod_eq_of_le (by lia) (by lia)
  rw [Tracker.reapCutoff, hprod]
  lia

theorem Faithful.reap (h : Faithful s j) (hle : s.2 ≤ now) (hw : 0 < s.1.window)
    (hshort : s.1.window ≤ 2 ^ 62) : Faithful (s.1.reap now, now) j := by
  intro ip
  have hlookup : (s.1.reap now).buckets.lookup ip =
      (s.1.buckets.lookup ip).filter fun sw => !decide (sw.lastAccess < s.1.reapCutoff now) :=
    lookup_filter s.1.buckets (fun sw => !decide (sw.lastAccess < s.1.reapCutoff now)) ip
  rw [Tracker.reapCutoff_eq hw hshort] at hlookup
  obtain ⟨hkept, hlast⟩ := h ip
  have hkept := hkept.mono hle
  simp only [Tracker.bucket] at hkept ⊢
  rw [hlookup]
  cases hb : s.1.buckets.lookup ip with
  | none =>
    rw [hb] at hkept
    exact ⟨hkept, nofun⟩
  | some sw =>
    rw [hb] at hkept hlast
    rw [Option.filter_some]
    split
    · exact ⟨hkept, hlast⟩
    next hstale =>
      refine ⟨⟨hkept.ordered, hkept.past, Nat.zero_le _, _, (append_nil _).symm,
        .inl fun t ht => ?_⟩, nofun⟩
      have hle := hlast sw rfl t ht
      simp only [Bool.not_eq_true', decide_eq_false_iff_not, not_not] at hstale
      show t < now - s.1.window
      lia

theorem faithful_of_journal (h : tracking.Journal Started BelowCap s j)
    (hshort : s.1.window ≤ 2 ^ 62) : 0 < s.1.window ∧ Faithful s j := by
  induction h with
  | start hinit =>
    obtain ⟨w, hw, -, h⟩ := hinit
    rw [h]
    refine ⟨hw, fun ip => ?_⟩
    simp only [h]
    exact ⟨⟨.nil, nofun, Nat.zero_le _, [], rfl, .inl nofun⟩, nofun⟩
  | @next s j e hprev hok ih =>
    -- no call changes the window
    have hwindow : (tracking.step s e).1.1.window = s.1.window := by
      obtain ⟨now, ip | ip | _⟩ := e
      · simp only [tracking, Tracker.record_of_room hok.2]
      · rfl
      · rfl
    rw [hwindow] at hshort
    obtain ⟨hw, hf⟩ := ih hshort
    obtain ⟨now, ip | ip | _⟩ := e
    · refine ⟨?_, hf.record hok hw⟩
      simp only [tracking, Tracker.record_of_room hok.2]
      exact hw
    · refine ⟨hw, fun k => ?_⟩
      simp only [times, reduceCtorEq, if_false, append_nil]
      exact ⟨(hf k).1.mono hok.1, (hf k).2⟩
    · refine ⟨hw, fun k => ?_⟩
      simp only [times, reduceCtorEq, if_false, append_nil]
      exact hf.reap hok.1 hw hshort k

/-- **The counts are exact.** After any calls that find the table below its cap, a record returns
the number of records of its address in the window that ends now, itself included, up to the limit,
as long as two windows are no more than 64 bits can say. -/
theorem record_exact (h : tracking.Journal Started BelowCap s j) (hshort : s.1.window ≤ 2 ^ 62)
    (ip : String) (hok : BelowCap s (now, .record ip)) :
    (s.1.record now ip).1 = min maxSamplesPerIP
      ((times ip j ++ [now]).countP fun t => decide (now - s.1.window ≤ t)) := by
  obtain ⟨hw, hf⟩ := faithful_of_journal h hshort
  rw [Tracker.record_of_room hok.2]
  exact ((hf ip).1.record hok.1 hw _).2

namespace Sample

/-- An address is forgotten by the reaper, then seen twice within the window. -/
def seen : (Tracker × Time) × List ((Time × Call) × Option ℕ) :=
  tracking.feed (.new 10, 0) []
    [(1, .record "a"), (2, .record "b"), (25, .reap), (30, .record "a")]

/-- A window of 1500000 hours, which the configuration accepts. -/
def longWindow : Duration := 1500000 * 3600 * 10 ^ 9

/-- An address is seen, and the reaper comes by at once. -/
def reaped : (Tracker × Time) × List ((Time × Call) × Option ℕ) :=
  tracking.feed (.new longWindow, 0) [] [(1, .record "a"), (2, .reap)]

end Sample

theorem record_exact_seen : (Sample.seen.1.1.record 40 "a").1 = 2 :=
  (record_exact (Machine.journal_feed (.start ⟨10, by decide, by decide, rfl⟩) (by decide +kernel))
    (by decide) "a" (by decide +kernel)).trans (by decide +kernel)

/-- **A long window forgets**: the reaper drops the address it has just seen, and its second record
within the window is counted as its first. -/
theorem long_window_forgets :
    tracking.Journal Started BelowCap Sample.reaped.1 Sample.reaped.2 ∧
      BelowCap Sample.reaped.1 (3, .record "a") ∧
      (Sample.reaped.1.1.record 3 "a").1 = 1 ∧
      (times "a" Sample.reaped.2 ++ [3]).countP
        (fun t => decide (3 - Sample.reaped.1.1.window ≤ t)) = 2 :=
  ⟨Machine.journal_feed (.start ⟨Sample.longWindow, by decide, by decide, rfl⟩) (by decide +kernel),
    by decide +kernel, by decide +kernel, by decide +kernel⟩

end Vault42.Bridge
