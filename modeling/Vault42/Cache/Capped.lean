import Vault42.Cache.Backends
import Vault42.Framework.Machine

/-!
# The cap of the memory cache

`memory.go` bounds the number of its entries and sweeps them in the background. Neither is to be
noticed: but for the calls it refuses, the cache answers as one without a cap that is never swept.

`uncapped` is that other cache, told of the calls that were not refused. It may hold more, namely
entries that a sweep has dropped (`Covers`). Those have expired by the strictest of the three
comparisons in the source, and a clock that does not go back finds them expired in all of them.

A call reads the clock under the lock. `SetIfNotExists` reads it a second time for the expiry; as
the TTL may be any, it is enough to let the expiry be counted from the first reading.
-/

namespace Vault42.Cache

open Option Bool Strconv Framework MemoryCache

def Op.key : Op → Bytes
  | .get key | .set key _ _ | .delete key | .exists key | .getAndDelete key
  | .setIfNotExists key _ _ | .increment key _ => key

/-- The cache under calls and sweeps (no call), with the instant of the latest. -/
def capped : Machine (Memory × Time) (Time × Option Op) (Option Reply) where
  step s e :=
    match e.2 with
    | some op => (((s.1.exec e.1 op).2, e.1), some (s.1.exec e.1 op).1)
    | none => ((s.1.cleanup e.1, e.1), none)

/-- A new cache of some cap. One that is not positive is none. -/
def Started (s : Memory × Time) : Prop := ∃ cap, s.1 = .new cap

def InOrder (s : Memory × Time) (e : Time × Option Op) : Prop := s.2 ≤ e.1

instance (s : Memory × Time) (e : Time × Option Op) : Decidable (InOrder s e) :=
  inferInstanceAs (Decidable (s.2 ≤ e.1))

/-- The cache without a cap, after the calls of a journal that were not refused. -/
def uncapped : List ((Time × Option Op) × Option Reply) → Memory
  | [] => .new 0
  | ((_, none), _) :: j => uncapped j
  | ((now, some op), r) :: j =>
    if r = some (.failed .full) then uncapped j else ((uncapped j).exec now op).2

/-! ### What a call does, by what it finds -/

/-- The reply to a call that finds `o` under its key, and what it puts there, if anything. -/
def Op.plan (now : Time) (o : Option Entry) : Op → Reply × Option (Option Entry)
  | .get _ => (.ofRead (Slot.read o now), none)
  | .set _ value ttl => (.done, some (some ⟨value, expiryOf now ttl⟩))
  | .delete _ => (.done, some none)
  | .exists _ => (.flag (Slot.read o now).isSome, none)
  | .getAndDelete _ =>
    match Slot.read o now with
    | none => (.notFound, none)
    | some v => (.value v, some none)
  | .setIfNotExists _ value ttl =>
    match o.filter fun e => e.current now with
    | some _ => (.flag false, none)
    | none => (.flag true, some (some ⟨value, expiryOf now ttl⟩))
  | .increment _ ttl => (.count (Slot.next o now ttl), some (some (Slot.bump o now ttl)))

/-- A plan is carried out. -/
def Memory.carryOut (m : Memory) (key : Bytes) : Reply × Option (Option Entry) → Reply × Memory
  | (r, none) => (r, m)
  | (r, some none) => (r, m.delete key)
  | (r, some (some e)) =>
    if m.admits key then (r, { m with data := m.data.insert key e }) else (.failed .full, m)

variable {m u : Memory} {clock now : Time} {key k : Bytes} {e : Entry} {o : Option Entry} {op : Op}
  {p : Reply × Option (Option Entry)}

theorem ofWrite_store {α : Type} (f : α → Reply) (a : α) :
    Reply.ofWrite f (m.store key e a) =
      if m.admits key then (f a, { m with data := m.data.insert key e })
      else (.failed .full, m) := by
  by_cases hadm : m.admits key
  · rw [store_of_admits hadm, if_pos hadm]
    rfl
  · rw [store, if_neg hadm, if_neg hadm]
    rfl

theorem Memory.exec_eq : m.exec now op = m.carryOut op.key (op.plan now (m.slot op.key)) := by
  cases op with
  | getAndDelete key =>
    simp only [exec, getAndDelete, MemoryCache.get, Op.plan, Op.key]
    cases (m.slot key).read now <;> rfl
  | setIfNotExists key value ttl =>
    simp only [exec, setIfNotExists, currentEntry, Op.plan, Op.key]
    cases (m.slot key).filter fun e => e.current now with
    | none => exact ofWrite_store .flag true
    | some => rfl
  | set => exact ofWrite_store (fun _ => .done) ()
  | increment => exact ofWrite_store .count _
  | _ => rfl

theorem Op.plan_ne_full : (op.plan now o).1 ≠ .failed .full := by
  cases op with
  | get =>
    simp only [plan, Reply.ofRead]
    split <;> rintro ⟨⟩
  | getAndDelete key | setIfNotExists key value ttl =>
    simp only [plan]
    split <;> rintro ⟨⟩
  | _ => rintro ⟨⟩

/-- What has expired is as good as gone. -/
theorem Op.plan_of_expired (h : ∀ e ∈ o, e.expired now) : op.plan now o = op.plan now none := by
  have hread : (o.filter fun e => !e.expired now) = none :=
    filter_eq_none_iff.mpr fun e he => by simp [h e he]
  have hcur : (o.filter fun e => e.current now) = none := by
    refine filter_eq_none_iff.mpr fun e he hcur => ?_
    have hexp := h e he
    rw [e.not_expired_of_current hcur] at hexp
    cases hexp
  cases op <;> simp only [plan, Slot.read, Slot.next, Slot.bump, Slot.counter, hread, hcur,
    filter_none]

/-! ### One call on both caches -/

/-- One cache holds what the other does, except for entries that have expired. -/
def Covers (clock : Time) (u m : Memory) : Prop :=
  ∀ k, m.slot k = u.slot k ∨ m.slot k = none ∧ ∀ e ∈ u.slot k, e.expired clock

namespace Covers

theorem mono (h : Covers clock u m) (hle : clock ≤ now) : Covers now u m :=
  fun k => (h k).imp_right fun ⟨hm, hu⟩ => ⟨hm, fun e he => e.expired_mono hle (hu e he)⟩

theorem plan_eq (h : Covers now u m) : op.plan now (m.slot k) = op.plan now (u.slot k) := by
  rcases h k with heq | ⟨hnone, hexp⟩
  · rw [heq]
  · rw [hnone, Op.plan_of_expired hexp]

theorem of_slots {u' m' : Memory} (h : Covers now u m) (hkey : m'.slot key = u'.slot key)
    (hm : ∀ k ≠ key, m'.slot k = m.slot k) (hu : ∀ k ≠ key, u'.slot k = u.slot k) :
    Covers now u' m' := by
  intro k
  by_cases hk : k = key
  · subst hk
    exact .inl hkey
  · rw [hm k hk, hu k hk]
    exact h k

/-- A plan is refused, or carried out with the same result as on the cache without a cap. -/
theorem carryOut (h : Covers now u m) (hu : u.maxEntries = 0) :
    m.carryOut key p = (.failed .full, m) ∨ (m.carryOut key p).1 = p.1 ∧
      (u.carryOut key p).1 = p.1 ∧ Covers now (u.carryOut key p).2 (m.carryOut key p).2 := by
  obtain ⟨r, _ | _ | e⟩ := p
  · exact .inr ⟨rfl, rfl, h⟩
  · refine .inr ⟨rfl, rfl, h.of_slots ?_ (fun _ => AList.lookup_erase_ne)
      fun _ => AList.lookup_erase_ne⟩
    exact (AList.lookup_erase key m.data).trans (AList.lookup_erase key u.data).symm
  · have hunlimited : u.admits key := by simp [admits, hu]
    simp only [Memory.carryOut, if_pos hunlimited]
    split
    · refine .inr ⟨rfl, trivial, h.of_slots ?_ (fun _ => AList.lookup_insert_ne)
        fun _ => AList.lookup_insert_ne⟩
      exact (AList.lookup_insert m.data).trans (AList.lookup_insert u.data).symm
    · exact .inl rfl

theorem cleanup (h : Covers now u m) : Covers now u (m.cleanup now) := by
  intro k
  have hslot : (m.cleanup now).slot k = (m.slot k).filter fun e => !e.expired now :=
    lookup_filter m.data (fun e => !e.expired now) k
  rw [hslot]
  rcases h k with heq | ⟨hnone, hexp⟩
  · rw [heq]
    cases u.slot k with
    | none => exact .inl rfl
    | some e =>
      by_cases he : e.expired now
      · exact .inr ⟨by simp [he], fun e' he' => by rwa [← some.inj he']⟩
      · exact .inl (by simp [he])
  · rw [hnone]
    exact .inr ⟨rfl, hexp⟩

end Covers

namespace Memory

theorem maxEntries_carryOut : (m.carryOut key p).2.maxEntries = m.maxEntries := by
  obtain ⟨r, _ | _ | e⟩ := p
  · rfl
  · rfl
  · simp only [Memory.carryOut]
    split <;> rfl

theorem exec_ne_full (h : (m.slot op.key).isSome) : (m.exec now op).1 ≠ .failed .full := by
  have hadm : m.admits op.key := by rw [admits, h, Bool.or_true]
  have hplan : (op.plan now (m.slot op.key)).1 ≠ .failed .full := Op.plan_ne_full
  rw [exec_eq]
  generalize op.plan now (m.slot op.key) = p at hplan
  obtain ⟨r, _ | _ | e⟩ := p
  · exact hplan
  · exact hplan
  · simp only [Memory.carryOut, if_pos hadm]
    exact hplan

def Bounded (m : Memory) : Prop := 0 < m.maxEntries → (m.data.entries.length : ℤ) ≤ m.maxEntries

theorem Bounded.carryOut (h : m.Bounded) : (m.carryOut key p).2.Bounded := by
  unfold Bounded at h ⊢
  rw [maxEntries_carryOut]
  intro hcap
  have hle := h hcap
  obtain ⟨r, _ | _ | e⟩ := p
  · exact hle
  · exact le_trans (Int.ofNat_le.mpr (List.kerase_sublist key m.data.entries).length_le) hle
  · simp only [Memory.carryOut]
    split
    next hadm =>
      rw [length_insert]
      split
      · exact hle
      next hnew =>
        simp only [admits, slot, hnew, Bool.or_false, Bool.or_eq_true, decide_eq_true_eq] at hadm
        lia
    · exact hle

theorem Bounded.cleanup (h : m.Bounded) : (m.cleanup now).Bounded :=
  fun hcap => le_trans (Int.ofNat_le.mpr (List.length_filter_le _ _)) (h hcap)

end Memory

/-! ### Whole runs -/

variable {s : Memory × Time} {j : List ((Time × Option Op) × Option Reply)}

theorem covers_of_journal (h : capped.Journal Started InOrder s j) :
    s.1.Bounded ∧ (uncapped j).maxEntries = 0 ∧ Covers s.2 (uncapped j) s.1 := by
  induction h with
  | start hinit =>
    obtain ⟨cap, h⟩ := hinit
    rw [h]
    exact ⟨le_of_lt, rfl, fun _ => .inl rfl⟩
  | @next s j e hprev hok ih =>
    obtain ⟨hbound, hu, hcov⟩ := ih
    have hcov := hcov.mono hok
    obtain ⟨now, _ | op⟩ := e
    · exact ⟨hbound.cleanup, hu, hcov.cleanup⟩
    simp only [capped, uncapped, Option.some.injEq, Memory.exec_eq, ← hcov.plan_eq]
    rcases hcov.carryOut hu with hfull | ⟨hreply, -, hnext⟩
    · rw [hfull, if_pos rfl]
      exact ⟨hbound, hu, hcov⟩
    · rw [if_neg (hreply ▸ Op.plan_ne_full)]
      exact ⟨hbound.carryOut, Memory.maxEntries_carryOut.trans hu, hnext⟩

/-- **The cap is invisible apart from refusals.** However a cache is used, swept and refilled, it
never holds more than its cap, it refuses no call on a key it holds, and a call it does not refuse
is answered as by a cache without a cap or sweeps that was told of the calls that were not
refused. -/
theorem cap_invisible (h : capped.Journal Started InOrder s j) :
    (0 < s.1.maxEntries → (s.1.data.entries.length : ℤ) ≤ s.1.maxEntries) ∧
    ∀ now op, s.2 ≤ now →
      ((s.1.slot op.key).isSome → (s.1.exec now op).1 ≠ .failed .full) ∧
      ((s.1.exec now op).1 ≠ .failed .full →
        (s.1.exec now op).1 = ((uncapped j).exec now op).1) := by
  obtain ⟨hbound, hu, hcov⟩ := covers_of_journal h
  refine ⟨hbound, fun now op hle => ⟨Memory.exec_ne_full, fun hfull => ?_⟩⟩
  have hcov := hcov.mono hle
  rw [Memory.exec_eq] at hfull
  rw [Memory.exec_eq, Memory.exec_eq, ← hcov.plan_eq]
  rcases hcov.carryOut hu with h | ⟨hm, hu, -⟩
  · exact absurd (congrArg Prod.fst h) hfull
  · exact hm.trans hu.symm

/-- A cache of one entry: the second key is refused until the first has been swept. -/
def Sample.crowded : (Memory × Time) × List ((Time × Option Op) × Option Reply) :=
  capped.feed (.new 1, 0) []
    [(0, some (.set [97] [1] 5)), (1, some (.set [98] [2] 5)), (6, none),
      (7, some (.set [98] [3] 5))]

theorem crowded_invisible :
    Sample.crowded.2.map (·.2) = [some .done, none, some (.failed .full), some .done] ∧
      (Sample.crowded.1.1.exec 8 (.get [98])).1 =
        ((uncapped Sample.crowded.2).exec 8 (.get [98])).1 :=
  ⟨by decide +kernel,
    ((cap_invisible (Machine.journal_feed (.start ⟨1, rfl⟩) (by decide +kernel))).2 8
    (.get [98]) (by decide +kernel)).2 (by decide +kernel)⟩

end Vault42.Cache
