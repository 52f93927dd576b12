import Vault42.Model
import Mathlib.Data.List.AList

/-!
# The in-memory cache

`internal/cache/memory.go`: a key-value store whose entries carry a fixed expiry, with a cap on the
number of keys. Every operation reads the clock once, so each one takes the instant it runs at.

The store is one for any keys and any values that can count (`Counting`). The requests run over
values typed by what the service stores under them (`CacheValue`), `Cache/Backends.lean` over the
bytes they are.

Two readings of *expired* live side by side in the source and both are kept. `Get`, `GetAndDelete`
and the sweep drop an entry only strictly after its expiry (`now.After(exp)`), while
`SetIfNotExists` and `Increment` treat it as gone from the expiry on (`!now.Before(exp)`); at the
expiry itself a counter is still read and already restarted.

`Increment` keeps the expiry of a counter that is alive, so a counter lives for one fixed window
from its first increment, however often it is advanced.

The lemmas at the end say what each operation does to the `Slot` of one key, and that it leaves
every other slot alone. A write of a new key is refused at the cap, so the lemmas about writes ask
for `MemoryCache.HasRoom`: a cache without a cap, or far enough below it.
-/

namespace Vault42

open Option Bool AList

variable {K V N : Type} {now : Time} {ttl : Duration} {key : K}

/-- The values the service stores: counters and flags (both decimal text, a flag being `"1"`), a
user id, the digest of a one-time token, the HMAC of a mailed code, the session of a WebAuthn
ceremony. -/
inductive CacheValue where
  | count (n : ℕ)
  | user (u : UserID)
  | digest (h : TokenHash)
  | mac (code : String)
  | ceremony (session : ℕ)
  | exchange (token : AccessClaims)
deriving DecidableEq, Repr

/-- The number a value parses to, `0` when it is not decimal text. -/
def CacheValue.parseInt : CacheValue → ℕ
  | .count n => n
  | .user _ => 0
  | .digest _ => 0
  | .mac _ => 0
  | .ceremony _ => 0
  | .exchange _ => 0

/-- How values count: `strconv.ParseInt`, as the number it returns beside any error, `count++`, and
`strconv.FormatInt`. -/
class Counting (V : Type) (N : outParam Type) where
  zero : N
  parse : V → N
  succ : N → N
  format : N → V

instance : Counting CacheValue ℕ := ⟨0, CacheValue.parseInt, (· + 1), .count⟩

/-- `memEntry`; an entry without a TTL has no expiry. -/
structure MemEntry (V : Type) where
  value : V
  expiresAt : Option Time
deriving DecidableEq, Repr

variable {e : MemEntry V}

namespace MemEntry

/-- `!expiresAt.IsZero() && now.After(expiresAt)`. -/
def expired (e : MemEntry V) (now : Time) : Bool :=
  match e.expiresAt with
  | none => false
  | some t => decide (t < now)

/-- `expiresAt.IsZero() || now.Before(expiresAt)`. -/
def current (e : MemEntry V) (now : Time) : Bool :=
  match e.expiresAt with
  | none => true
  | some t => decide (now < t)

/-- What is current is not expired; the converse fails at the expiry itself. -/
theorem not_expired_of_current (h : e.current now) : e.expired now = false := by
  cases hx : e.expiresAt with
  | none => simp only [expired, hx]
  | some =>
    simp only [current, hx, decide_eq_true_eq] at h
    simp only [expired, hx, decide_eq_false_iff_not]
    lia

theorem expired_mono {later : Time} (hle : now ≤ later) (h : e.expired now) : e.expired later := by
  cases hx : e.expiresAt with
  | none =>
    simp only [expired, hx] at h
    cases h
  | some =>
    simp only [expired, hx, decide_eq_true_eq] at h ⊢
    lia

end MemEntry

/-- The expiry a TTL gives at an instant; none when the TTL is not positive. -/
def expiryOf (now : Time) (ttl : Duration) : Option Time :=
  if 0 < ttl then some (now + ttl) else none

/-- What a cache holds under one key. -/
abbrev Slot (V : Type) := Option (MemEntry V)

namespace Slot

def read (s : Slot V) (now : Time) : Option V :=
  (s.filter fun e => !e.expired now).map MemEntry.value

/-- The number a counter is read as, zero when the key is gone. -/
def count (s : Slot CacheValue) (now : Time) : ℕ := ((s.read now).map CacheValue.parseInt).getD 0

/-- What `Increment` adds to, and the expiry it writes: the number in a current entry, under the
expiry the entry has, or zero, in a new window. -/
def counter [Counting V N] (s : Slot V) (now : Time) (ttl : Duration) : N × Option Time :=
  match s.filter fun e => e.current now with
  | some e => (Counting.parse e.value, e.expiresAt)
  | none => (Counting.zero V, expiryOf now ttl)

/-- The number that it writes. -/
def next [Counting V N] (s : Slot V) (now : Time) (ttl : Duration) : N :=
  Counting.succ V (s.counter now ttl).1

/-- The entry that it writes. -/
def bump [Counting V N] (s : Slot V) (now : Time) (ttl : Duration) : MemEntry V :=
  ⟨Counting.format (s.next now ttl), (s.counter now ttl).2⟩

def swept (s : Slot V) (now : Time) : Slot V := s.filter fun e => !e.expired now

/-- Whatever is there is gone after `t`. -/
def ExpiresBy (s : Slot V) (t : Time) : Prop := ∀ e ∈ s, ∃ x, e.expiresAt = some x ∧ x ≤ t

/-- What is there stands in the way of `SetIfNotExists` until an instant. -/
def HoldsUntil (s : Slot V) (t : Time) : Prop := ∃ e, s = some e ∧ ∀ x < t, e.current x

theorem swept_some (he : e.expired now = false) : swept (some e) now = some e := by
  simp only [swept, filter_some, he, Bool.not_false, if_true]

theorem HoldsUntil.mono {s : Slot V} {t t' : Time} (h : s.HoldsUntil t') (hle : t ≤ t') :
    s.HoldsUntil t := h.imp fun _ ⟨he, hcur⟩ => ⟨he, fun x hx => hcur x (lt_of_lt_of_le hx hle)⟩

theorem HoldsUntil.swept {s : Slot V} {t : Time} (h : s.HoldsUntil t) (hlt : now < t) :
    (s.swept now).HoldsUntil t := by
  obtain ⟨e, rfl, hcur⟩ := h
  rw [swept_some (MemEntry.not_expired_of_current (hcur now hlt))]
  exact ⟨e, rfl, hcur⟩

theorem counter_current [Counting V N] (hc : e.current now) :
    counter (some e) now ttl = (Counting.parse e.value, e.expiresAt) := by
  simp only [counter, filter_some, hc, if_true]

theorem counter_fresh [Counting V N] {s : Slot V} (hc : ∀ e ∈ s, e.current now = false) :
    s.counter now ttl = (Counting.zero V, expiryOf now ttl) := by
  have hnone : (s.filter fun e => e.current now) = none :=
    filter_eq_none_iff.mpr fun e he => by simp [hc e he]
  simp only [counter, hnone]

variable {e : MemEntry CacheValue} {s : Slot CacheValue} {later t : Time}

@[simp] theorem count_none : count none now = 0 := rfl

theorem count_some (he : e.expired now = false) : count (some e) now = e.value.parseInt := by
  simp only [count, read, filter_some, he, Bool.not_false, if_true, map_some, getD_some]

theorem count_expired (he : e.expired now) : count (some e) now = 0 := by
  simp only [count, read, filter_some, he, Bool.not_true, false_eq_true, if_false, map_none,
    getD_none]

/-- A counter that is left alone is only ever read as less. -/
theorem count_anti (hle : now ≤ later) : s.count later ≤ s.count now := by
  cases s with
  | none => exact le_rfl
  | some e =>
    by_cases he : e.expired later
    · rw [count_expired he]
      exact Nat.zero_le _
    · have hnow : e.expired now = false := by
        rw [eq_false_iff]
        exact fun h => he (e.expired_mono hle h)
      rw [count_some hnow, count_some (eq_false_iff.mpr he)]

theorem count_swept (hle : now ≤ later) : (s.swept now).count later = s.count later := by
  cases s with
  | none => rfl
  | some e =>
    by_cases he : e.expired now
    · have hgone : swept (some e) now = none := by simp [swept, he]
      rw [hgone, count_none, count_expired (e.expired_mono hle he)]
    · rw [swept_some (eq_false_iff.mpr he)]

theorem bump_current (hc : e.current now) :
    bump (some e) now ttl = ⟨.count (e.value.parseInt + 1), e.expiresAt⟩ := by
  rw [bump, next, counter_current hc]
  rfl

theorem bump_fresh (hc : ∀ e ∈ s, e.current now = false) :
    bump s now ttl = ⟨.count 1, expiryOf now ttl⟩ := by
  rw [bump, next, counter_fresh hc]
  rfl

/-- An increment adds one to what was read, at most: at the expiry itself it starts over. -/
theorem count_bump_le : count (some (s.bump now ttl)) now ≤ s.count now + 1 := by
  by_cases hc : ∃ e, s = some e ∧ e.current now
  · obtain ⟨e, rfl, hc⟩ := hc
    have he := e.not_expired_of_current hc
    have hnew :
        MemEntry.expired ⟨CacheValue.count (e.value.parseInt + 1), e.expiresAt⟩ now = false := he
    rw [bump_current hc, count_some he, count_some hnew]
    exact le_rfl
  · have hfresh : ∀ e ∈ s, e.current now = false :=
      fun e he => eq_false_iff.mpr fun h => hc ⟨e, he, h⟩
    rw [bump_fresh hfresh]
    refine le_trans ?_ (Nat.le_add_left 1 _)
    by_cases hx : MemEntry.expired ⟨CacheValue.count 1, expiryOf now ttl⟩ now
    · rw [count_expired hx]
      exact Nat.zero_le 1
    · exact le_of_eq (count_some (eq_false_iff.mpr hx))

theorem ExpiresBy.mono (h : s.ExpiresBy t) (hle : t ≤ later) : s.ExpiresBy later := by
  intro e he
  obtain ⟨x, hx, hxt⟩ := h e he
  exact ⟨x, hx, le_trans hxt hle⟩

theorem ExpiresBy.swept (h : s.ExpiresBy t) : (s.swept now).ExpiresBy t :=
  fun e he => h e (mem_filter_iff.mp he).1

theorem ExpiresBy.count_eq_zero (h : s.ExpiresBy t) (hlt : t < now) : s.count now = 0 := by
  cases s with
  | none => rfl
  | some e =>
    obtain ⟨x, hx, hxt⟩ := h e rfl
    refine count_expired ?_
    simp only [MemEntry.expired, hx, decide_eq_true_eq]
    exact lt_of_le_of_lt hxt hlt

/-- A counter whose window has a positive length ends within it. -/
theorem expiresBy_bump (h : s.ExpiresBy t) (httl : 0 < ttl) (hle : now + ttl ≤ t) :
    ExpiresBy (some (s.bump now ttl)) t := by
  intro e' he'
  obtain rfl : s.bump now ttl = e' := some.inj he'
  by_cases hc : ∃ e, s = some e ∧ e.current now
  · obtain ⟨e, rfl, hc⟩ := hc
    rw [bump_current hc]
    exact h e rfl
  · rw [bump_fresh fun e he => eq_false_iff.mpr fun h => hc ⟨e, he, h⟩]
    exact ⟨now + ttl, if_pos httl, hle⟩

end Slot

/-- What a key has in a table some of whose entries were dropped for their values. -/
theorem lookup_filter {V : Type} [DecidableEq K] (l : AList fun _ => V) (p : V → Bool) (k : K) :
    lookup k ⟨l.entries.filter fun e => p e.2, l.nodupKeys.sublist List.filter_sublist⟩ =
      (l.lookup k).filter p := by
  have hnodup : (l.entries.filter fun e => p e.2).NodupKeys :=
    l.nodupKeys.sublist List.filter_sublist
  ext e
  -- membership in a lookup is membership of the pair in the list of entries
  have hleft : e ∈ lookup k ⟨l.entries.filter fun e => p e.2, hnodup⟩ ↔
      (⟨k, e⟩ : Sigma fun _ => V) ∈ l.entries.filter fun e => p e.2 := List.mem_dlookup_iff hnodup
  have hright : e ∈ l.lookup k ↔ (⟨k, e⟩ : Sigma fun _ => V) ∈ l.entries :=
    List.mem_dlookup_iff l.nodupKeys
  show e ∈ lookup k ⟨_, hnodup⟩ ↔ e ∈ (l.lookup k).filter p
  rw [hleft, List.mem_filter, mem_filter_iff, hright]

theorem length_insert {V : Type} [DecidableEq K] (l : AList fun _ : K => V) (k : K) (v : V) :
    (l.insert k v).entries.length =
      if (l.lookup k).isSome then l.entries.length else l.entries.length + 1 := by
  have hkeys (d : AList fun _ : K => V) : d.entries.length = d.keys.length :=
    (List.length_map _).symm
  rw [hkeys, hkeys, keys_insert, List.length_cons]
  split
  next h => rw [List.length_erase_add_one (mem_keys.mp (lookup_isSome.mp h))]
  next h => rw [List.erase_of_not_mem (mt mem_keys.mpr (mt lookup_isSome.mpr h))]

structure MemoryCache (K V : Type) [DecidableEq K] where
  data : AList fun _ : K => MemEntry V
  maxEntries : ℤ

/-- What a cache write fails with: `ErrCacheFull`, or an error of the backend. -/
inductive CacheError where
  | full
  | backend
deriving DecidableEq, Repr

namespace MemoryCache

variable [DecidableEq K]

/-- `newMemoryCacheWithCap`. -/
def new (maxEntries : ℤ) : MemoryCache K V := ⟨∅, maxEntries⟩

def slot (m : MemoryCache K V) (key : K) : Slot V := m.data.lookup key

/-- `admit` of the source: at the cap a new key is refused and an existing one still updates. -/
def admits (m : MemoryCache K V) (key : K) : Bool :=
  decide (m.maxEntries ≤ 0) || decide ((m.data.entries.length : ℤ) < m.maxEntries) ||
    (m.slot key).isSome

/-- `m.data[key] = e`, when the key is admitted. -/
def store {α : Type} (m : MemoryCache K V) (key : K) (e : MemEntry V) (reply : α) :
    Except CacheError α × MemoryCache K V :=
  if m.admits key then (.ok reply, { m with data := m.data.insert key e }) else (.error .full, m)

/-- `Get`; `none` is `ErrNotFound`. -/
def get (m : MemoryCache K V) (now : Time) (key : K) : Option V := (m.slot key).read now

def set (m : MemoryCache K V) (now : Time) (key : K) (value : V) (ttl : Duration) :
    Except CacheError Unit × MemoryCache K V := m.store key ⟨value, expiryOf now ttl⟩ ()

def delete (m : MemoryCache K V) (key : K) : MemoryCache K V := { m with data := m.data.erase key }

def getAndDelete (m : MemoryCache K V) (now : Time) (key : K) : Option V × MemoryCache K V :=
  match m.get now key with
  | none => (none, m)
  | some v => (some v, m.delete key)

/-- The entry of a key that `SetIfNotExists` takes to be still there. -/
def currentEntry (m : MemoryCache K V) (now : Time) (key : K) : Option (MemEntry V) :=
  (m.slot key).filter fun e => e.current now

def setIfNotExists (m : MemoryCache K V) (now : Time) (key : K) (value : V) (ttl : Duration) :
    Except CacheError Bool × MemoryCache K V :=
  match m.currentEntry now key with
  | some _ => (.ok false, m)
  | none => m.store key ⟨value, expiryOf now ttl⟩ true

def increment [Counting V N] (m : MemoryCache K V) (now : Time) (key : K) (ttl : Duration) :
    Except CacheError N × MemoryCache K V :=
  m.store key ((m.slot key).bump now ttl) ((m.slot key).next now ttl)

/-- One sweep of `cleanup`: expired entries are dropped. -/
def cleanup (m : MemoryCache K V) (now : Time) : MemoryCache K V :=
  { m with
    data := ⟨m.data.entries.filter fun e => !e.2.expired now,
      m.data.nodupKeys.sublist List.filter_sublist⟩ }

/-! ### What an operation does to a slot -/

section Slots

variable (m : MemoryCache K V) {k : K} {value : V}

theorem slot_insert (e : MemEntry V) :
    ({ m with data := m.data.insert key e } : MemoryCache K V).slot k =
      if k = key then some e else m.slot k := by
  by_cases hk : k = key
  · subst hk
    rw [if_pos rfl]
    exact lookup_insert m.data
  · rw [if_neg hk]
    exact lookup_insert_ne hk

theorem slot_delete : (m.delete key).slot k = if k = key then none else m.slot k := by
  by_cases hk : k = key
  · subst hk
    rw [if_pos rfl]
    exact lookup_erase k m.data
  · rw [if_neg hk]
    exact lookup_erase_ne hk

section Store

variable {α : Type} {reply : α}

theorem slot_store_ne (hk : k ≠ key) : (m.store key e reply).2.slot k = m.slot k := by
  unfold store
  split
  · rw [slot_insert, if_neg hk]
  · rfl

variable {m} in
theorem store_of_admits (hadm : m.admits key) :
    m.store key e reply = (.ok reply, { m with data := m.data.insert key e }) := if_pos hadm

/-- What is under a key after an entry was stored was there before, or is that entry. -/
theorem slot_store_cases {e' : MemEntry V} (h : (m.store key e reply).2.slot k = some e') :
    m.slot k = some e' ∨ k = key ∧ e' = e := by
  unfold store at h
  split at h
  · rw [slot_insert] at h
    split at h
    next hk => exact .inr ⟨hk, (Option.some.inj h).symm⟩
    next => exact .inl h
  · exact .inl h

end Store

theorem slot_set_ne (hk : k ≠ key) : (m.set now key value ttl).2.slot k = m.slot k :=
  slot_store_ne m hk

variable {m} in
theorem slot_set (hadm : m.admits key) :
    (m.set now key value ttl).2.slot k =
      if k = key then some ⟨value, expiryOf now ttl⟩ else m.slot k := by
  rw [set, store_of_admits hadm]
  exact m.slot_insert _

theorem slot_getAndDelete_ne (hk : k ≠ key) : (m.getAndDelete now key).2.slot k = m.slot k := by
  unfold getAndDelete
  split
  · rfl
  · rw [slot_delete, if_neg hk]

theorem slot_setIfNotExists_ne (hk : k ≠ key) :
    (m.setIfNotExists now key value ttl).2.slot k = m.slot k := by
  unfold setIfNotExists
  split
  · rfl
  · exact slot_store_ne m hk

theorem slot_increment_ne [Counting V N] (hk : k ≠ key) :
    (m.increment now key ttl).2.slot k = m.slot k := slot_store_ne m hk

theorem slot_cleanup : (m.cleanup now).slot k = (m.slot k).swept now :=
  lookup_filter m.data (fun e => !e.expired now) k

theorem slot_set_cases (h : (m.set now key value ttl).2.slot k = some e) :
    m.slot k = some e ∨ k = key ∧ e.value = value :=
  (slot_store_cases m h).imp_right (And.imp_right (congrArg MemEntry.value))

theorem slot_setIfNotExists_cases (h : (m.setIfNotExists now key value ttl).2.slot k = some e) :
    m.slot k = some e ∨ k = key ∧ e.value = value := by
  unfold setIfNotExists at h
  split at h
  · exact .inl h
  · exact (slot_store_cases m h).imp_right (And.imp_right (congrArg MemEntry.value))

theorem slot_increment_cases [Counting V N] (h : (m.increment now key ttl).2.slot k = some e) :
    m.slot k = some e ∨ ∃ n, e.value = Counting.format n :=
  (slot_store_cases m h).imp_right fun ⟨_, he⟩ => ⟨_, congrArg MemEntry.value he⟩

theorem slot_delete_cases (h : (m.delete key).slot k = some e) : m.slot k = some e := by
  rw [slot_delete] at h
  split at h
  · cases h
  · exact h

theorem slot_of_getAndDelete {v : V} (h : (m.getAndDelete now key).1 = some v) :
    ∃ e, m.slot key = some e ∧ e.value = v := by
  have hget : m.get now key = some v := by
    unfold getAndDelete at h
    split at h
    · cases h
    next hv => exact hv.trans h
  obtain ⟨e, he, hv⟩ := Option.map_eq_some_iff.mp hget
  exact ⟨e, (filter_eq_some_iff.mp he).1, hv⟩

theorem slot_increment [Counting V N] (hadm : m.admits key) :
    (m.increment now key ttl).2.slot key = some ((m.slot key).bump now ttl) := by
  rw [increment, store_of_admits hadm, slot_insert, if_pos rfl]

end Slots

/-! ### Entries in the way -/

section HoldsUntil

variable {m : MemoryCache K V} {k : K} {x : Time} {value : V}

section

variable (h : (m.slot key).HoldsUntil x)
include h

theorem refuses_of_holdsUntil (hlt : now < x) :
    m.setIfNotExists now key value ttl = (.ok false, m) := by
  obtain ⟨e, he, hcur⟩ := h
  have hfound : m.currentEntry now key = some e := by
    rw [currentEntry, he, filter_some, if_pos (hcur now hlt)]
  simp only [setIfNotExists, hfound]

/-- No such call removes an entry in the way, under its key or another. -/
theorem holdsUntil_setIfNotExists (hlt : now < x) :
    ((m.setIfNotExists now k value ttl).2.slot key).HoldsUntil x := by
  by_cases hk : key = k
  · subst hk
    rw [refuses_of_holdsUntil h hlt]
    exact h
  · rw [slot_setIfNotExists_ne m hk]
    exact h

end

/-- A new entry is in the way for its lifetime. -/
theorem holdsUntil_of_new (httl : 0 < ttl)
    (hnew : (m.setIfNotExists now key value ttl).1 = .ok true)
    (hx : x ≤ now + ttl) : ((m.setIfNotExists now key value ttl).2.slot key).HoldsUntil x := by
  refine ⟨⟨value, expiryOf now ttl⟩, ?_, fun t ht => ?_⟩
  · unfold MemoryCache.setIfNotExists at hnew ⊢
    split at hnew
    · cases hnew
    · by_cases hadm : m.admits key
      · rw [store_of_admits hadm, slot_insert, if_pos rfl]
      · rw [store, if_neg hadm] at hnew
        cases hnew
  · rw [expiryOf, if_pos httl, MemEntry.current, decide_eq_true_eq]
    exact lt_of_lt_of_le ht hx

end HoldsUntil

/-! ### Room -/

/-- The cache takes `n` more keys: it has no cap, or is that far below it. -/
def HasRoom (m : MemoryCache K V) (n : ℕ) : Prop :=
  m.maxEntries ≤ 0 ∨ (m.data.entries.length : ℤ) + n ≤ m.maxEntries

instance (m : MemoryCache K V) (n : ℕ) : Decidable (m.HasRoom n) :=
  inferInstanceAs (Decidable (_ ∨ _))

section Room

variable {m : MemoryCache K V} {n : ℕ}

theorem HasRoom.weaken {k : ℕ} (h : m.HasRoom n) (hle : k ≤ n) : m.HasRoom k := by
  rcases h with hcap | hlen
  · exact .inl hcap
  · exact .inr (by lia)

theorem HasRoom.admits (h : m.HasRoom (n + 1)) (key : K) : m.admits key := by
  simp only [MemoryCache.admits, or_eq_true, decide_eq_true_eq]
  left
  rcases h with hcap | hlen
  · exact .inl hcap
  · right
    push_cast at hlen
    lia

/-- With room, an increment goes through and takes up at most one key. -/
theorem HasRoom.increment [Counting V N] (h : m.HasRoom (n + 1)) :
    m.increment now key ttl = (.ok ((m.slot key).next now ttl),
      { m with data := m.data.insert key ((m.slot key).bump now ttl) }) :=
  store_of_admits (h.admits key)

theorem HasRoom.insert (h : m.HasRoom (n + 1)) (e : MemEntry V) :
    ({ m with data := m.data.insert key e } : MemoryCache K V).HasRoom n := by
  rcases h with hcap | hlen
  · exact .inl hcap
  · right
    show ((m.data.insert key e).entries.length : ℤ) + n ≤ m.maxEntries
    push_cast at hlen
    rw [length_insert]
    split <;> lia

theorem HasRoom.delete (h : m.HasRoom n) (key : K) : (m.delete key).HasRoom n := by
  rcases h with hcap | hlen
  · exact .inl hcap
  · right
    have hle := (List.kerase_sublist key m.data.entries).length_le
    show ((m.data.entries.kerase key).length : ℤ) + n ≤ m.maxEntries
    lia

end Room

end MemoryCache

end Vault42
