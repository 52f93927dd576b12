import Vault42.Cache.Memory
import Vault42.Cache.Decimal

/-!
# Two backends of one cache

`internal/cache`: the callers choose a backend by one configuration string and are to see no
difference. `Memory` is the store of `Cache/Memory.lean` with bytes for keys and values; `Postgres`
is `postgres.go`, each statement evaluated on the table `auth.cache` in one step.

The instants are nanoseconds, the resolution of `time.Time`. The table has the resolution of
`timestamptz`: an expiry is stored, and `NOW()` is read, in whole microseconds.

The two do differ, in five ways, and `Op.Common` is what is left:

* at the end of an entry's life: `Get`, `Exists` and `GetAndDelete` of the memory cache keep an
  entry up to and including its expiry, the table drops it there, and the table is blind to the rest
  of the microsecond of the expiry;
* a counter without an expiry: the memory cache leaves it without one, the upsert gives it the
  expiry of the increment;
* a counter that is no number, or the largest one: the memory cache starts again from zero or wraps
  around, the cast fails;
* text the server's encoding does not have;
* a key that is too long for an entry of the index that keeps the keys apart.

Main result: `backends_interchangeable`, the replies are the same over every trace of calls and
sweeps that keeps to what the backends have in common, from the relation `Agree` between the stores
and its preservation by a call (`exec_agree`) and by the sweeps.
-/

namespace Vault42.Cache

open Strconv Option Bool

/-- The operations of the `Cache` interface. -/
inductive Op where
  | get (key : Bytes)
  | set (key value : Bytes) (ttl : Duration)
  | delete (key : Bytes)
  | exists (key : Bytes)
  | getAndDelete (key : Bytes)
  | setIfNotExists (key value : Bytes) (ttl : Duration)
  | increment (key : Bytes) (ttl : Duration)

inductive Reply where
  | value (v : Bytes)
  | notFound
  | done
  | flag (b : Bool)
  | count (n : ℤ)
  | failed (e : CacheError)
deriving DecidableEq

/-- A read: the value, or `ErrNotFound`. -/
def Reply.ofRead : Option Bytes → Reply
  | none => .notFound
  | some v => .value v

/-! ### The memory backend -/

/-- A counter is decimal text, and `count++` wraps around. -/
instance : Counting Bytes ℤ :=
  ⟨0, fun v => (parseInt v).1, fun n => Int.bmod (n + 1) (2 ^ 64), formatInt⟩

abbrev Entry := MemEntry Bytes

abbrev Memory := MemoryCache Bytes Bytes

/-- The reply to a write: what it returns, or its error. -/
def Reply.ofWrite {α : Type} (f : α → Reply) (x : Except CacheError α × Memory) : Reply × Memory :=
  match x.1 with
  | .ok a => (f a, x.2)
  | .error e => (.failed e, x.2)

namespace Memory

abbrev new (maxEntries : ℤ) : Memory := MemoryCache.new maxEntries

/-- One call. -/
def exec (m : Memory) (now : Time) : Op → Reply × Memory
  | .get key => (.ofRead (m.get now key), m)
  | .set key value ttl => Reply.ofWrite (fun _ => .done) (m.set now key value ttl)
  | .delete key => (.done, m.delete key)
  | .exists key => (.flag (m.get now key).isSome, m)
  | .getAndDelete key => ((.ofRead (m.getAndDelete now key).1), (m.getAndDelete now key).2)
  | .setIfNotExists key value ttl => Reply.ofWrite .flag (m.setIfNotExists now key value ttl)
  | .increment key ttl => Reply.ofWrite .count (m.increment now key ttl)

abbrev cleanup (m : Memory) (now : Time) : Memory := MemoryCache.cleanup m now

end Memory

/-! ### The PostgreSQL backend -/

/-- An instant as a `timestamptz` holds it. -/
def micros (t : Time) : ℤ := t / 1000

/-- A row of `auth.cache`; the expiry is in microseconds. -/
structure Row where
  value : Bytes
  expiresAt : Option ℤ
deriving DecidableEq

/-- `expires_at IS NULL OR expires_at > NOW()`. -/
def Row.live (r : Row) (now : Time) : Bool :=
  match r.expiresAt with
  | none => true
  | some t => decide (micros now < t)

/-- A byte that continues a character. -/
def continuation (b : UInt8) : Bool := decide (0x80 ≤ b) && decide (b ≤ 0xBF)

/-- The server's check of UTF-8 text: no overlong form, no surrogate, nothing past `U+10FFFF`. -/
def validUTF8 : Bytes → Bool
  | [] => true
  | b :: s =>
    if b ≤ 0x7F then validUTF8 s
    else match s with
      | [] => false
      | c :: s =>
        if 0xC2 ≤ b ∧ b ≤ 0xDF then continuation c && validUTF8 s
        else match s with
          | [] => false
          | d :: s =>
            if 0xE0 ≤ b ∧ b ≤ 0xEF then
              continuation c && continuation d && (b != 0xE0 || decide (0xA0 ≤ c)) &&
                (b != 0xED || decide (c ≤ 0x9F)) && validUTF8 s
            else match s with
              | [] => false
              | e :: s =>
                decide (0xF0 ≤ b ∧ b ≤ 0xF4) && continuation c && continuation d &&
                  continuation e &&
                  (b != 0xF0 || decide (0x90 ≤ c)) &&
                    (b != 0xF4 || decide (c ≤ 0x8F)) && validUTF8 s

/-- A parameter of type `text`: valid in the server's encoding, and without a zero byte. -/
def isText (s : Bytes) : Bool := validUTF8 s && !s.contains 0

/-- What differs from one server to another: the cast to `bigint`, and which keys the index of the
primary key takes. An entry of the index holds 2704 bytes, 12 of them its own; a longer key may
still fit once it is compressed. -/
structure Server extends BigintInput where
  indexes : Bytes → Bool
  indexes_short : ∀ key, key.length ≤ 2692 → indexes key

/-- The table `auth.cache`, its key being the primary key. -/
structure Postgres where
  rows : Bytes → Option Row

namespace Postgres

def empty : Postgres := ⟨fun _ => none⟩

/-- The expiry a TTL gives, as the parameter of a statement. -/
def expiry (now : Time) (ttl : Duration) : Option ℤ := (expiryOf now ttl).map micros

/-- The row of a key from now on. -/
def put (p : Postgres) (key : Bytes) (r : Option Row) : Postgres := ⟨Function.update p.rows key r⟩

/-- `SELECT value ... AND (expires_at IS NULL OR expires_at > NOW())`. -/
def get (p : Postgres) (now : Time) (key : Bytes) : Option Bytes :=
  ((p.rows key).filter fun r => r.live now).map Row.value

/-- `DELETE ... AND (expires_at IS NULL OR expires_at > NOW()) RETURNING value`. -/
def getAndDelete (p : Postgres) (now : Time) (key : Bytes) : Option Bytes × Postgres :=
  match p.get now key with
  | none => (none, p)
  | some v => (some v, p.put key none)

/-- The upsert of `SetIfNotExists`: a row in the way is taken over when it has expired. -/
def setIfNotExists (p : Postgres) (now : Time) (key value : Bytes) (ttl : Duration) :
    Reply × Postgres :=
  match p.rows key with
  | none => (.flag true, p.put key (some ⟨value, expiry now ttl⟩))
  | some r =>
    if r.live now then (.flag false, p)
    else (.flag true, p.put key (some ⟨value, expiry now ttl⟩))

/-- The value the upsert of `Increment` writes over a row: `'1'` over an expired one, else the cast
value plus one, unless the cast or the addition fails. -/
def bumped (S : Server) (r : Row) (now : Time) : Option Bytes :=
  if r.live now then
    (S.read r.value).bind fun n => if n + 1 < 2 ^ 63 then some (formatInt (n + 1)) else none
  else some (formatInt 1)

/-- The expiry it writes: kept where there is one and it is ahead, else the new one. -/
def bumpedExpiry (r : Row) (now : Time) (ttl : Duration) : Option ℤ :=
  if r.expiresAt.isSome && r.live now then r.expiresAt else expiry now ttl

/-- `RETURNING value::bigint`; the statement fails as a whole. -/
def returning (S : Server) (p : Postgres) (key : Bytes) (r : Row) : Reply × Postgres :=
  match S.read r.value with
  | none => (.failed .backend, p)
  | some n => (.count n, p.put key (some r))

/-- The upsert of `Increment`. -/
def increment (S : Server) (p : Postgres) (now : Time) (key : Bytes) (ttl : Duration) :
    Reply × Postgres :=
  match p.rows key with
  | none => p.returning S key ⟨formatInt 1, expiry now ttl⟩
  | some r =>
    match bumped S r now with
    | none => (.failed .backend, p)
    | some v => p.returning S key ⟨v, bumpedExpiry r now ttl⟩

/-- A statement whose parameters are refused fails before it touches the table. -/
def withText (p : Postgres) (params : List Bytes) (k : Reply × Postgres) : Reply × Postgres :=
  if params.all isText then k else (.failed .backend, p)

/-- An upsert of a key that the index does not take fails. -/
def withIndex (S : Server) (p : Postgres) (key : Bytes) (k : Reply × Postgres) : Reply × Postgres :=
  if S.indexes key then k else (.failed .backend, p)

/-- One call. -/
def exec (S : Server) (p : Postgres) (now : Time) : Op → Reply × Postgres
  | .get key => p.withText [key] (.ofRead (p.get now key), p)
  | .set key value ttl =>
    p.withText [key, value] (p.withIndex S key (.done, p.put key (some ⟨value, expiry now ttl⟩)))
  | .delete key => p.withText [key] (.done, p.put key none)
  | .exists key => p.withText [key] (.flag (p.get now key).isSome, p)
  | .getAndDelete key =>
    p.withText [key] (.ofRead (p.getAndDelete now key).1, (p.getAndDelete now key).2)
  | .setIfNotExists key value ttl =>
    p.withText [key, value] (p.withIndex S key (p.setIfNotExists now key value ttl))
  | .increment key ttl => p.withText [key] (p.withIndex S key (p.increment S now key ttl))

/-- One batch of `reapExpired`: of the expired rows, those the `LIMIT` lets the server pick. -/
def reap (p : Postgres) (now : Time) (pick : Bytes → Bool) : Postgres :=
  ⟨fun k => (p.rows k).filter fun r => r.live now || !pick k⟩

end Postgres

/-! ### Traces -/

/-- What happens at an instant: a call, or a sweep of one backend. -/
inductive Event where
  | call (op : Op)
  | cleanup
  | reap (pick : Bytes → Bool)

/-- A sequence of events and the instants they happen at. -/
abbrev Trace := List (Time × Event)

/-- The replies of the memory backend to the calls of a trace. -/
def Memory.replies (m : Memory) : Trace → List Reply
  | [] => []
  | (now, .call op) :: rest => (m.exec now op).1 :: (m.exec now op).2.replies rest
  | (now, .cleanup) :: rest => (m.cleanup now).replies rest
  | (_, .reap _) :: rest => m.replies rest

/-- The replies of the PostgreSQL backend. -/
def Postgres.replies (S : Server) (p : Postgres) : Trace → List Reply
  | [] => []
  | (now, .call op) :: rest => (p.exec S now op).1 :: (p.exec S now op).2.replies S rest
  | (_, .cleanup) :: rest => p.replies S rest
  | (now, .reap pick) :: rest => (p.reap now pick).replies S rest

/-- The row an entry is stored as. -/
def Row.of (e : Entry) : Row := ⟨e.value, e.expiresAt.map micros⟩

/-- A counter both backends can add one to. -/
def counts (v : Bytes) : Bool :=
  match parseInt v with
  | (n, none) => decide (n + 1 < 2 ^ 63)
  | (_, some _) => false

/-- **What the backends have in common**, said of the memory backend before the call. The text is
text to the server, and a key that is written one that its index takes. An entry that a read still
finds is not in the microsecond of its expiry, nor is one that a guard or a counter still finds, and
a counter that goes on is a number with room above it, whose expiry is not for the increment to
set. -/
def Op.Common (S : Server) (m : Memory) (now : Time) : Op → Prop
  | .get key | .exists key | .getAndDelete key =>
    isText key ∧ ∀ e ∈ m.slot key, e.expired now = false → (Row.of e).live now
  | .set key value _ => isText key ∧ isText value ∧ S.indexes key
  | .delete key => isText key
  | .setIfNotExists key value _ =>
    isText key ∧ isText value ∧ S.indexes key ∧
      ∀ e ∈ m.slot key, e.current now → (Row.of e).live now
  | .increment key ttl =>
    isText key ∧ S.indexes key ∧ ∀ e ∈ m.slot key, e.current now →
      (Row.of e).live now ∧ counts e.value ∧ (e.expiresAt = none → ttl ≤ 0)

/-- The memory backend is below its entry cap. -/
def Memory.BelowCap (m : Memory) : Prop :=
  m.maxEntries ≤ 0 ∨ (m.data.entries.length : ℤ) < m.maxEntries

instance (m : Memory) : Decidable m.BelowCap := inferInstanceAs (Decidable (_ ∨ _))

/-- Every call of a trace finds the memory backend below its cap. -/
def Memory.StaysBelowCap (m : Memory) : Trace → Prop
  | [] => True
  | (now, .call op) :: rest => m.BelowCap ∧ (m.exec now op).2.StaysBelowCap rest
  | (now, .cleanup) :: rest => (m.cleanup now).StaysBelowCap rest
  | (_, .reap _) :: rest => m.StaysBelowCap rest

instance Memory.decidableStaysBelowCap : (m : Memory) → (t : Trace) → Decidable (m.StaysBelowCap t)
  | _, [] => .isTrue trivial
  | m, (now, .call op) :: rest =>
    @instDecidableAnd _ _ _ (Memory.decidableStaysBelowCap (m.exec now op).2 rest)
  | m, (now, .cleanup) :: rest => Memory.decidableStaysBelowCap (m.cleanup now) rest
  | m, (_, .reap _) :: rest => Memory.decidableStaysBelowCap m rest

/-- Every call of a trace finds the memory backend below its cap and is one the backends have in
common. -/
def Memory.Meets (S : Server) (m : Memory) : Trace → Prop
  | [] => True
  | (now, .call op) :: rest => m.BelowCap ∧ op.Common S m now ∧ (m.exec now op).2.Meets S rest
  | (now, .cleanup) :: rest => (m.cleanup now).Meets S rest
  | (_, .reap _) :: rest => m.Meets S rest

/-! ### The stores agree -/

variable {now : Time} {m : Memory} {p : Postgres}

/-- What the two backends hold under a key: the same, or nothing that the table takes to be
alive. -/
def Same (now : Time) (s : Option Entry) (r : Option Row) : Prop :=
  (∃ e, s = some e ∧ r = some (Row.of e)) ∨
    (∀ e ∈ s, (Row.of e).live now = false) ∧ ∀ q ∈ r, q.live now = false

/-- The stores agree on every key. -/
def Agree (now : Time) (m : Memory) (p : Postgres) : Prop := ∀ k, Same now (m.slot k) (p.rows k)

section Life

variable {later : Time} {e : Entry} {r : Row}

theorem micros_mono (h : now ≤ later) : micros now ≤ micros later :=
  Int.ediv_le_ediv (by decide) h

theorem Row.live_anti (hle : now ≤ later) (h : r.live now = false) : r.live later = false := by
  cases hx : r.expiresAt with
  | none =>
    simp only [Row.live, hx] at h
    cases h
  | some =>
    simp only [Row.live, hx, decide_eq_false_iff_not] at h ⊢
    have := micros_mono hle
    omega

/-- What the table takes to be alive, the memory backend does. -/
theorem Row.current_of_live (h : (Row.of e).live now) : e.current now := by
  cases hx : e.expiresAt with
  | none => simp only [MemEntry.current, hx]
  | some =>
    simp only [Row.live, Row.of, hx, map_some, decide_eq_true_eq] at h
    simp only [MemEntry.current, hx, decide_eq_true_eq]
    by_contra hle
    exact absurd (micros_mono (not_lt.mp hle)) (not_le.mpr h)

variable {s : Option Entry} {q : Option Row}

theorem Same.mono (h : Same now s q) (hle : now ≤ later) : Same later s q := by
  rcases h with h | ⟨hs, hq⟩
  · exact .inl h
  · exact .inr ⟨fun e he => Row.live_anti hle (hs e he), fun r hr => Row.live_anti hle (hq r hr)⟩

/-- **The two ways a key is found**, by a judgement `alive` of the memory backend that says of its
entry what the table says: both have it, or to both it is gone. -/
theorem Same.found (h : Same now s q) (alive : Entry → Bool)
    (hlive : ∀ e ∈ s, alive e → (Row.of e).live now)
    (halive : ∀ e, (Row.of e).live now → alive e) :
    (∃ e, s = some e ∧ q = some (Row.of e) ∧ alive e ∧ (Row.of e).live now) ∨
      s.filter alive = none ∧ ∀ r ∈ q, r.live now = false := by
  by_cases hfound : ∃ e ∈ s, alive e
  · obtain ⟨e, he, ha⟩ := hfound
    rcases h with ⟨e', rfl, rfl⟩ | ⟨hs, -⟩
    · obtain rfl : e' = e := some.inj he
      exact .inl ⟨e', rfl, rfl, ha, hlive e' rfl ha⟩
    · exact absurd (hlive e he ha) (by rw [hs e he]; decide)
  · have hnone : ∀ e ∈ s, alive e = false :=
      fun e he => eq_false_iff.mpr fun ha => hfound ⟨e, he, ha⟩
    refine .inr ⟨filter_eq_none_iff.mpr fun e he => by simp [hnone e he], ?_⟩
    rcases h with ⟨e, rfl, rfl⟩ | ⟨-, hq⟩
    · intro r hr
      obtain rfl : (Row.of e) = r := some.inj hr
      exact eq_false_iff.mpr fun hl => absurd (halive e hl) (by rw [hnone e rfl]; decide)
    · exact hq

end Life

/-! ### What a call does to the agreement -/

namespace Agree

variable {later : Time} {key : Bytes} {e : Entry}

theorem mono (h : Agree now m p) (hle : now ≤ later) : Agree later m p := fun k => (h k).mono hle

theorem empty (now : Time) (cap : ℤ) : Agree now (.new cap) .empty :=
  fun _ => .inr ⟨nofun, nofun⟩

theorem insert (h : Agree now m p) :
    Agree now { m with data := m.data.insert key e } (p.put key (some (Row.of e))) := by
  intro k
  by_cases hk : k = key
  · subst hk
    refine .inl ⟨e, AList.lookup_insert m.data, ?_⟩
    exact Function.update_self ..
  · have hslot : MemoryCache.slot { m with data := m.data.insert key e } k = m.slot k :=
      AList.lookup_insert_ne hk
    have hrow : (p.put key (some (Row.of e))).rows k = p.rows k := Function.update_of_ne hk ..
    rw [hslot, hrow]
    exact h k

theorem erase (h : Agree now m p) :
    Agree now { m with data := m.data.erase key } (p.put key none) := by
  intro k
  by_cases hk : k = key
  · subst hk
    have hslot : MemoryCache.slot { m with data := m.data.erase k } k = none :=
      AList.lookup_erase k m.data
    have hrow : (p.put k none).rows k = none := Function.update_self ..
    rw [hslot, hrow]
    exact .inr ⟨nofun, nofun⟩
  · have hslot : MemoryCache.slot { m with data := m.data.erase key } k = m.slot k :=
      AList.lookup_erase_ne hk
    have hrow : (p.put key none).rows k = p.rows k := Function.update_of_ne hk ..
    rw [hslot, hrow]
    exact h k

/-- A sweep of the memory backend drops what is gone to both. -/
theorem cleanup (h : Agree now m p) : Agree now (m.cleanup now) p := by
  intro k
  have hslot : (m.cleanup now).slot k = (m.slot k).filter fun e => !e.expired now :=
    lookup_filter m.data (fun e => !e.expired now) k
  rw [hslot]
  rcases h k with ⟨e, hs, hq⟩ | ⟨hs, hq⟩
  · by_cases he : e.expired now
    · refine .inr ⟨fun e' he' => ?_, fun r hr => ?_⟩
      · obtain ⟨rfl, hne⟩ : e = e' ∧ e'.expired now = false := by simpa [hs] using he'
        exact absurd he (by rw [hne]; decide)
      · obtain rfl := mem_unique hq hr
        refine eq_false_iff.mpr fun hl => ?_
        rw [MemEntry.not_expired_of_current (Row.current_of_live hl)] at he
        cases he
    · exact .inl ⟨e, by simp [hs, he], hq⟩
  · exact .inr ⟨fun e he => hs e (mem_filter_iff.mp he).1, hq⟩

/-- A batch of the sweep of the table does, too. -/
theorem reap (h : Agree now m p) (pick : Bytes → Bool) : Agree now m (p.reap now pick) := by
  intro k
  show Same now (m.slot k) ((p.rows k).filter fun r => r.live now || !pick k)
  rcases h k with ⟨e, hs, hq⟩ | ⟨hs, hq⟩
  · by_cases hl : (Row.of e).live now
    · exact .inl ⟨e, hs, by simp [hq, hl]⟩
    · refine .inr ⟨fun e' he' => ?_, fun r hr => ?_⟩
      · obtain rfl := mem_unique hs he'
        exact eq_false_iff.mpr hl
      · obtain rfl : (Row.of e) = r := some.inj (hq.symm.trans (mem_filter_iff.mp hr).1)
        exact eq_false_iff.mpr hl
  · exact .inr ⟨hs, fun r hr => hq r (mem_filter_iff.mp hr).1⟩

end Agree

section Exec

variable {S : Server} {key : Bytes} {ttl : Duration}

theorem Memory.BelowCap.admits (h : m.BelowCap) (key : Bytes) : m.admits key := by
  simp only [MemoryCache.admits, or_eq_true, decide_eq_true_eq]
  exact .inl h

theorem withText_of_all {params : List Bytes} {k : Reply × Postgres} (h : ∀ s ∈ params, isText s) :
    p.withText params k = k :=
  if_pos (List.all_eq_true.mpr h)

theorem withIndex_of_indexes {k : Reply × Postgres} (h : S.indexes key) : p.withIndex S key k = k :=
  if_pos h

theorem get_eq (h : Agree now m p)
    (hc : ∀ e ∈ m.slot key, e.expired now = false → (Row.of e).live now) :
    m.get now key = p.get now key := by
  have hfound := (h key).found (fun e => !e.expired now)
    (fun e he ha => hc e he (by simpa using ha))
    (fun e hl => by simp [MemEntry.not_expired_of_current (Row.current_of_live hl)])
  unfold MemoryCache.get Slot.read Postgres.get
  rcases hfound with ⟨e, hs, hq, ha, hl⟩ | ⟨hs, hq⟩
  · rw [hs, hq, filter_some, if_pos ha, filter_some, if_pos hl]
    rfl
  · rw [hs, filter_eq_none_iff.mpr fun r hr => by simp [hq r hr]]
    rfl

theorem getAndDelete_agree (h : Agree now m p)
    (hc : ∀ e ∈ m.slot key, e.expired now = false → (Row.of e).live now) :
    (m.getAndDelete now key).1 = (p.getAndDelete now key).1 ∧
      Agree now (m.getAndDelete now key).2 (p.getAndDelete now key).2 := by
  unfold MemoryCache.getAndDelete Postgres.getAndDelete
  rw [get_eq h hc]
  cases p.get now key with
  | none => exact ⟨rfl, h⟩
  | some => exact ⟨rfl, h.erase⟩

theorem setIfNotExists_agree (h : Agree now m p) (hcap : m.BelowCap) (value : Bytes)
    (hc : ∀ e ∈ m.slot key, e.current now → (Row.of e).live now) :
    (Reply.ofWrite .flag (m.setIfNotExists now key value ttl)).1 =
        (p.setIfNotExists now key value ttl).1 ∧
      Agree now (Reply.ofWrite .flag (m.setIfNotExists now key value ttl)).2
        (p.setIfNotExists now key value ttl).2 := by
  unfold MemoryCache.setIfNotExists MemoryCache.currentEntry Postgres.setIfNotExists
  rcases (h key).found (fun e => e.current now) hc fun e hl => Row.current_of_live hl with
    ⟨e, hs, hq, ha, hl⟩ | ⟨hs, hq⟩
  · simp only [hs, hq, filter_some, ha, hl, if_true]
    exact ⟨rfl, h⟩
  · rw [hs]
    simp only [MemoryCache.store_of_admits (hcap.admits key)]
    cases hr : p.rows key with
    | none => exact ⟨rfl, h.insert⟩
    | some r =>
      simp only [hq r hr, Bool.false_eq_true, if_false]
      exact ⟨rfl, h.insert⟩

/-- The number a counter that goes on is read as. -/
theorem parse_of_counts {v : Bytes} (h : counts v) :
    ∃ n, parseInt v = (n, none) ∧ n + 1 < 2 ^ 63 := by
  unfold counts at h
  split at h
  next n heq => exact ⟨n, heq, of_decide_eq_true h⟩
  next => cases h

theorem increment_agree (h : Agree now m p) (hcap : m.BelowCap)
    (hc : ∀ e ∈ m.slot key, e.current now →
      (Row.of e).live now ∧ counts e.value ∧ (e.expiresAt = none → ttl ≤ 0)) :
    (Reply.ofWrite .count (m.increment now key ttl)).1 = (p.increment S now key ttl).1 ∧
      Agree now (Reply.ofWrite .count (m.increment now key ttl)).2
        (p.increment S now key ttl).2 := by
  -- what is written, from the counter it is written over
  have written : ∀ {n x}, (m.slot key).counter now ttl = (n, x) → m.increment now key ttl =
      (.ok (Int.bmod (n + 1) (2 ^ 64)), { m with
        data := m.data.insert key ⟨formatInt (Int.bmod (n + 1) (2 ^ 64)), x⟩ }) := by
    intro n x hcounter
    rw [MemoryCache.increment, MemoryCache.store_of_admits (hcap.admits key), Slot.bump, Slot.next,
      hcounter]
    rfl
  unfold Postgres.increment
  rcases (h key).found (fun e => e.current now) (fun e he ha => (hc e he ha).1)
    fun e hl => Row.current_of_live hl with ⟨e, hs, hq, ha, hl⟩ | ⟨hs, hq⟩
  · -- the counter goes on
    obtain ⟨-, hcounts, hexp⟩ := hc e hs ha
    obtain ⟨n, hparse, hroom⟩ := parse_of_counts hcounts
    obtain ⟨hlo, -⟩ := range_of_parseInt hparse
    have hcounter : (m.slot key).counter now ttl = (n, e.expiresAt) := by
      have hnumber : Counting.parse e.value = n := congrArg Prod.fst hparse
      rw [hs, Slot.counter_current ha, hnumber]
    have hbmod : Int.bmod (n + 1) (2 ^ 64) = n + 1 :=
      Int.bmod_eq_of_le (by omega) (by omega)
    have hbumped : Postgres.bumped S (Row.of e) now = some (formatInt (n + 1)) := by
      have hread : S.read (Row.of e).value = some n := S.reads_decimal _ _ hparse
      simp only [Postgres.bumped, hl, if_true, hread, bind_some, hroom]
    have hexpiry : Postgres.bumpedExpiry (Row.of e) now ttl = (Row.of e).expiresAt := by
      unfold Postgres.bumpedExpiry
      cases hx : e.expiresAt with
      | none =>
        have hnone : (Row.of e).expiresAt = none := by simp only [Row.of, hx, map_none]
        have httl : ¬ 0 < ttl := not_lt.mpr (hexp hx)
        simp [hnone, Postgres.expiry, expiryOf, httl]
      | some =>
        have hsome : (Row.of e).expiresAt.isSome := by
          simp only [Row.of, hx, map_some, isSome_some]
        simp only [hsome, hl, Bool.and_self, if_true]
    simp only [written hcounter, hq, hbumped, hexpiry, hbmod, Postgres.returning,
      S.read_formatInt (by omega : -2 ^ 63 ≤ n + 1) hroom]
    exact ⟨rfl, h.insert⟩
  · -- a new window
    have hcounter : (m.slot key).counter now ttl = ((0 : ℤ), expiryOf now ttl) := by
      simp only [Slot.counter, hs]
      rfl
    have hbmod : Int.bmod (0 + 1) (2 ^ 64) = 1 := by decide
    have hone : S.read (formatInt 1) = some 1 := S.read_formatInt (by decide) (by decide)
    rw [written hcounter, hbmod]
    cases hr : p.rows key with
    | none =>
      simp only [Postgres.returning, hone]
      exact ⟨rfl, h.insert⟩
    | some r =>
      have hbumped : Postgres.bumped S r now = some (formatInt 1) := by
        simp only [Postgres.bumped, hq r hr, Bool.false_eq_true, if_false]
      have hexpiry : Postgres.bumpedExpiry r now ttl = Postgres.expiry now ttl := by
        simp only [Postgres.bumpedExpiry, hq r hr, Bool.and_false, Bool.false_eq_true, if_false]
      simp only [hbumped, hexpiry, Postgres.returning, hone]
      exact ⟨rfl, h.insert⟩

/-- **One call.** From stores that agree, a call the backends have in common gets one reply, and
leaves stores that agree. -/
theorem exec_agree (op : Op) (h : Agree now m p) (hcap : m.BelowCap) (hc : op.Common S m now) :
    (m.exec now op).1 = (p.exec S now op).1 ∧
      Agree now (m.exec now op).2 (p.exec S now op).2 := by
  have one : ∀ {a : Bytes}, isText a → ∀ s ∈ [a], isText s := by
    intro a ha s hs
    rw [List.mem_singleton.mp hs]
    exact ha
  have two : ∀ {a b : Bytes}, isText a → isText b → ∀ s ∈ [a, b], isText s := by
    intro a b ha hb s hs
    rcases List.mem_pair.mp hs with rfl | rfl
    · exact ha
    · exact hb
  cases op with
  | get =>
    simp only [Memory.exec, Postgres.exec, withText_of_all (one hc.1), get_eq h hc.2]
    exact ⟨trivial, h⟩
  | set =>
    simp only [Memory.exec, Postgres.exec, withText_of_all (two hc.1 hc.2.1),
      withIndex_of_indexes hc.2.2, MemoryCache.set, MemoryCache.store_of_admits (hcap.admits _)]
    exact ⟨rfl, h.insert⟩
  | delete =>
    simp only [Memory.exec, Postgres.exec, withText_of_all (one hc)]
    exact ⟨trivial, h.erase⟩
  | «exists» key =>
    simp only [Memory.exec, Postgres.exec, withText_of_all (one hc.1), get_eq h hc.2]
    exact ⟨trivial, h⟩
  | getAndDelete =>
    obtain ⟨hreply, hagree⟩ := getAndDelete_agree h hc.2
    simp only [Memory.exec, Postgres.exec, withText_of_all (one hc.1), hreply]
    exact ⟨trivial, hagree⟩
  | setIfNotExists key value =>
    simp only [Memory.exec, Postgres.exec, withText_of_all (two hc.1 hc.2.1),
      withIndex_of_indexes hc.2.2.1]
    exact setIfNotExists_agree h hcap value hc.2.2.2
  | increment =>
    simp only [Memory.exec, Postgres.exec, withText_of_all (one hc.1),
      withIndex_of_indexes hc.2.1]
    exact increment_agree h hcap hc.2.2

end Exec

/-- **Over what they have in common the backends are interchangeable.** From stores that agree,
every trace with a clock that does not go back gets the same replies from both. -/
theorem replies_eq {S : Server} {trace : Trace} {start : Time}
    (h : Agree start m p) (hstart : ∀ x ∈ trace, start ≤ x.1)
    (hclock : trace.Pairwise fun x y => x.1 ≤ y.1) (hmeets : m.Meets S trace) :
    m.replies trace = p.replies S trace := by
  induction trace generalizing start m p with
  | nil => rfl
  | cons x rest ih =>
    obtain ⟨now, ev⟩ := x
    obtain ⟨hlater, hrest⟩ := List.pairwise_cons.mp hclock
    have hnow := h.mono (hstart _ List.mem_cons_self)
    cases ev with
    | call op =>
      obtain ⟨hcap, hcommon, hmeets⟩ := hmeets
      obtain ⟨hreply, hagree⟩ := exec_agree op hnow hcap hcommon
      rw [Memory.replies, Postgres.replies, hreply, ih hagree hlater hrest hmeets]
    | cleanup => exact ih hnow.cleanup hlater hrest hmeets
    | reap pick => exact ih (hnow.reap pick) hlater hrest hmeets

/-- **The cache backends are interchangeable over what they have in common**, from the moment they
are opened. -/
theorem backends_interchangeable (S : Server) (cap : ℤ) (trace : Trace)
    (hclock : trace.Pairwise fun x y => x.1 ≤ y.1) (hmeets : (Memory.new cap).Meets S trace) :
    (Memory.new cap).replies trace = Postgres.empty.replies S trace := by
  cases trace with
  | nil => rfl
  | cons x =>
    refine replies_eq (.empty x.1 cap) (fun y hy => ?_) hclock hmeets
    rcases List.mem_cons.mp hy with rfl | hy
    · exact le_rfl
    · exact (List.pairwise_cons.mp hclock).1 y hy

/-! ### Sample traces -/

namespace Sample

def key : Bytes := [107]

/-- A server that compresses no key. -/
def server : Server where
  toBigintInput := .plain
  indexes key := decide (key.length ≤ 2692)
  indexes_short _ h := decide_eq_true h

/-- A counter in a window of five microseconds: advanced twice, read, and gone after its end. -/
def window : Trace :=
  [(0, .call (.increment key 5000)), (1000, .call (.increment key 9000)), (2000, .call (.get key)),
    (7000, .cleanup), (7000, .call (.setIfNotExists key key 0))]

theorem window_interchangeable :
    (Memory.new 10).replies window =
        [.count 1, .count 2, .value [50], .flag true] ∧
      (Memory.new 10).replies window = Postgres.empty.replies server window := by
  refine ⟨by decide +kernel, backends_interchangeable server 10 window (by decide) ?_⟩
  refine ⟨.inr (by decide), ⟨by decide, ?_⟩, .inr (by decide +kernel), ⟨by decide, ?_⟩,
    .inr (by decide +kernel), ⟨by decide, ?_⟩, .inr (by decide +kernel),
    ⟨by decide, by decide, ?_⟩, trivial⟩ <;> decide +kernel

/-- A trace that keeps the clock and stays below the cap, and that the backends answer
differently. -/
def Parts (trace : Trace) : Prop :=
  (trace.Pairwise fun x y => x.1 ≤ y.1) ∧ (Memory.new 10).StaysBelowCap trace ∧
    (Memory.new 10).replies trace ≠ Postgres.empty.replies server trace

def lateRead : Trace := [(0, .call (.set key [49] 5000)), (5000, .call (.get key))]

def lastingCounter : Trace :=
  [(0, .call (.set key [53] 0)), (1000, .call (.increment key 2000)), (9000, .call (.get key))]

def wordCounter : Trace := [(0, .call (.set key key 0)), (1000, .call (.increment key 2000))]

def zeroByte : Trace := [(0, .call (.set key [0] 0))]

/-- Letters in no order that a compression could use. -/
def letters : ℕ → ℕ → Bytes
  | 0, _ => []
  | n + 1, seed =>
    UInt8.ofNat (97 + seed / 65536 % 26) :: letters n ((1103515245 * seed + 12345) % 2 ^ 31)

def longKey : Trace := [(0, .call (.set (letters 2700 1) [49] 0))]

theorem backends_part :
    Parts lateRead ∧ Parts lastingCounter ∧ Parts wordCounter ∧ Parts zeroByte ∧ Parts longKey := by
  unfold Parts
  decide +kernel

end Sample

end Vault42.Cache
