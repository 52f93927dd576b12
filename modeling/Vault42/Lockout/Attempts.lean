import Vault42.Lockout.Counters
import Vault42.Service.Clerical
import Vault42.Service.Requests

/-!
# What an attempt does to the counters

A login, a second-factor attempt, a password change or a reset is served alone here, from the first
call to the last, and its conversation is kept. Two things are read off the conversation: what it
did to the per-source counters of an account (`marks`), and how many wrong passwords or second
factors it had checked (`wrongs`). `Moved` connects both with the world: the counters of the account
are what the marks, applied to the counters before, make of them.

The results are one lemma per request. A login moves the counters of the account it names, by at
most one mark, and checks at most one wrong password; if it does, the source was below the
threshold, and the failure is counted.
-/

namespace Vault42

open Framework Program Counters List Bool Ends

/-- What the cache holds against an account. -/
@[simps]
def World.lockout (w : World) (u : UserID) : Counters where
  clock := w.clock
  generation := w.cache.slot (.lockoutGeneration u)
  account := w.cache.slot (.accountLockout u)
  source := fun ip g => w.cache.slot (.sourceLockout u ip g)

/-! ### Reading a conversation -/

/-- What an exchange does to the per-source counters of an account. -/
def mark (u : UserID) : Event vault → Option Op
  | ⟨.cacheIncrement (.sourceLockout v ip _) _, _⟩ => if v = u then some (.fail ip) else none
  | ⟨.cacheDelete (.sourceLockout v ip _), _⟩ => if v = u then some (.clear ip) else none
  | ⟨.cacheIncrement (.lockoutGeneration v) _, _⟩ => if v = u then some .retire else none
  | _ => none

/-- What a conversation did to the per-source counters of an account, the latest first. -/
def marks (u : UserID) (past : List (Event vault)) : List Op := past.filterMap (mark u)

/-- A password or a second factor was checked and found wrong. The dummy hash belongs to nobody. -/
def wrong : Event vault → Bool
  | ⟨.verifyPassword _ hash, r⟩ =>
    hash != .dummy && (r == VerifyOutcome.verified false || r == .malformed)
  | ⟨.checkSecondFactor _ _ _, r⟩ => !r
  | _ => false

def wrongs (past : List (Event vault)) : ℕ := past.countP wrong

/-! ### Calls that move no counter -/

/-- The call writes no cache key outside `K`, and does not set the latch unless `K` has a lockout
counter. -/
def Writing (K : Set CacheKey) : Call → Prop
  | .cacheSet k _ _ => k ∈ K
  | .cacheDelete k => k ∈ K
  | .cacheGetAndDelete k => k ∈ K
  | .cacheSetIfNotExists k _ _ => k ∈ K
  | .cacheIncrement k _ => k ∈ K
  | .refusedAtStore _ => ∃ k ∈ K, k.lockout
  | _ => True

/-- The call checks a secret that could be right. -/
def Call.checks : Call → Bool
  | .verifyPassword _ hash => hash != .dummy
  | .checkSecondFactor _ _ _ => true
  | _ => false

/-- The cache keys that are not lockout state. -/
def otherKeys : Set CacheKey := {k | k.lockout = false}

/-- The call reads the cache at most, and checks nothing. -/
def Looking (c : Call) : Prop := Writing ∅ c ∧ c.checks = false

/-- The call touches no lockout state, and checks nothing. -/
def Innocent (c : Call) : Prop := Writing otherKeys c ∧ c.checks = false

variable {K : Set CacheKey} {c : Call}

theorem Writing.mono {K' : Set CacheKey} (hK : K ⊆ K') (h : Writing K c) : Writing K' c := by
  cases c with
  | cacheSet | cacheDelete | cacheGetAndDelete | cacheSetIfNotExists | cacheIncrement => exact hK h
  | refusedAtStore =>
    obtain ⟨k, hk, hlock⟩ := h
    exact ⟨k, hK hk, hlock⟩
  | _ => trivial

theorem writing_of_clerical (h : Clerical K c) : Writing K c := by
  cases c with
  | cacheSet k =>
    cases k with
    | oauthCode => cases h
    | _ => exact h
  | cacheSetIfNotExists k =>
    cases k with
    | challengeUsed | oauthCode => cases h
    | _ => exact h
  | cacheDelete | cacheGetAndDelete | cacheIncrement | refusedAtStore => exact h
  | _ => trivial

theorem checks_of_clerical (h : Clerical K c) : c.checks = false := by
  cases c with
  | verifyPassword | checkSecondFactor => cases h
  | _ => rfl

theorem looking_of_clerical (h : Clerical ∅ c) : Looking c :=
  ⟨writing_of_clerical h, checks_of_clerical h⟩

theorem innocent_of_clerical (hK : K ⊆ otherKeys) (h : Clerical K c) : Innocent c :=
  ⟨(writing_of_clerical h).mono hK, checks_of_clerical h⟩

theorem wrong_of_not_checks {e : Event vault} (h : e.1.checks = false) : wrong e = false := by
  obtain ⟨c, r⟩ := e
  cases c with
  | verifyPassword password hash =>
    have hd : (hash != .dummy) = false := h
    simp only [wrong, hd, Bool.false_and]
  | checkSecondFactor => cases h
  | _ => rfl

/-- An exchange that touches no lockout state leaves no mark. -/
theorem mark_of_writing {e : Event vault} (h : Writing otherKeys e.1) (u : UserID) :
    mark u e = none := by
  obtain ⟨c, r⟩ := e
  cases c with
  | cacheIncrement k =>
    cases k with
    | sourceLockout | lockoutGeneration => cases h
    | _ => rfl
  | cacheDelete k =>
    cases k with
    | sourceLockout => cases h
    | _ => rfl
  | _ => rfl

/-- What a call that writes only keys of `K` does to the rest of the cache. -/
theorem answer_writing {t : ℕ} (w : World) (h : Writing K c) :
    (∀ k ∉ K, (answer t c w).2.cache.slot k = w.cache.slot k) ∧ (answer t c w).2.clock = w.clock ∧
      (K ⊆ otherKeys → (answer t c w).2.refusedAt = w.refusedAt) := by
  have hne : ∀ {k k' : CacheKey}, k ∉ K → k' ∈ K → k ≠ k' := fun hk hk' heq => hk (heq ▸ hk')
  cases c with
  | cacheSet =>
    exact ⟨fun k hk => w.cache.slot_set_ne (hne hk h), rfl, fun _ => rfl⟩
  | cacheDelete =>
    refine ⟨fun k hk => ?_, rfl, fun _ => rfl⟩
    exact (w.cache.slot_delete).trans (if_neg (hne hk h))
  | cacheGetAndDelete =>
    exact ⟨fun k hk => w.cache.slot_getAndDelete_ne (hne hk h), rfl, fun _ => rfl⟩
  | cacheSetIfNotExists =>
    exact ⟨fun k hk => w.cache.slot_setIfNotExists_ne (hne hk h), rfl, fun _ => rfl⟩
  | cacheIncrement =>
    exact ⟨fun k hk => w.cache.slot_increment_ne (hne hk h), rfl, fun _ => rfl⟩
  | refusedAtStore =>
    obtain ⟨k, hk, hlock⟩ := h
    refine ⟨fun _ _ => rfl, rfl, fun hsub => ?_⟩
    have : k.lockout = false := hsub hk
    rw [hlock] at this
    cases this
  | updatePassword | createDevice =>
    simp only [answer]
    split <;> exact ⟨fun _ _ => rfl, rfl, fun _ => rfl⟩
  | _ => exact ⟨fun _ _ => rfl, rfl, fun _ => rfl⟩

theorem answer_looking {t : ℕ} (w : World) (h : Looking c) : (answer t c w).2.cache = w.cache := by
  cases c with
  | cacheSet k | cacheDelete k | cacheGetAndDelete k | cacheSetIfNotExists k | cacheIncrement k =>
    exact absurd h.1 (Set.notMem_empty k)
  | updatePassword =>
    simp only [answer]
    split <;> rfl
  | createDevice =>
    simp only [answer]
    split <;> rfl
  | _ => rfl

/-! ### Following a request -/

/-- A world and the conversation that led to it. -/
abbrev Story := World × List (Event vault)

/-- The interpreter the requests are followed with. -/
abbrev told (t : ℕ) : (c : Call) → Story → c.Reply × Story := recording (S := vault) (answer t)

/-- Nothing was written to the cache, and nothing checked. -/
structure Looked (s s' : Story) : Prop where
  cache : s'.1.cache = s.1.cache
  clock : s'.1.clock = s.1.clock
  refusedAt : s'.1.refusedAt = s.1.refusedAt
  marks : ∀ u, marks u s'.2 = marks u s.2
  wrongs : wrongs s'.2 = wrongs s.2

/-- **What happened to the counters of `v`**, the latest operation first: the conversation says so
and the cache shows it. No other account's counters moved, and `n` wrong secrets were checked. -/
structure Moved (v : UserID) (ops : List Op) (n : ℕ) (s s' : Story) : Prop where
  marks : marks v s'.2 = ops ++ marks v s.2
  lockout : s'.1.lockout v = ops.foldr (fun op c => c.apply op) (s.1.lockout v)
  others : ∀ u, u ≠ v → Vault42.marks u s'.2 = Vault42.marks u s.2 ∧ s'.1.lockout u = s.1.lockout u
  wrongs : wrongs s'.2 = wrongs s.2 + n
  refusedAt : s'.1.refusedAt = s.1.refusedAt

section Story

variable {t : ℕ} {s s' s'' : Story} {v : UserID} {ops ops' : List Op} {n n' : ℕ} {α : Type}

theorem Looked.refl (s : Story) : Looked s s := ⟨rfl, rfl, rfl, fun _ => rfl, rfl⟩

theorem Looked.trans (h : Looked s s') (h' : Looked s' s'') : Looked s s'' where
  cache := h'.cache.trans h.cache
  clock := h'.clock.trans h.clock
  refusedAt := h'.refusedAt.trans h.refusedAt
  marks u := (h'.marks u).trans (h.marks u)
  wrongs := h'.wrongs.trans h.wrongs

theorem Looked.lockout (h : Looked s s') (u : UserID) : s'.1.lockout u = s.1.lockout u := by
  unfold World.lockout
  rw [h.cache, h.clock]

theorem Looked.moved (h : Looked s s') (v : UserID) : Moved v [] 0 s s' where
  marks := h.marks v
  lockout := h.lockout v
  others u _ := ⟨h.marks u, h.lockout u⟩
  wrongs := h.wrongs
  refusedAt := h.refusedAt

theorem Moved.trans (h : Moved v ops n s s') (h' : Moved v ops' n' s' s'') :
    Moved v (ops' ++ ops) (n + n') s s'' where
  marks := by rw [h'.marks, h.marks, append_assoc]
  lockout := by rw [h'.lockout, h.lockout, foldr_append]
  others u hu :=
    ⟨(h'.others u hu).1.trans (h.others u hu).1, (h'.others u hu).2.trans (h.others u hu).2⟩
  wrongs := by rw [h'.wrongs, h.wrongs, Nat.add_assoc]
  refusedAt := h'.refusedAt.trans h.refusedAt

theorem Looked.before (h : Looked s s') (h' : Moved v ops n s' s'') : Moved v ops n s s'' := by
  have := (h.moved v).trans h'
  rwa [append_nil, Nat.zero_add] at this

theorem Moved.then (h : Moved v ops n s s') (h' : Moved v [] 0 s' s'') : Moved v ops n s s'' :=
  h.trans h'

variable {c : Call}

theorem looked_call (s : Story) (h : Looking c) : Looked s (told t c s).2 where
  cache := answer_looking s.1 h
  clock := (answer_writing s.1 h.1).2.1
  refusedAt := (answer_writing s.1 h.1).2.2 (Set.empty_subset _)
  marks u := filterMap_cons_none
    (mark_of_writing (h.1.mono (Set.empty_subset otherKeys)) u)
  wrongs := countP_cons_of_neg (eq_false_iff.mp (wrong_of_not_checks h.2))

/-- An exchange that touches no lockout state leaves every account as it was. -/
theorem unmarked_call (s : Story) (h : Writing otherKeys c) (u : UserID) :
    marks u (told t c s).2.2 = marks u s.2 ∧ (told t c s).2.1.lockout u = s.1.lockout u ∧
      (told t c s).2.1.refusedAt = s.1.refusedAt := by
  obtain ⟨hslot, hclock, hrefused⟩ := answer_writing s.1 h
  have hlock : ∀ k, k.lockout → (answer t c s.1).2.cache.slot k = s.1.cache.slot k :=
    fun k hk => hslot k fun hmem => by
      have : k.lockout = false := hmem
      rw [hk] at this
      cases this
  refine ⟨filterMap_cons_none (mark_of_writing h u), ?_, hrefused fun _ hk => hk⟩
  refine Counters.ext hclock (hlock _ rfl) (hlock _ rfl) ?_
  funext ip g
  exact hlock _ rfl

theorem moved_call (s : Story) (h : Innocent c) (v : UserID) :
    Moved v [] 0 s (told t c s).2 where
  marks := (unmarked_call s h.1 v).1
  lockout := (unmarked_call s h.1 v).2.1
  others u _ := ⟨(unmarked_call s h.1 u).1, (unmarked_call s h.1 u).2.1⟩
  wrongs := countP_cons_of_neg (eq_false_iff.mp (wrong_of_not_checks h.2))
  refusedAt := (unmarked_call s h.1 v).2.2

variable {p : Prog α}

theorem looked_of_within (hp : p.Within Looking) (s : Story) :
    p.Ends (told t) s fun _ s' => Looked s s' :=
  hp.ends Looked.refl Looked.trans (fun _ => looked_call) s

theorem moved_of_within (hp : p.Within Innocent) (s : Story) (v : UserID) :
    p.Ends (told t) s fun _ s' => Moved v [] 0 s s' :=
  hp.ends (fun s => (Looked.refl s).moved v) Moved.trans
    (fun _ s h => moved_call s h v) s

variable {β : Type}

/-- A program that only looks, at the head of a sequence; what it answers can be read off the
world. -/
theorem ends_looked {f : α → Prog β} {P : α → Prop} {Q : β → Story → Prop} (hp : p.Within Looking)
    (hP : p.Ends (answer t) s.1 fun a _ => P a)
    (hf : ∀ a s', Looked s s' → P a → (f a).Ends (told t) s' Q) : (p >>= f).Ends (told t) s Q := by
  have hres : p.Ends (told t) s fun a _ => P a := hP.recorded
  have hlook := looked_of_within (t := t) hp s
  exact bind (hf _ _ hlook hres)

theorem ends_ask {f : c.Reply → Prog β} {Q : β → Story → Prop} (h : Looking c)
    (hf : ∀ r s', Looked s s' → (f r).Ends (told t) s' Q) : (ask c >>= f).Ends (told t) s Q :=
  bind (hf _ _ (looked_call s h))

/-! ### The counters' own operations -/

open AuthService

theorem cachedCount_run (k : CacheKey) (w : World) :
    (cachedCount k).run (answer t) w = (some ((w.cache.slot k).count w.clock), w) := by
  have hget : (ask (.cacheGet k)).run (answer t) w = (.ok ((w.cache.slot k).read w.clock), w) := rfl
  unfold cachedCount Slot.count
  rw [run_bind, hget]
  cases (w.cache.slot k).read w.clock with
  | none => rfl
  | some => rfl

theorem cachedCount_looked {k : CacheKey} (s : Story) :
    (cachedCount k).Ends (told t) s fun r s' =>
      Looked s s' ∧ r = some ((s.1.cache.slot k).count s.1.clock) := by
  have hrun : (cachedCount k).Ends (answer t) s.1
      fun r _ => r = some ((s.1.cache.slot k).count s.1.clock) := by
    unfold Ends
    rw [cachedCount_run]
  have hlook : (cachedCount k).Ends (told t) s fun _ s' => Looked s s' :=
    looked_of_within ((cachedCount_clerical k).mono fun _ => looking_of_clerical) s
  have hres : (cachedCount k).Ends (told t) s
      fun r _ => r = some ((s.1.cache.slot k).count s.1.clock) := hrun.recorded
  exact ⟨hlook, hres⟩

theorem ends_cachedCount {w : World} {k : CacheKey} {f : Option ℕ → Prog α} {Q : α → World → Prop}
    (h : (f (some ((w.cache.slot k).count w.clock))).Ends (answer t) w Q) :
    (cachedCount k >>= f).Ends (answer t) w Q := by
  refine bind ?_
  unfold Ends
  rw [cachedCount_run]
  exact h

/-- A cache that never refused a counter answers for itself. -/
theorem lockoutCountersUnwritable_ends (w : World) :
    lockoutCountersUnwritable.Ends (answer t) w fun b w' => w' = w ∧
      (w.refusedAt = 0 → b = false) := by
  have hload : (ask .refusedAtLoad).run (answer t) w = (w.refusedAt, w) := rfl
  refine bind ?_
  unfold Ends
  rw [hload]
  dsimp only
  split
  · exact ⟨rfl, fun _ => rfl⟩
  · rename_i hne
    exact ⟨rfl, fun h => absurd h hne⟩

/-- **The gate.** A source that is let through is below the threshold; with no refusal latched the
answer is the counters'. -/
theorem isAccountLocked_ends {cfg : Settings} (hcache : cfg.hasCache) (u : UserID) (ip : IPAddr)
    (w : World) :
    (isAccountLocked cfg u ip).Ends (answer t) w fun b _ =>
      (b = false → (w.lockout u).standing ip < lockoutThreshold) ∧
        (w.refusedAt = 0 → b = (w.lockout u).locked ip) := by
  unfold isAccountLocked
  rw [hcache]
  refine bind ((lockoutCountersUnwritable_ends w).mono ?_)
  rintro unwritable w' ⟨rfl, hun⟩
  refine ends_cachedCount (ends_cachedCount ?_)
  have hstand : (w'.cache.slot (.sourceLockout u ip
      ((w'.cache.slot (.lockoutGeneration u)).count w'.clock))).count w'.clock =
      (w'.lockout u).standing ip := rfl
  dsimp only
  rw [hstand]
  split
  · -- a zero that may be a counter that was never written
    rename_i hzero
    refine ⟨fun _ => ?_, fun h => ?_⟩
    · rw [hzero.1]
      decide
    · rw [hun h] at hzero
      cases hzero.2
  split
  · rename_i hge
    refine ⟨nofun, fun _ => ?_⟩
    unfold locked
    rw [decide_eq_true hge, Bool.true_or]
    rfl
  rename_i hlt
  have hbelow : (w'.lockout u).standing ip < lockoutThreshold := not_le.mp hlt
  refine ends_cachedCount ?_
  have hacc : (w'.cache.slot (.accountLockout u)).count w'.clock =
      (w'.lockout u).account.count (w'.lockout u).clock := rfl
  dsimp only
  rw [hacc]
  split
  · rename_i hzero
    refine ⟨fun _ => hbelow, fun h => ?_⟩
    rw [hun h] at hzero
    cases hzero.2
  · refine ⟨fun _ => hbelow, fun _ => ?_⟩
    unfold locked
    rw [decide_eq_false hlt, Bool.false_or]
    rfl

/-- The story after an increment. -/
def bumped (t : ℕ) (k : CacheKey) (ttl : Duration) (s : Story) : Story :=
  (told t (.cacheIncrement k ttl) s).2

section Bumped

variable {k k' : CacheKey} {ttl : Duration}

section

variable (hroom : s.1.cache.HasRoom (n + 1))
include hroom

theorem cache_bumped :
    (bumped t k ttl s).1.cache =
      { s.1.cache with
        data := s.1.cache.data.insert k ((s.1.cache.slot k).bump s.1.clock ttl) } := by
  show (s.1.cache.increment s.1.clock k ttl).2 = _
  rw [hroom.increment]

theorem slot_bumped :
    (bumped t k ttl s).1.cache.slot k' =
      if k' = k then some ((s.1.cache.slot k).bump s.1.clock ttl) else s.1.cache.slot k' := by
  rw [cache_bumped hroom]
  exact s.1.cache.slot_insert _

theorem hasRoom_bumped : (bumped t k ttl s).1.cache.HasRoom n := by
  rw [cache_bumped hroom]
  exact hroom.insert _

theorem increment_run : (ask (.cacheIncrement k ttl)).run (told t) s =
    (.ok ((s.1.cache.slot k).bump s.1.clock ttl).value.parseInt, bumped t k ttl s) := by
  refine Prod.ext ?_ rfl
  show (s.1.cache.increment s.1.clock k ttl).1 = _
  rw [hroom.increment]
  rfl

/-- With room in the cache a counter is advanced and nothing is latched. -/
theorem advanceCounter_run :
    (advanceCounter k).run (told t) s = ((), bumped t k lockoutDuration s) := by
  unfold advanceCounter
  rw [run_bind, increment_run hroom]
  rfl

end

end Bumped

/-- The two increments of a failed attempt are one operation on the counters. -/
theorem moved_bumped (hroom : s.1.cache.HasRoom 2) (v : UserID) (ip : IPAddr) :
    Moved v [.fail ip] 0 s (bumped t (.accountLockout v) lockoutDuration
      (bumped t (.sourceLockout v ip (s.1.lockout v).gen) lockoutDuration s)) := by
  have hclock : ∀ k, (bumped t k lockoutDuration s).1.clock = s.1.clock := fun _ => rfl
  refine ⟨?_, ?_, fun u hu => ⟨?_, ?_⟩, rfl, rfl⟩
  · simp [bumped, told, recording, marks, filterMap_cons, mark]
  · refine Counters.ext rfl ?_ ?_ (funext₂ fun ip' g => ?_)
    all_goals simp [Counters.apply, slot_bumped (hasRoom_bumped hroom), slot_bumped hroom, hclock]
    split <;> simp_all
  · simp [bumped, told, recording, marks, filterMap_cons, mark, hu.symm]
  · refine Counters.ext rfl ?_ ?_ (funext₂ fun ip' g => ?_)
    all_goals simp [slot_bumped (hasRoom_bumped hroom), slot_bumped hroom, hu]

theorem recordFailedAttempt_moved {cfg : Settings} (hcache : cfg.hasCache)
    (hroom : s.1.cache.HasRoom 2) (v : UserID) (ip : IPAddr) :
    (recordFailedAttempt cfg v ip).Ends (told t) s fun _ s' => Moved v [.fail ip] 0 s s' := by
  unfold recordFailedAttempt
  rw [hcache]
  refine bind (bind ((cachedCount_looked s).mono ?_))
  rintro _ s' ⟨hlook, rfl⟩
  have hroom' : s'.1.cache.HasRoom 2 := hlook.cache ▸ hroom
  have hgen : (s.1.cache.slot (.lockoutGeneration v)).count s.1.clock = (s'.1.lockout v).gen := by
    rw [hlook.lockout]
    rfl
  unfold Ends
  dsimp only
  rw [hgen, advanceCounter_run hroom', advanceCounter_run (hasRoom_bumped hroom')]
  exact hlook.before (moved_bumped hroom' v ip)

/-- **A source's counter is dropped.** -/
theorem clearLockout_moved {cfg : Settings} (hcache : cfg.hasCache) (v : UserID) (ip : IPAddr)
    (s : Story) :
    (clearLockout cfg v ip).Ends (told t) s fun _ s' => Moved v [.clear ip] 0 s s' := by
  unfold clearLockout
  rw [hcache]
  refine bind ((cachedCount_looked s).mono ?_)
  rintro _ s' ⟨hlook, rfl⟩
  have hgen : (s.1.cache.slot (.lockoutGeneration v)).count s.1.clock = (s'.1.lockout v).gen := by
    rw [hlook.lockout]
    rfl
  rw [hgen]
  refine hlook.before ?_
  show Moved v [.clear ip] 0 s'
    (told t (.cacheDelete (.sourceLockout v ip (s'.1.lockout v).gen)) s').2
  have hslot : ∀ k,
      (told t (.cacheDelete (.sourceLockout v ip (s'.1.lockout v).gen)) s').2.1.cache.slot
      k = if k = .sourceLockout v ip (s'.1.lockout v).gen then none else s'.1.cache.slot k :=
    fun k => s'.1.cache.slot_delete
  refine ⟨?_, ?_, fun u hu => ⟨?_, ?_⟩, rfl, rfl⟩
  · simp [told, recording, marks, mark]
  · refine Counters.ext rfl ?_ ?_ (funext₂ fun ip' g => ?_)
    all_goals simp [Counters.apply, hslot]
  · simp [told, recording, marks, mark, hu.symm]
  · refine Counters.ext rfl ?_ ?_ (funext₂ fun ip' g => ?_)
    all_goals simp [hslot, hu]

/-- **`ClearAccountLockout`**: with room for one more key it goes through. -/
theorem clearAccountLockout_moved {cfg : Settings} (hcache : cfg.hasCache)
    (hroom : s.1.cache.HasRoom 1) (v : UserID) :
    (clearAccountLockout cfg v).Ends (told t) s fun r s' =>
      Moved v [.retire] 0 s s' ∧ r = .ok () := by
  -- the story after the delete
  obtain ⟨s₁, hs₁⟩ : ∃ s₁, (told t (.cacheDelete (.accountLockout v)) s).2 = s₁ := ⟨_, rfl⟩
  have hdel : (ask (.cacheDelete (.accountLockout v))).run (told t) s = (.ok (), s₁) :=
    Prod.ext rfl hs₁
  have hroom₁ : s₁.1.cache.HasRoom 1 := hs₁ ▸ hroom.delete _
  have hslot₁ : ∀ k, s₁.1.cache.slot k = if k = .accountLockout v then none else s.1.cache.slot k :=
    fun k => hs₁ ▸ s.1.cache.slot_delete
  have hclock : s₁.1.clock = s.1.clock := hs₁ ▸ rfl
  have hrun : (clearAccountLockout cfg v).run (told t) s =
      (.ok (), bumped t (.lockoutGeneration v) lockoutGenerationTTL s₁) := by
    unfold clearAccountLockout
    rw [hcache]
    show ((ask (.cacheDelete (.accountLockout v))) >>= _).run (told t) s = _
    rw [run_bind, hdel]
    show ((ask (.cacheIncrement (.lockoutGeneration v) lockoutGenerationTTL)) >>= _).run
      (told t) s₁ = _
    rw [run_bind, increment_run hroom₁]
    rfl
  unfold Ends
  rw [hrun]
  refine ⟨?_, rfl⟩
  refine ⟨?_, ?_, fun u hu => ⟨?_, ?_⟩, ?_, ?_⟩
  · simp [← hs₁, bumped, told, recording, marks, filterMap_cons, mark]
  · refine Counters.ext ?_ ?_ ?_ (funext₂ fun ip g => ?_)
    · exact hclock
    all_goals simp [Counters.apply, slot_bumped hroom₁, hslot₁, hclock]
  · simp [← hs₁, bumped, told, recording, marks, filterMap_cons, mark, hu.symm]
  · refine Counters.ext ?_ ?_ ?_ (funext₂ fun ip g => ?_)
    · exact hclock
    all_goals simp [slot_bumped hroom₁, hslot₁, hu]
  · rw [← hs₁]
    rfl
  · rw [← hs₁]
    rfl

/-! ### The tail of a login touches no counter -/

theorem within_innocent (hp : p.Within (Clerical K))
    (hK : ∀ k ∈ K, k.lockout = false) : p.Within Innocent :=
  hp.mono fun _ => innocent_of_clerical hK

theorem within_innocent_of_empty (hp : p.Within (Clerical ∅)) : p.Within Innocent :=
  within_innocent hp fun k hk => absurd hk (Set.notMem_empty k)

theorem innocent_perform (hw : Writing otherKeys c) (hc : c.checks = false) :
    (ask c).Within Innocent := .call ⟨hw, hc⟩

theorem auditLog_innocent {kind : AuditKind} {u : UserID} {reason : String} :
    (auditLog kind u reason).Within Innocent := innocent_perform trivial rfl

theorem issueChallengeToken_innocent {jkt : String} {u : UserID} {fp : Fingerprint}
    {factors : List String} :
    (TokenService.issueChallengeToken jkt u fp factors).Within Innocent := by
  refine .bind (innocent_perform trivial rfl) fun now => ?_
  refine .bind (innocent_perform trivial rfl) fun jti => ?_
  exact .bind (innocent_perform trivial rfl) fun _ => trivial

theorem opens_innocent {u : UserID} : Opens Innocent u where
  clerical := innocent_of_clerical (Set.empty_subset _)
  capping _ _ := ⟨trivial, rfl⟩
  create _ _ := ⟨trivial, rfl⟩
  insert _ _ := ⟨trivial, rfl⟩

/-! ### A login -/

/-- What one attempt from a source may do: nothing; count a failure, of a secret that was checked
only if the source was below the threshold; or drop the source's counter. -/
inductive Outcome (c : Counters) (ip : IPAddr) : List Op → ℕ → Prop
  | nothing : Outcome c ip [] 0
  | failed : Outcome c ip [.fail ip] 0
  | refused (hgate : c.standing ip < lockoutThreshold) : Outcome c ip [.fail ip] 1
  | cleared : Outcome c ip [.clear ip] 0

/-- An attempt on account `v` from `ip`. -/
def Attempted (v : UserID) (ip : IPAddr) (s s' : Story) : Prop :=
  ∃ ops n, Moved v ops n s s' ∧ Outcome (s.1.lockout v) ip ops n

/-- Served from `s`, the program is an attempt on `v` from `ip`. -/
abbrev Attempts (t : ℕ) (s : Story) (v : UserID) (ip : IPAddr) (p : Prog α) : Prop :=
  p.Ends (told t) s fun _ => Attempted v ip s

variable {ip : IPAddr} {cfg : Settings}

theorem Moved.attempted (h : Moved v [] 0 s s') : Attempted v ip s s' := ⟨_, _, h, .nothing⟩

theorem Looked.attempted (h : Looked s s') (h' : Attempted v ip s' s'') : Attempted v ip s s'' := by
  obtain ⟨ops, n, hmoved, hout⟩ := h'
  rw [h.lockout] at hout
  exact ⟨ops, n, h.before hmoved, hout⟩

/-- A program that only looks, at the head of an attempt. -/
theorem attempted_of_looking {f : α → Prog β} (hp : p.Within (Clerical ∅))
    (hf : ∀ a s', Looked s s' → Attempts t s' v ip (f a)) : Attempts t s v ip (p >>= f) := by
  refine bind ((looked_of_within (hp.mono fun _ => looking_of_clerical) s).mono ?_)
  exact fun a s' hlook => (hf a s' hlook).mono fun _ _ => hlook.attempted

theorem attempted_of_gate (hcache : cfg.hasCache) {u : UserID} {ip' : IPAddr} {f : Bool → Prog β}
    (hf : ∀ b s', Looked s s' → (b = false → (s'.1.lockout u).standing ip' < lockoutThreshold) →
      Attempts t s' v ip (f b)) : Attempts t s v ip (isAccountLocked cfg u ip' >>= f) := by
  refine ends_looked ((isAccountLocked_clerical cfg u ip').mono fun _ => looking_of_clerical)
    (isAccountLocked_ends hcache u ip' s.1) fun b s' hlook hgate => ?_
  rw [← hlook.lockout] at hgate
  exact (hf b s' hlook hgate.1).mono fun _ _ => hlook.attempted

theorem attempted_of_innocent (hp : p.Within Innocent) : Attempts t s v ip p :=
  (moved_of_within hp s v).mono fun _ _ h => h.attempted

/-- A check that found nothing wrong changes only the conversation. -/
theorem looked_of_not_wrong (hworld : (answer t c s.1).2 = s.1)
    (hmark : ∀ u, mark u ⟨c, (answer t c s.1).1⟩ = none)
    (hw : wrong ⟨c, (answer t c s.1).1⟩ = false) : Looked s (told t c s).2 where
  cache := congrArg World.cache hworld
  clock := congrArg World.clock hworld
  refusedAt := congrArg World.refusedAt hworld
  marks u := filterMap_cons_none (hmark u)
  wrongs := countP_cons_of_neg (eq_false_iff.mp hw)

theorem moved_of_wrong (hworld : (answer t c s.1).2 = s.1)
    (hmark : ∀ u, mark u ⟨c, (answer t c s.1).1⟩ = none) (hw : wrong ⟨c, (answer t c s.1).1⟩)
    (v : UserID) : Moved v [] 1 s (told t c s).2 where
  marks := filterMap_cons_none (hmark v)
  lockout := congrArg (World.lockout · v) hworld
  others u _ := ⟨filterMap_cons_none (hmark u), congrArg (World.lockout · u) hworld⟩
  wrongs := countP_cons_of_pos hw
  refusedAt := congrArg World.refusedAt hworld

theorem wrong_overloaded (password : String) (hash : PasswordHash) :
    wrong ⟨.verifyPassword password hash, VerifyOutcome.overloaded⟩ = false := and_false _

theorem wrong_verified (password : String) (hash : PasswordHash) :
    wrong ⟨.verifyPassword password hash, VerifyOutcome.verified true⟩ = false := and_false _

variable {k : Prog (Except AuthError β)}

theorem ends_burnDummy (password : String) {Q : Except AuthError β → Story → Prop}
    (hk : ∀ s', Looked s s' → k.Ends (told t) s' Q) : (burnDummy password k).Ends (told t) s Q :=
  hk (told t (.verifyPassword password .dummy) s).2 (looked_call s ⟨trivial, rfl⟩)

/-- The masked branches of a login: the dummy hash, then bookkeeping. -/
theorem burnDummy_attempted {password : String}
    (hk : ∀ s', Looked s s' → Attempts t s' v ip k) : Attempts t s v ip (burnDummy password k) :=
  ends_burnDummy password fun s' hlook => (hk s' hlook).mono fun _ _ => hlook.attempted

/-- What happened to the counters of one account, whoever was named. -/
structure Felt (u : UserID) (ops : List Op) (n : ℕ) (s s' : Story) : Prop where
  marks : marks u s'.2 = ops ++ marks u s.2
  lockout : s'.1.lockout u = ops.foldr (fun op c => c.apply op) (s.1.lockout u)
  wrongs : wrongs s'.2 = wrongs s.2 + n
  refusedAt : s'.1.refusedAt = s.1.refusedAt

theorem Moved.felt (h : Moved v ops n s s') : Felt v ops n s s' :=
  ⟨h.marks, h.lockout, h.wrongs, h.refusedAt⟩

theorem Moved.felt_ne (h : Moved v ops n s s') {u : UserID} (hu : u ≠ v) : Felt u [] n s s' :=
  ⟨(h.others u hu).1, (h.others u hu).2, h.wrongs, h.refusedAt⟩

/-- **What a request does to account `u`**: what an attempt from `ip` may do if it is one on that
account, and nothing otherwise. -/
def Touches (u : UserID) (ip : IPAddr) (named : Prop) (s s' : Story) : Prop :=
  ∃ ops n, Felt u ops n s s' ∧ (named → Outcome (s.1.lockout u) ip ops n) ∧ (¬ named → ops = [])

variable {u : UserID} {named : Prop}

theorem Moved.touches (h : Moved u [] 0 s s') : Touches u ip named s s' :=
  ⟨[], 0, h.felt, fun _ => .nothing, fun _ => rfl⟩

theorem Looked.touches (h : Looked s s') (h' : Touches u ip named s' s'') :
    Touches u ip named s s'' := by
  obtain ⟨ops, n, hfelt, hin, hout⟩ := h'
  refine ⟨ops, n, ⟨?_, ?_, ?_, hfelt.refusedAt.trans h.refusedAt⟩, ?_, hout⟩
  · rw [hfelt.marks, h.marks]
  · rw [hfelt.lockout, h.lockout]
  · rw [hfelt.wrongs, h.wrongs]
  · rw [← h.lockout]
    exact hin

theorem Touches.then (h : Touches u ip named s s') (h' : Moved u [] 0 s' s'') :
    Touches u ip named s s'' := by
  obtain ⟨ops, n, hfelt, hin, hout⟩ := h
  refine ⟨ops, n, ⟨?_, ?_, ?_, h'.refusedAt.trans hfelt.refusedAt⟩, hin, hout⟩
  · rw [h'.marks, hfelt.marks]
    rfl
  · rw [h'.lockout, hfelt.lockout]
    rfl
  · rw [h'.wrongs, hfelt.wrongs]
    rfl

theorem Attempted.touches (h : Attempted v ip s s') (hnamed : named ↔ v = u) :
    Touches u ip named s s' := by
  obtain ⟨ops, n, hmoved, hout⟩ := h
  by_cases hv : v = u
  · subst hv
    exact ⟨ops, n, hmoved.felt, fun _ => hout, fun h => absurd (hnamed.mpr rfl) h⟩
  · refine ⟨[], n, hmoved.felt_ne fun h => hv h.symm, fun h => absurd (hnamed.mp h) hv,
      fun _ => rfl⟩

/-- The account an address leads to. -/
def names (cfg : Settings) (w : World) (input : LoginInput) (u : UserID) : Bool :=
  (w.userByEmail (cfg.fold input.email)).any fun user => user.id == u

/-- The delay and the address gate change nothing at all. -/
theorem throttleLogin_ends (email : String) (w : World) :
    (throttleLogin cfg email).Ends (answer t) w fun _ w' => w' = w := by
  unfold throttleLogin
  split
  · rfl
  refine ends_cachedCount ?_
  dsimp only
  split
  · rfl
  · rfl

theorem isIPLocked_ends (w : World) :
    (isIPLocked cfg ip).Ends (answer t) w fun _ w' => w' = w := by
  unfold isIPLocked
  split
  · rfl
  split
  · split
    · rfl
    · rfl
  · have hget : (ask (.cacheGet (.ipLockout ip))).run (answer t) w =
        (.ok ((w.cache.slot (.ipLockout ip)).read w.clock), w) := rfl
    refine bind ?_
    unfold Ends
    rw [hget]
    cases (w.cache.slot (.ipLockout ip)).read w.clock with
    | none => rfl
    | some => rfl

section Cached

variable (hcache : cfg.hasCache) (hroom : s.1.cache.HasRoom 2)
  (htrap : ∀ email, cfg.isTrapUser email → cfg.trapSubject email ≠ u)
include hcache

theorem completeLogin_attempted (input : LoginInput) (email : String) (user : User) :
    Attempts t s user.id input.ip (completeLogin cfg input email user) := by
  refine bind ((clearLockout_moved hcache user.id input.ip s).mono fun _ s₁ h₁ => ?_)
  refine (moved_of_within ?_ s₁ user.id).mono fun _ s₂ h₂ => ⟨_, _, h₁.then h₂, .cleared⟩
  refine .bind (within_innocent (clearIdentityFailures_clerical _) ?_) fun _ => ?_
  · rintro k rfl
    rfl
  refine .bind (within_innocent_of_empty checkSessionLimit_clerical) fun r => ?_
  rcases r with e | _
  · exact trivial
  refine .bind (within_innocent_of_empty findOrCreateDevice_clerical) fun deviceID => ?_
  exact startSession_within opens_innocent _ _ _ _ _ _

/-- Once the password is proven, the counter is dropped or left alone: left alone whenever a second
factor is owed. -/
theorem passwordProven_attempted (input : LoginInput) (email : String) (user : User) :
    Attempts t s user.id input.ip (passwordProven cfg input email user) := by
  refine attempted_of_looking (.call trivial) fun _ s₁ _ => ?_
  split
  · refine attempted_of_looking (.call trivial) fun methods s₂ _ => ?_
    rcases methods with e | methods
    · exact (Looked.refl s₂).moved _ |>.attempted
    dsimp only
    split
    · refine attempted_of_innocent (.bind issueChallengeToken_innocent fun _ => ?_)
      exact .bind auditLog_innocent fun _ => trivial
    split
    · refine attempted_of_innocent (.bind (innocent_perform trivial rfl) fun _ => ?_)
      refine .bind issueChallengeToken_innocent fun _ => ?_
      exact .bind auditLog_innocent fun _ => trivial
    · exact completeLogin_attempted hcache input email user
  · exact completeLogin_attempted hcache input email user

/-- A trap address is answered without a check; it drops a counter of its own subject only. -/
theorem trapLogin_touches (input : LoginInput) (email : String)
    (htrap : cfg.trapSubject email ≠ u) :
    (trapLogin cfg input email).Ends (told t) s fun _ s' => Touches u ip named s s' := by
  refine ends_burnDummy _ fun s₁ h₁ => ?_
  refine ends_ask ⟨trivial, rfl⟩ fun _ s₂ h₂ => ends_ask ⟨trivial, rfl⟩ fun _ s₃ h₃ => ?_
  refine bind ((clearLockout_moved hcache (cfg.trapSubject email) input.ip s₃).mono
    fun _ s₄ h₄ => ?_)
  refine (moved_of_within ?_ s₄ (cfg.trapSubject email)).mono fun _ s₅ h₅ => ?_
  · refine .bind (within_innocent (clearIdentityFailures_clerical _) ?_) fun _ => ?_
    · rintro k rfl
      rfl
    refine .bind (within_innocent_of_empty trapMethods_clerical) fun methods => ?_
    refine .ite ?_ ?_
    · refine .bind issueChallengeToken_innocent fun _ => ?_
      exact .bind auditLog_innocent fun _ => trivial
    · refine .bind (within_innocent_of_empty checkSessionLimit_clerical) fun r => ?_
      rcases r with e | _
      · exact trivial
      refine .bind (innocent_perform trivial rfl) fun _ =>
        .bind (innocent_perform trivial rfl) fun _ => ?_
      exact .bind auditLog_innocent fun _ => trivial
  · have hmoved := ((h₁.trans h₂).trans h₃).before (h₄.then h₅)
    exact ⟨[], 0, hmoved.felt_ne htrap.symm, fun _ => .nothing, fun _ => rfl⟩

section Room

include hroom

theorem recordLoginFailure_moved (user : User) (ip : IPAddr) (reason : String) :
    (recordLoginFailure cfg user ip reason).Ends (told t) s
      fun _ s' => Moved user.id [.fail ip] 0 s s' := by
  refine ends_ask ⟨trivial, rfl⟩ fun _ s₁ h₁ => ?_
  have hroom₁ : s₁.1.cache.HasRoom 2 := h₁.cache ▸ hroom
  refine bind ((recordFailedAttempt_moved hcache hroom₁ user.id ip).mono fun _ s₂ h₂ => ?_)
  -- what follows touches the address counter and the notice only
  refine (moved_of_within ?_ s₂ user.id).mono fun _ s₃ h₃ => (h₁.before h₂).then h₃
  refine .bind (within_innocent (recordFailedIP_clerical _) ?_) fun _ => ?_
  · rintro k rfl
    rfl
  refine .bind auditLog_innocent fun _ => ?_
  refine .bind (within_innocent_of_empty (isAccountLocked_clerical _ _ _)) fun locked => ?_
  refine .ite (.ite ?_ trivial) trivial
  refine .bind (innocent_perform rfl rfl) fun r => ?_
  rcases r with _ | _ | _
  · exact trivial
  · exact trivial
  · exact innocent_perform trivial rfl

/-- A failure that is counted and answered with an error. -/
theorem attempted_of_failure (user : User) (reason : String) (b : β) :
    Attempts t s user.id ip
      (recordLoginFailure cfg user ip reason >>= fun _ => (pure b : Prog β)) :=
  bind ((recordLoginFailure_moved hcache hroom user ip reason).mono
    fun _ _ h => ⟨_, _, h, .failed⟩)

/-- **The password check.** A wrong password is checked only below the threshold, and is counted. -/
theorem checkPassword_attempted (input : LoginInput) (email : String) (user : User)
    (hgate : (s.1.lockout user.id).standing input.ip < lockoutThreshold) :
    Attempts t s user.id input.ip (checkPassword cfg input email user) := by
  obtain ⟨s₁, hs₁⟩ : ∃ s₁, (told t (.verifyPassword input.password user.passwordHash) s).2 = s₁ :=
    ⟨_, rfl⟩
  have hroom₁ : s₁.1.cache.HasRoom 2 := by
    subst hs₁
    exact hroom
  have hask : (ask (.verifyPassword input.password user.passwordHash)).run (told t) s =
      (verifyPassword input.password user.passwordHash, s₁) := Prod.ext rfl hs₁
  have clean : wrong ⟨.verifyPassword input.password user.passwordHash,
      verifyPassword input.password user.passwordHash⟩ = false → Looked s s₁ :=
    fun hw => hs₁ ▸ looked_of_not_wrong rfl (fun _ => rfl) hw
  have refused : (recordLoginFailure cfg user input.ip "wrong_password" >>= fun _ =>
      (pure (.error .invalidCredentials) : Prog (Except AuthError LoginResult))).Ends (told t) s₁
        fun _ s' => Attempted user.id input.ip s s' := by
    by_cases hw : wrong ⟨.verifyPassword input.password user.passwordHash,
        verifyPassword input.password user.passwordHash⟩
    · -- a real hash: one wrong password, below the threshold
      have h₁ : Moved user.id [] 1 s s₁ := hs₁ ▸ moved_of_wrong rfl (fun _ => rfl) hw user.id
      refine bind ((recordLoginFailure_moved hcache hroom₁ user input.ip _).mono ?_)
      exact fun _ s₂ h₂ => ⟨_, _, h₁.trans h₂, .refused hgate⟩
    · have hlook := clean (eq_false_iff.mpr hw)
      exact (attempted_of_failure hcache hroom₁ user _ _).mono fun _ _ => hlook.attempted
  refine bind ?_
  unfold Ends
  rw [hask]
  cases hr : verifyPassword input.password user.passwordHash with
  | overloaded =>
    have hlook := clean (by rw [hr]; exact wrong_overloaded _ _)
    exact (hlook.moved _).attempted
  | malformed => exact refused
  | verified valid =>
    cases valid with
    | false => exact refused
    | true =>
      have hlook := clean (by rw [hr]; exact wrong_verified _ _)
      have told_off : ∀ reason e, (auditLog .loginFailure user.id reason >>= fun _ =>
          (pure (.error e) : Prog (Except AuthError LoginResult))).Ends (told t) s₁
            fun _ s' => Attempted user.id input.ip s s' := by
        intro reason e
        refine mono (attempted_of_innocent ?_) fun _ _ => hlook.attempted
        exact .bind auditLog_innocent fun _ => trivial
      dsimp only
      split
      · exact told_off _ _
      split
      · exact told_off _ _
      split
      · exact (attempted_of_failure hcache hroom₁ user _ _).mono fun _ _ => hlook.attempted
      · exact (passwordProven_attempted hcache input email user).mono fun _ _ => hlook.attempted

/-- **A login on an account**, past the lookup. -/
theorem loginUser_attempted (input : LoginInput) (email : String) (user : User) :
    Attempts t s user.id input.ip (loginUser cfg input email user) := by
  have masked : ∀ {s : Story} reason,
      Attempts t s user.id input.ip (burnDummy input.password (do
        recordFailedIP cfg input.ip
        auditLog .loginFailure user.id reason
        pure (.error .invalidCredentials) : Prog (Except AuthError LoginResult))) := by
    refine fun reason => burnDummy_attempted fun s' _ => attempted_of_innocent ?_
    refine .bind (within_innocent (recordFailedIP_clerical _) ?_) fun _ => ?_
    · rintro k rfl
      rfl
    · exact .bind auditLog_innocent fun _ => trivial
  -- the two branches that mail a link and count a failure
  have linked : ∀ {s : Story}, s.1.cache.HasRoom 2 → ∀ link reason e,
      Attempts t s user.id input.ip (burnDummy input.password (do
        sendResetLink cfg link
        recordLoginFailure cfg user input.ip reason
        pure (.error e) : Prog (Except AuthError LoginResult))) := by
    intro s hroom link reason e
    refine burnDummy_attempted fun s₁ h₁ => ?_
    refine attempted_of_looking (sendResetLink_clerical _ _) fun _ s₂ h₂ => ?_
    exact attempted_of_failure hcache (h₂.cache ▸ h₁.cache ▸ hroom) user _ _
  refine attempted_of_looking (.call trivial) fun now s₁ h₁ => ?_
  split
  · exact masked _
  refine attempted_of_gate hcache fun locked s₂ h₂ hgate => ?_
  have hroom₂ : s₂.1.cache.HasRoom 2 := h₂.cache ▸ h₁.cache ▸ hroom
  split
  · exact masked _
  rename_i hlocked
  split
  · refine burnDummy_attempted fun s' _ => attempted_of_innocent ?_
    exact .bind auditLog_innocent fun _ => trivial
  split
  · exact linked hroom₂ _ _ _
  split
  · exact linked hroom₂ _ _ _
  · exact checkPassword_attempted hcache hroom₂ input email user (hgate (eq_false_iff.mpr hlocked))

include htrap

theorem loginFound_touches (input : LoginInput) (email : String) (found : Option User) :
    (loginFound cfg input email found).Ends (told t) s fun _ s' =>
      Touches u input.ip ((found.any fun user => user.id == u)) s s' := by
  unfold loginFound
  split
  · rename_i h
    exact trapLogin_touches hcache input email (htrap email h)
  cases found with
  | none =>
    refine ends_burnDummy _ fun s₁ h₁ => ?_
    refine (moved_of_within ?_ s₁ u).mono fun _ s₂ h₂ => (h₁.before h₂).touches
    refine .bind (within_innocent (recordFailedIP_clerical _) ?_) fun _ => ?_
    · rintro k rfl
      rfl
    · exact .bind auditLog_innocent fun _ => trivial
  | some user =>
    refine (loginUser_attempted hcache hroom input email user).mono fun _ s' h => h.touches ?_
    simp

/-- **A login.** It does to the account its address leads to what an attempt may do, and nothing to
any other. -/
theorem login_touches (input : LoginInput) :
    (login cfg input).Ends (told t) s fun _ s' =>
      Touches u input.ip (names cfg s.1 input u) s s' := by
  have body : (loginBody cfg input (cfg.fold input.email)).Ends (told t) s fun _ s' =>
      Touches u input.ip (names cfg s.1 input u) s s' := by
    have hthrottle : (throttleLogin cfg (cfg.fold input.email)).Ends (told t) s
        fun _ s' => Looked s s' ∧ s'.1 = s.1 :=
      ⟨looked_of_within ((throttleLogin_clerical _).mono fun _ => looking_of_clerical) s,
        (throttleLogin_ends _ s.1).recorded⟩
    refine bind (hthrottle.mono fun _ s₁ h₁ => ?_)
    have hgate : (isIPLocked cfg input.ip).Ends (told t) s₁ fun _ s' =>
        Looked s₁ s' ∧ s'.1 = s₁.1 :=
      ⟨looked_of_within ((isIPLocked_clerical _).mono fun _ => looking_of_clerical) s₁,
        (isIPLocked_ends s₁.1).recorded⟩
    refine bind (hgate.mono fun locked s₂ h₂ => ?_)
    have hlook := h₁.1.trans h₂.1
    split
    · refine (moved_of_within ?_ s₂ u).mono fun _ s₃ h₃ => (hlook.before h₃).touches
      exact .bind auditLog_innocent fun _ => trivial
    · have hworld : s₂.1 = s.1 := h₂.2.trans h₁.2
      have hlookup : Looked s₂ (told t (.getByEmail (cfg.fold input.email)) s₂).2 :=
        looked_call s₂ ⟨trivial, rfl⟩
      have hroom₃ : (told t (.getByEmail (cfg.fold input.email)) s₂).2.1.cache.HasRoom 2 := by
        rw [hlookup.cache, hworld]
        exact hroom
      have hfound := loginFound_touches (t := t) hcache hroom₃ htrap input (cfg.fold input.email)
        (s₂.1.userByEmail (cfg.fold input.email))
      have hnames : ((s₂.1.userByEmail (cfg.fold input.email)).any fun user => user.id == u) =
          names cfg s.1 input u := by
        rw [hworld]
        rfl
      rw [hnames] at hfound
      exact bind (hfound.mono fun _ _ h => (hlook.trans hlookup).touches h)
  have hid : ((recordIdentityFailure cfg (cfg.fold input.email))).Within Innocent := by
    refine within_innocent (recordIdentityFailure_clerical _) ?_
    rintro k rfl
    rfl
  refine bind (body.mono fun r s' h => ?_)
  split
  · exact h
  · exact h
  · refine (moved_of_within (.bind hid fun _ => ?_) s' u).mono fun _ _ h' => h.then h'
    exact trivial

end Room

/-! ### A second factor -/

/-- A program of the service, over the factor stores or as it is: the status of an account may be
looked up in any innocent way, and every other call is made. -/
structure Settles (g : (c : Call) → Prog c.Reply) : Prop where
  same : ∀ {c}, (∀ u, c ≠ .mfaStatus u) → g c = ask c
  status : ∀ u, (g (.mfaStatus u)).Within Innocent

omit hcache in
theorem settles_ask : Settles ask := ⟨fun _ => rfl, fun _ => innocent_perform trivial rfl⟩

section Settles

variable {g : (c : Call) → Prog c.Reply} (hg : Settles g)
include hg

omit hcache in
theorem Settles.innocent (hp : p.Within Innocent) : (p.elaborate g).Within Innocent := by
  refine hp.elaborate fun c hc => ?_
  by_cases h : ∃ u, c = .mfaStatus u
  · obtain ⟨u, rfl⟩ := h
    exact hg.status u
  · rw [hg.same fun u hu => h ⟨u, hu⟩]
    exact .call hc

omit hcache in
/-- Dropping a counter asks for no status. -/
theorem Settles.clearLockout (u : UserID) (ip : IPAddr) :
    (AuthService.clearLockout cfg u ip).elaborate g = AuthService.clearLockout cfg u ip := by
  have hget : ∀ k, g (.cacheGet k) = ask (.cacheGet k) := fun k => hg.same (by rintro u ⟨⟩)
  have hdelete : ∀ k, g (.cacheDelete k) = ask (.cacheDelete k) := fun k => hg.same (by rintro u ⟨⟩)
  have hcount : ∀ k, (cachedCount k).elaborate g = cachedCount k := by
    intro k
    unfold cachedCount
    rw [elaborate_bind, elaborate_call, hget]
    refine congrArg (ask (.cacheGet k) >>= ·) (funext fun r => ?_)
    rcases r with _ | _ | _ <;> rfl
  unfold AuthService.clearLockout lockoutGeneration
  split
  · rfl
  · rw [elaborate_bind, hcount]
    refine congrArg (cachedCount (.lockoutGeneration u) >>= ·) (funext fun generation => ?_)
    cases generation with
    | none => rfl
    | some generation =>
      show ((ask _ >>= fun _ => pure ()).elaborate g : Prog Unit) = _
      rw [elaborate_bind, elaborate_call, hdelete]
      rfl

theorem finishMFALogin_attempted (input : SecondFactorInput) (fp : Fingerprint) :
    ((finishMFALogin cfg input fp).elaborate g).Ends (told t) s fun _ s' =>
      Moved input.token.subject [.clear input.fingerprint.ip] 0 s s' := by
  unfold finishMFALogin
  rw [elaborate_bind, hg.clearLockout]
  refine bind ((clearLockout_moved hcache _ _ s).mono fun _ s₁ h₁ => ?_)
  refine (moved_of_within (hg.innocent ?_) s₁ input.token.subject).mono fun _ _ => h₁.then
  refine .bind (within_innocent_of_empty checkSessionLimit_clerical) fun r => ?_
  rcases r with e | _
  · exact trivial
  refine .bind (within_innocent_of_empty findOrCreateDevice_clerical) fun deviceID => ?_
  refine .bind (innocent_perform trivial rfl) fun r => ?_
  rcases r with _ | _ | user
  · exact trivial
  · exact trivial
  refine .bind (innocent_perform trivial rfl) fun now => ?_
  split
  · exact trivial
  · exact startSession_within opens_innocent _ _ _ _ _ _

theorem completeMFALogin_attempted (input : SecondFactorInput) (fp : Fingerprint) :
    Attempts t s input.token.subject input.fingerprint.ip
      ((completeMFALogin cfg input fp).elaborate g) := by
  unfold completeMFALogin
  rw [hcache, if_pos rfl, elaborate_bind, elaborate_call, hg.same (by rintro u ⟨⟩)]
  have hset : (ask (.cacheSetIfNotExists (.challengeUsed input.token.jti) (.count 1)
      challengeTTL)).Ends (told t) s fun _ s' => Moved input.token.subject [] 0 s s' :=
    moved_call (c := .cacheSetIfNotExists (.challengeUsed input.token.jti) (.count 1) challengeTTL)
      s ⟨rfl, rfl⟩ _
  refine bind (hset.mono fun r s₁ h₁ => ?_)
  rcases r with e | fresh
  · exact h₁.attempted
  cases fresh with
  | false => exact h₁.attempted
  | true =>
    refine (finishMFALogin_attempted hcache hg input fp).mono fun _ s₂ h₂ => ?_
    exact ⟨_, _, h₁.trans h₂, .cleared⟩

/-- What a proven factor is completed with drops the source's counter or leaves it alone. -/
theorem completeMFAIfChallenge_attempted (input : SecondFactorInput) :
    Attempts t s input.token.subject input.fingerprint.ip
      ((completeMFAIfChallenge cfg input).elaborate g) := by
  unfold completeMFAIfChallenge
  split
  · exact completeMFALogin_attempted hcache hg input _
  · refine attempted_of_innocent (hg.innocent (.bind auditLog_innocent fun _ => ?_))
    exact trivial

end Settles

include hroom in
/-- **A second-factor attempt**, on the account its challenge was issued for. -/
theorem verifySecondFactor_attempted (input : SecondFactorInput) :
    Attempts t s input.token.subject input.fingerprint.ip (verifySecondFactor cfg input) := by
  refine ends_ask ⟨trivial, rfl⟩ fun valid s₁ h₁ => mono ?_ fun _ _ => h₁.attempted
  split
  swap
  · exact ((Looked.refl s₁).moved _).attempted
  refine attempted_of_gate hcache fun locked s₂ h₂ hgate => ?_
  split
  · exact ((Looked.refl s₂).moved _).attempted
  rename_i hlocked
  have hroom₂ : s₂.1.cache.HasRoom 2 := h₂.cache ▸ h₁.cache ▸ hroom
  obtain ⟨s₃, hs₃⟩ : ∃ s₃, (told t (.checkSecondFactor input.token.subject input.method input.code)
    s₂).2 = s₃ := ⟨_, rfl⟩
  have hask :
      (ask (.checkSecondFactor input.token.subject input.method input.code)).run (told t) s₂ =
      (s₂.1.rightCode input.token.subject input.method input.code, s₃) := Prod.ext rfl hs₃
  refine bind ?_
  unfold Ends
  rw [hask]
  by_cases hright : s₂.1.rightCode input.token.subject input.method input.code
  · have h₃ : Looked s₂ s₃ := by
      refine hs₃ ▸ looked_of_not_wrong rfl (fun _ => rfl) ?_
      show (!s₂.1.rightCode input.token.subject input.method input.code) = false
      rw [hright]
      rfl
    dsimp only
    rw [if_pos hright]
    refine mono (Q := fun _ => Attempted input.token.subject input.fingerprint.ip s₃) ?_
      fun _ _ => h₃.attempted
    have hcomplete := completeMFAIfChallenge_attempted (t := t) (s := s₃) hcache settles_ask input
    rwa [elaborate_perform] at hcomplete
  · -- a wrong code: the gate was open, and the failure is counted
    have h₃ : Moved input.token.subject [] 1 s₂ s₃ := by
      refine hs₃ ▸ moved_of_wrong rfl (fun _ => rfl) ?_ _
      show (!s₂.1.rightCode input.token.subject input.method input.code)
      rw [eq_false_iff.mpr hright]
      rfl
    have hroom₃ : s₃.1.cache.HasRoom 2 := by
      subst hs₃
      exact hroom₂
    dsimp only
    rw [if_neg hright]
    change Ends (told t) (recordMFAFailure cfg _ _ >>= fun _ =>
      (pure (.error .invalidCredentials) : Prog (Except AuthError LoginResult))) s₃
        fun _ => Attempted input.token.subject input.fingerprint.ip s₂
    refine bind (bind ((recordFailedAttempt_moved hcache hroom₃ _ _).mono fun _ s₄ h₄ => ?_))
    have haudit : (auditLog .loginFailure input.token.subject "mfa_failed").Ends (told t) s₄
        fun _ s' => Moved input.token.subject [] 0 s₄ s' := moved_of_within auditLog_innocent s₄ _
    exact haudit.mono fun _ s₅ h₅ =>
      ⟨_, _, (h₃.trans h₄).then h₅, .refused (hgate (eq_false_iff.mpr hlocked))⟩

end Cached

/-! ### A password change -/

/-- A program that writes no lockout key, whatever it checks. -/
theorem felt_of_writing (hp : p.Within (Writing otherKeys)) (s : Story) (u : UserID) :
    p.Ends (told t) s fun _ s' => ∃ n, Felt u [] n s s' := by
  refine hp.ends (R := fun s s' => ∃ n, Felt u [] n s s') (fun s => ⟨0, rfl, rfl, rfl, rfl⟩) ?_ ?_ s
  · rintro s₁ s₂ s₃ ⟨n, h⟩ ⟨n', h'⟩
    refine ⟨n + n', h'.marks.trans h.marks, h'.lockout.trans h.lockout, ?_, ?_⟩
    · rw [h'.wrongs, h.wrongs, Nat.add_assoc]
    · exact h'.refusedAt.trans h.refusedAt
  · intro c s hc
    obtain ⟨hmarks, hlockout, hrefused⟩ := unmarked_call s hc u
    exact ⟨_, hmarks, hlockout, countP_cons, hrefused⟩

theorem updatePassword_writing (cfg : Settings) (v : UserID) (newPassword : String) :
    (PasswordHandler.updatePassword cfg v newPassword).Within (Writing otherKeys) := by
  refine PasswordHandler.updatePassword_within
    (fun h => (writing_of_clerical h).mono fun k hk => ?_)
    (fun _ _ => trivial) (fun _ => trivial) (fun _ => trivial) (fun _ _ => trivial) newPassword
  rcases hk with rfl | rfl | ⟨h, rfl⟩ <;> rfl

end Story

end Vault42
