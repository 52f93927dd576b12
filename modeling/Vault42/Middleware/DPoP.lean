import Vault42.Cache.Backends
import Vault42.Framework.Machine
import Vault42.JWT.Proof

/-!
# Proof of possession

The middleware `DPoP` of `internal/middleware/dpop.go`: a proof is validated against the request,
its identifier is remembered in the shared cache, and a token that is bound to a key is accepted
only with a proof under that key. Any number of pods serve requests over one cache, each with a
clock of its own.

How long an identifier is remembered depends on whose clock measures it. The memory cache and Redis
take the lifetime and measure it themselves; PostgreSQL is given the instant of expiry by the pod
that writes it, and compares it with its own clock. So in the second case the server's clock is one
of those that have to agree (`Synchronised`).

The acceptance of a proof is an interval of ten minutes around its issue time, on the clock of the
pod that reads it. The identifier is written somewhere in that interval and lives for ten and a half
minutes, so it outlives the interval on every clock that is less than half a minute off
(`dpop_single_use`).
-/

namespace Vault42.Middleware

open Framework Option Duration Cache.Postgres

variable {caller server : Time} {EK : Type}

open Go
open JWT
open Strconv (Bytes)

/-! ### The cache -/

/-- The upsert of `SetIfNotExists`, with the expiry computed on the clock of the caller and the row
in the way judged on the server's: whether a row was written, and the table. -/
def upsertAt (p : Cache.Postgres) (caller server : Time) (key value : Bytes) (ttl : Duration) :
    Bool × Cache.Postgres :=
  match p.rows key with
  | none => (true, p.put key (some ⟨value, expiry caller ttl⟩))
  | some r =>
    if r.live server then (false, p)
    else (true, p.put key (some ⟨value, expiry caller ttl⟩))

/-- The cache behind the replay check: one that measures lifetimes itself, or the PostgreSQL
table. -/
inductive ReplayCache where
  | measuring (m : MemoryCache Bytes CacheValue)
  | table (p : Cache.Postgres)

namespace ReplayCache

/-- `SetIfNotExists` of the value `"1"`, called when the pod's clock reads `caller` and the cache's
own reads `server`. -/
def setIfNotExists (c : ReplayCache) (caller server : Time) (key : Bytes) (ttl : Duration) :
    Except CacheError Bool × ReplayCache :=
  match c with
  | .measuring m =>
    ((m.setIfNotExists server key (.count 1) ttl).1,
      .measuring (m.setIfNotExists server key (.count 1) ttl).2)
  | .table p => (.ok (upsertAt p caller server key [49] ttl).1,
      .table (upsertAt p caller server key [49] ttl).2)

/-- A sweep of expired entries; the table's picks some of them. -/
def sweep (c : ReplayCache) (server : Time) (pick : Bytes → Bool) : ReplayCache :=
  match c with
  | .measuring m => .measuring (m.cleanup server)
  | .table p => .table (p.reap server pick)

def isTable : ReplayCache → Bool
  | .measuring _ => false
  | .table _ => true

/-- The clock that a lifetime is added to. -/
def stamp (c : ReplayCache) (caller server : Time) : Time :=
  match c with
  | .measuring _ => server
  | .table _ => caller

/-- The entry of a key is in the way of everyone until an instant of the cache's clock. -/
def LiveUntil (c : ReplayCache) (key : Bytes) (x : Time) : Prop :=
  match c with
  | .measuring m => (m.slot key).HoldsUntil x
  | .table p => ∃ r, p.rows key = some r ∧ ∀ t < x, r.live t

variable {c : ReplayCache} {x : Time} {key k : Bytes} {ttl : Duration}

theorem LiveUntil.refuses (h : c.LiveUntil key x) (hlt : server < x) :
    c.setIfNotExists caller server key ttl = (.ok false, c) := by
  cases c with
  | measuring => simp only [setIfNotExists, MemoryCache.refuses_of_holdsUntil h hlt]
  | table =>
    obtain ⟨r, hr, hlive⟩ := h
    simp only [setIfNotExists, upsertAt, hr, if_pos (hlive server hlt)]

theorem rows_upsertAt_ne {p : Cache.Postgres} {value : Bytes} (hk : key ≠ k) :
    (upsertAt p caller server k value ttl).2.rows key = p.rows key := by
  have hput : ∀ r, (p.put k r).rows key = p.rows key := fun r => Function.update_of_ne hk _ _
  unfold upsertAt
  split
  · exact hput _
  · split_ifs
    · rfl
    · exact hput _

/-- No call removes an entry in the way, under its key or another. -/
theorem LiveUntil.setIfNotExists (h : c.LiveUntil key x) (hlt : server < x) :
    (c.setIfNotExists caller server k ttl).2.LiveUntil key x := by
  cases c with
  | measuring => exact MemoryCache.holdsUntil_setIfNotExists h hlt
  | table =>
    by_cases hk : key = k
    · subst hk
      rw [h.refuses hlt]
      exact h
    · obtain ⟨r, hr, hlive⟩ := h
      exact ⟨r, (rows_upsertAt_ne hk).trans hr, hlive⟩

theorem LiveUntil.sweep (h : c.LiveUntil key x) (hlt : server < x) (pick : Bytes → Bool) :
    (c.sweep server pick).LiveUntil key x := by
  cases c with
  | measuring m =>
    show ((m.cleanup server).slot key).HoldsUntil x
    rw [m.slot_cleanup]
    exact h.swept hlt
  | table p =>
    obtain ⟨r, hr, hlive⟩ := h
    refine ⟨r, ?_, hlive⟩
    show (p.rows key).filter _ = some r
    rw [hr, filter_some, hlive server hlt, Bool.true_or, if_pos rfl]

/-- A new entry is in the way for its lifetime; the table counts in microseconds. -/
theorem liveUntil_of_new (httl : 0 < ttl)
    (hnew : (c.setIfNotExists caller server key ttl).1 = .ok true)
    (hx : x ≤ c.stamp caller server + ttl) (hmicros : c.isTable → x % 1000 = 0) :
    (c.setIfNotExists caller server key ttl).2.LiveUntil key x := by
  cases c with
  | measuring => exact MemoryCache.holdsUntil_of_new httl hnew hx
  | table p =>
    refine ⟨⟨[49], expiry caller ttl⟩, ?_, fun t ht => ?_⟩
    · have hput : ∀ r, (p.put key r).rows key = r := fun r => Function.update_self ..
      simp only [setIfNotExists, upsertAt] at hnew ⊢
      cases hr : p.rows key with
      | none => exact hput _
      | some =>
        simp only [hr] at hnew ⊢
        split_ifs at hnew ⊢ with hlive
        · cases hnew
        · exact hput _
    · rw [expiry, expiryOf, if_pos httl, map_some, Cache.Row.live,
        decide_eq_true_eq, Cache.micros, Cache.micros]
      have := hmicros rfl
      simp only [stamp] at hx
      lia

theorem isTable_setIfNotExists (c : ReplayCache) (caller server : Time) (key : Bytes)
    (ttl : Duration) : (c.setIfNotExists caller server key ttl).2.isTable = c.isTable := by
  cases c <;> rfl

theorem isTable_sweep (c : ReplayCache) (server : Time) (pick : Bytes → Bool) :
    (c.sweep server pick).isTable = c.isTable := by
  cases c <;> rfl

end ReplayCache

/-! ### The middleware -/

/-- What the middleware reads of a request: `claims` are those of the access token, absent on a
token endpoint. A header that is absent is empty. -/
structure DPoPRequest where
  method : Bytes
  path : Bytes
  proof : Bytes
  authorization : Bytes
  claims : Option VaultClaims

/-- The key the token is bound to. -/
def DPoPRequest.bound (r : DPoPRequest) : Option Bytes :=
  (r.claims.bind VaultClaims.confirmation).filter fun jkt => jkt ≠ []

/-- The requests whose proofs are remembered: those on a token endpoint and those with a bound
token. -/
def DPoPRequest.guarded (r : DPoPRequest) : Bool := r.claims.isNone || r.bound.isSome

/-- What the middleware does with a request. -/
inductive DPoPAnswer where
  | next (thumbprint : Option Bytes)
  | refused (status : ℕ) (code : String)
deriving DecidableEq, Repr

def dpopReplayTTL : Duration := 2 * dpopMaxAge + 30 * second

section DPoP

variable (std : ProofPlatform EK) (origin : Bytes)

def dpopReplayKey (jti : Bytes) : Bytes := text "dpop_jti:" ++ JWT.sha256Hex std jti

/-- The replay check: what becomes of the cache, and the refusal if there is one. -/
def replayCheck (caller server : Time) (cache : Option ReplayCache) (r : DPoPRequest)
    (jti : Bytes) :
    Option ReplayCache × Option DPoPAnswer :=
  let unavailable : Option DPoPAnswer :=
    if r.bound.isSome then some (.refused 503 "dpop_replay_check_unavailable") else none
  if jti = [] ∨ r.guarded = false then (cache, none)
  else match cache with
    | none => (none, unavailable)
    | some c =>
      match c.setIfNotExists caller server (dpopReplayKey std jti) dpopReplayTTL with
      | (.error _, c) => (some c, unavailable)
      | (.ok false, c) => (some c, some (.refused 401 "dpop_proof_reused"))
      | (.ok true, c) => (some c, none)

/-- The hash of the access token that is presented, empty when none is. -/
def DPoPRequest.ath (r : DPoPRequest) : Bytes :=
  match cut 32 r.authorization with
  | some (_, token) => sha256Base64URL std token
  | none => []

/-- The check of a bound token against the key that was proven. -/
def bindingCheck (r : DPoPRequest) (thumbprint : Bytes) : DPoPAnswer :=
  match r.bound with
  | none => .next (some thumbprint)
  | some jkt =>
    if (cut 32 r.authorization).map Prod.fst ≠ some (text "DPoP") then
      .refused 401 "dpop_scheme_required"
    else if jkt ≠ thumbprint then .refused 401 "dpop_thumbprint_mismatch"
    else .next (some thumbprint)

/-- **`DPoP`**, when the pod's clock reads `checked` as the proof is validated, and it reads
`caller` and the cache's own reads `server` as the cache is asked. -/
def serveDPoP (checked caller server : Time) (cache : Option ReplayCache) (r : DPoPRequest) :
    Option ReplayCache × DPoPAnswer :=
  if r.proof = [] then
    (cache, if r.bound.isSome then .refused 401 "dpop_proof_required" else .next none)
  else match validateDPoPProof std checked r.proof r.method (origin ++ r.path) (r.ath std) with
    | .error _ => (cache, .refused 401 "invalid_dpop_proof")
    | .ok (thumbprint, jti) =>
      match replayCheck std caller server cache r jti with
      | (cache, some refusal) => (cache, refusal)
      | (cache, none) => (cache, bindingCheck r thumbprint)

end DPoP

/-- How far each clock is ahead of the true time. -/
structure Clocks (P : Type) where
  pod : P → Duration
  cache : Duration

/-- The shared cache, and the instant of the last event. -/
structure DPoPState where
  cache : Option ReplayCache
  clock : Time

/-- What happens: a request at a pod, whose proof is validated at one instant and for which the
cache is asked at another, or a sweep of the cache. -/
inductive DPoPEvent (P : Type) where
  | request (p : P) (checked asked : Time) (r : DPoPRequest)
  | sweep (asked : Time) (pick : Bytes → Bool)

/-- When the cache is asked. -/
def DPoPEvent.asked {P : Type} : DPoPEvent P → Time
  | .request _ _ asked _ => asked
  | .sweep asked _ => asked

section Pods

variable {P : Type} (std : ProofPlatform EK) (origin : Bytes) (clocks : Clocks P)

/-- The pods over their cache; a sweep has no answer. -/
def dpopPods : Machine DPoPState (DPoPEvent P) (Option DPoPAnswer) where
  step s
    | .request p checked asked r =>
      let served := serveDPoP std origin (checked + clocks.pod p) (asked + clocks.pod p)
        (asked + clocks.cache) s.cache r
      (⟨served.1, asked⟩, some served.2)
    | .sweep asked pick => (⟨s.cache.map fun c => c.sweep (asked + clocks.cache) pick, asked⟩, none)

def Works (cache : Option ReplayCache) : Prop :=
  ∃ c, cache = some c ∧
    ∀ caller server key, ∃ new, (c.setIfNotExists caller server key dpopReplayTTL).1 = .ok new

/-- The clocks of the pods differ by less than thirty seconds, and so does that of a cache that is
given instants rather than lifetimes. The time that a request may spend between its two readings of
a clock counts as a difference. -/
structure Synchronised (table : Bool) (delay : Duration) : Prop where
  pods : ∀ p q, clocks.pod p - clocks.pod q + delay < 30 * Duration.second
  server : table → ∀ p, clocks.cache - clocks.pod p + delay < 30 * Duration.second

/-- What is asked of an event: the cache works, it is asked in order, and a request asks it no more
than `delay` after the proof was validated. -/
structure Timely (delay : Duration) (s : DPoPState) (e : DPoPEvent P) : Prop where
  works : Works s.cache
  order : s.clock ≤ e.asked
  prompt : ∀ p checked asked r, e = .request p checked asked r → checked ≤ asked ∧
    asked ≤ checked + delay

end Pods

/-- An entry of the journal is a guarded request that was let through with a proof. -/
def lets {P : Type} (proof : Bytes) : DPoPEvent P × Option DPoPAnswer → Bool
  | (.request _ _ _ r, some (.next _)) => r.guarded && decide (r.proof = proof)
  | _ => false

/-! ### What is let through -/

section Served

variable {std : ProofPlatform EK} {origin : Bytes} {checked : Time}
  {cache cache' : Option ReplayCache}
  {r : DPoPRequest} {thumbprint : Option Bytes} {jti print jkt : Bytes}

/-- A guarded request passes a cache that works only with an identifier that is new to it. -/
theorem replayCheck_eq_none (hw : Works cache) (hr : r.guarded) (hjti : jti ≠ [])
    (h : replayCheck std caller server cache r jti = (cache', none)) :
    ∃ c, cache = some c ∧
      (c.setIfNotExists caller server (dpopReplayKey std jti) dpopReplayTTL).1 = .ok true ∧
      cache' = some (c.setIfNotExists caller server (dpopReplayKey std jti) dpopReplayTTL).2 := by
  obtain ⟨c, rfl, hc⟩ := hw
  obtain ⟨new, hnew⟩ := hc caller server (dpopReplayKey std jti)
  have hcheck : ¬ (jti = [] ∨ r.guarded = false) := by simp [hjti, hr]
  rw [replayCheck, if_neg hcheck] at h
  refine ⟨c, rfl, ?_⟩
  generalize c.setIfNotExists caller server (dpopReplayKey std jti) dpopReplayTTL = answer at h hnew
  obtain ⟨a, c'⟩ := answer
  obtain rfl : a = .ok new := hnew
  cases new with
  | false => cases h
  | true =>
    cases h
    exact ⟨rfl, rfl⟩

/-- What the replay check does to the cache: nothing, or one call. -/
theorem replayCheck_cache (std : ProofPlatform EK) (caller server : Time) (r : DPoPRequest)
    (jti : Bytes) (c : ReplayCache) :
    ∃ c', (replayCheck std caller server (some c) r jti).1 = some c' ∧
      (c' = c ∨ ∃ key, c' = (c.setIfNotExists caller server key dpopReplayTTL).2) := by
  unfold replayCheck
  dsimp only
  split_ifs
  · exact ⟨c, rfl, .inl rfl⟩
  all_goals
    refine ⟨_, ?_, .inr ⟨dpopReplayKey std jti, rfl⟩⟩
    split <;> rename_i heq <;> rw [heq]

/-- A request with a proof is let through when the proof is valid, it is not a replay, and the token
is bound to no key or to this one. -/
theorem serveDPoP_eq_next (hproof : r.proof ≠ [])
    (h : serveDPoP std origin checked caller server cache r = (cache', .next thumbprint)) :
    ∃ print jti,
      validateDPoPProof std checked r.proof r.method (origin ++ r.path) (r.ath std) =
        .ok (print, jti) ∧
      replayCheck std caller server cache r jti = (cache', none) ∧
      bindingCheck r print = .next thumbprint := by
  rw [serveDPoP, if_neg hproof] at h
  split at h
  · cases h
  · rename_i print jti hvalid
    split at h
    · rename_i after refusal hreplay
      -- a refusal is never a `next`
      obtain ⟨rfl, rfl⟩ := Prod.mk.inj h
      unfold replayCheck at hreplay
      dsimp only at hreplay
      split_ifs at hreplay
      all_goals
        first
          | cases hreplay
          | (split at hreplay <;> first | cases hreplay | (split at hreplay <;> cases hreplay))
    · rename_i after hreplay
      obtain ⟨rfl, hbinding⟩ := Prod.mk.inj h
      exact ⟨print, jti, hvalid, hreplay, hbinding⟩

theorem serveDPoP_cache (std : ProofPlatform EK) (origin : Bytes) (checked caller server : Time)
    (r : DPoPRequest) (c : ReplayCache) :
    ∃ c', (serveDPoP std origin checked caller server (some c) r).1 = some c' ∧
      (c' = c ∨ ∃ key, c' = (c.setIfNotExists caller server key dpopReplayTTL).2) := by
  unfold serveDPoP
  split_ifs with hproof hbound
  · exact ⟨c, rfl, .inl rfl⟩
  · exact ⟨c, rfl, .inl rfl⟩
  · split
    · exact ⟨c, rfl, .inl rfl⟩
    · rename_i print jti hvalid
      obtain ⟨c', hc', hwhich⟩ := replayCheck_cache std caller server r jti c
      refine ⟨c', ?_, hwhich⟩
      split <;> (rename_i hreplay; rw [hreplay] at hc'; exact hc')

end Served

/-- What a request with a token bound to a key shows when it is let through: a proof signed by that
key, for the method, the address and the token, under the scheme `DPoP`. -/
def Possession (std : ProofPlatform EK) (origin : Bytes) (r : DPoPRequest) (jkt : Bytes) : Prop :=
  ∃ key claims token, Admissible std key ∧ SignedBy std r.proof key ∧
    computeJWKThumbprint std key = some jkt ∧
    proofClaims std r.proof = some claims ∧ claims.htm = r.method ∧ claims.htu = origin ++ r.path ∧
    cut 32 r.authorization = some (text "DPoP", token) ∧ claims.ath = sha256Base64URL std token

section Possession

variable {std : ProofPlatform EK} {origin : Bytes} {checked : Time}
  {cache cache' : Option ReplayCache}
  {r : DPoPRequest} {thumbprint : Option Bytes} {print jkt : Bytes}

theorem bindingCheck_eq_next (hbound : r.bound = some jkt)
    (h : bindingCheck r print = .next thumbprint) :
    jkt = print ∧ ∃ token, cut 32 r.authorization = some (text "DPoP", token) := by
  rw [bindingCheck, hbound] at h
  dsimp only at h
  split_ifs at h with hscheme hjkt
  rw [not_not] at hscheme hjkt
  obtain ⟨⟨scheme, token⟩, hcut, rfl⟩ := map_eq_some_iff.mp hscheme
  exact ⟨hjkt, token, hcut⟩

theorem possession_of_next (hbound : r.bound = some jkt)
    (h : serveDPoP std origin checked caller server cache r = (cache', .next thumbprint)) :
    Possession std origin r jkt := by
  have hproof : r.proof ≠ [] := by
    intro hnil
    rw [serveDPoP, if_pos hnil, hbound] at h
    cases h
  obtain ⟨print, jti, hvalid, -, hbinding⟩ := serveDPoP_eq_next hproof h
  obtain ⟨rfl, token, hcut⟩ := bindingCheck_eq_next hbound hbinding
  obtain ⟨key, claims, iat, hkey, hsigned, hprint, hclaims, hhtm, hhtu, -, -, -, -, -, hath⟩ :=
    validateDPoPProof_eq_ok hvalid
  have hhash : r.ath std = sha256Base64URL std token := by rw [DPoPRequest.ath, hcut]
  rw [hhash] at hath
  exact ⟨key, claims, token, hkey, hsigned, hprint, hclaims, hhtm, hhtu, hcut,
    hath.resolve_left (sha256Base64URL_ne_nil std token)⟩

end Possession

/-! ### Single use -/

section SingleUse

variable {P : Type} (std : ProofPlatform EK) (origin : Bytes) (clocks : Clocks P) (delay : Duration)

/-- A proof is spent: its identifier is in the way of everyone until an instant of the cache's clock
that no pod reaches with the proof still valid, or that instant is past. -/
def Spent (s : DPoPState) (proof : Bytes) : Prop :=
  ∃ claims iat c x, proofClaims std proof = some claims ∧ claims.registered.issuedAt = some iat ∧
    s.cache = some c ∧
    (c.LiveUntil (dpopReplayKey std claims.registered.id) x ∨ x ≤ s.clock + clocks.cache) ∧
    ∀ q, iat + dpopMaxAge - clocks.pod q + delay + clocks.cache < x

variable {std origin clocks delay} {table : Bool} {s : DPoPState} {e : DPoPEvent P}
  {j : List (DPoPEvent P × Option DPoPAnswer)} {proof : Bytes}

/-- What an event does to the cache: nothing, one call or one sweep. -/
theorem step_cache (origin : Bytes) (e : DPoPEvent P) {c : ReplayCache} (hc : s.cache = some c) :
    ∃ c', ((dpopPods std origin clocks).step s e).1.cache = some c' ∧
      (c' = c ∨
        (∃ caller key,
          c' = (c.setIfNotExists caller (e.asked + clocks.cache) key dpopReplayTTL).2) ∨
        ∃ pick, c' = c.sweep (e.asked + clocks.cache) pick) := by
  cases e with
  | request p checked asked r =>
    obtain ⟨c', hc', hwhich⟩ := serveDPoP_cache std origin (checked + clocks.pod p)
      (asked + clocks.pod p) (asked + clocks.cache) r c
    refine ⟨c', ?_, hwhich.imp_right fun ⟨key, h⟩ => .inl ⟨_, key, h⟩⟩
    rw [← hc', ← hc]
    rfl
  | sweep asked pick =>
    refine ⟨c.sweep (asked + clocks.cache) pick, ?_, .inr (.inr ⟨pick, rfl⟩)⟩
    show s.cache.map _ = _
    rw [hc, map_some]

theorem step_clock : ((dpopPods std origin clocks).step s e).1.clock = e.asked := by
  cases e <;> rfl

theorem Spent.step (h : Spent std clocks delay s proof) (horder : s.clock ≤ e.asked) :
    Spent std clocks delay ((dpopPods std origin clocks).step s e).1 proof := by
  obtain ⟨claims, iat, c, x, hclaims, hiat, hc, hlive, hx⟩ := h
  obtain ⟨c', hc', hwhich⟩ := @step_cache _ _ std clocks _ origin e _ hc
  refine ⟨claims, iat, c', x, hclaims, hiat, hc', ?_, hx⟩
  rw [step_clock]
  rcases le_or_gt x (e.asked + clocks.cache) with hpast | hahead
  · exact .inr hpast
  · -- the instant is still ahead, so the entry is there and the event cannot have removed it
    have hentry := hlive.resolve_right (by lia)
    rcases hwhich with rfl | ⟨caller, key, rfl⟩ | ⟨pick, rfl⟩
    · exact .inl hentry
    · exact .inl (hentry.setIfNotExists hahead)
    · exact .inl (hentry.sweep hahead pick)

/-- A request that is let through with a proof: the proof is valid on the pod's clock, and the cache
took its identifier as new. -/
theorem lets_step (hw : Works s.cache) (hproof : proof ≠ [])
    (h : lets proof (e, ((dpopPods std origin clocks).step s e).2)) :
    ∃ p checked asked r claims iat c, e = .request p checked asked r ∧
      proofClaims std proof = some claims ∧ claims.registered.issuedAt = some iat ∧
      iat - dpopMaxAge ≤ checked + clocks.pod p ∧ checked + clocks.pod p ≤ iat + dpopMaxAge ∧
      s.cache = some c ∧
      (c.setIfNotExists (asked + clocks.pod p) (asked + clocks.cache)
        (dpopReplayKey std claims.registered.id) dpopReplayTTL).1 = .ok true ∧
      ((dpopPods std origin clocks).step s e).1.cache =
        some (c.setIfNotExists (asked + clocks.pod p) (asked + clocks.cache)
          (dpopReplayKey std claims.registered.id) dpopReplayTTL).2 := by
  cases e with
  | sweep => cases h
  | request p checked asked r =>
    cases hserved : serveDPoP std origin (checked + clocks.pod p) (asked + clocks.pod p)
      (asked + clocks.cache) s.cache r with
    | mk cache' answer =>
      have hstep : (dpopPods std origin clocks).step s (.request p checked asked r) =
          (⟨cache', asked⟩, some answer) := by
        simp only [dpopPods, hserved]
      rw [hstep] at h
      cases answer with
      | refused => cases h
      | next =>
        obtain ⟨hguarded, hcarried⟩ := (Bool.and_eq_true _ _).mp h
        obtain rfl := of_decide_eq_true hcarried
        obtain ⟨print, jti, hvalid, hreplay, -⟩ := serveDPoP_eq_next hproof hserved
        obtain ⟨key, claims, iat, -, -, -, hclaims, -, -, hiat, hafter, hbefore, rfl, hjti, -⟩ :=
          validateDPoPProof_eq_ok hvalid
        obtain ⟨c, hc, hnew, rfl⟩ := replayCheck_eq_none hw hguarded hjti hreplay
        rw [hstep]
        exact ⟨p, checked, asked, r, claims, iat, c, rfl, hclaims, hiat, hafter, hbefore,
          hc, hnew, rfl⟩

/-- A proof that is let through is spent from then on: its identifier is written no earlier than
five minutes before the issue time, so that it lasts half a minute past the last instant of its
acceptance. -/
theorem spent_of_lets (hsync : Synchronised clocks table delay) (ht : Timely delay s e)
    (hkind : ∀ c, s.cache = some c → c.isTable = table) (hproof : proof ≠ [])
    (h : lets proof (e, ((dpopPods std origin clocks).step s e).2)) :
    Spent std clocks delay ((dpopPods std origin clocks).step s e).1 proof := by
  obtain ⟨p, checked, asked, r, claims, iat, c, rfl, hclaims, hiat, hafter, -, hc, hnew,
      hafterwards⟩ :=
    lets_step ht.works hproof h
  obtain ⟨hle, -⟩ := ht.prompt p checked asked r rfl
  obtain ⟨n, hn⟩ := wholeIat_proofClaims hclaims iat hiat
  have httl : (0 : Duration) < dpopReplayTTL := by decide
  -- the clock that stamps the entry, and how far it is ahead of the pod's
  have hx : iat + dpopMaxAge + 30 * second + (c.stamp (clocks.pod p) clocks.cache - clocks.pod p) ≤
      c.stamp (asked + clocks.pod p) (asked + clocks.cache) + dpopReplayTTL := by
    cases c <;> simp only [ReplayCache.stamp, dpopReplayTTL] <;> lia
  refine ⟨claims, iat, _, _, hclaims, hiat, hafterwards,
    .inl (ReplayCache.liveUntil_of_new httl hnew hx ?_), fun q => ?_⟩
  · intro htable
    cases c with
    | measuring => cases htable
    | table =>
      simp only [ReplayCache.stamp, dpopMaxAge, minute, second] at hn ⊢
      lia
  · have hpods := hsync.pods p q
    have hserver := hsync.server
    rw [← hkind c hc] at hserver
    cases c with
    | measuring =>
      simp only [ReplayCache.stamp]
      lia
    | table =>
      have := hserver rfl q
      simp only [ReplayCache.stamp]
      lia

theorem not_lets_of_spent (hspent : Spent std clocks delay s proof) (ht : Timely delay s e)
    (hproof : proof ≠ []) : lets proof (e, ((dpopPods std origin clocks).step s e).2) ≠ true := by
  intro h
  obtain ⟨p, checked, asked, r, claims, iat, c, rfl, hclaims, hiat, -, hbefore, hc, hnew, -⟩ :=
    lets_step ht.works hproof h
  obtain ⟨claims', iat', c', x, hclaims', hiat', hc', hlive, hx⟩ := hspent
  obtain rfl := mem_unique hclaims hclaims'
  obtain rfl := mem_unique hiat hiat'
  obtain rfl := mem_unique hc hc'
  have horder : s.clock ≤ asked := ht.order
  obtain ⟨-, hprompt⟩ := ht.prompt p checked asked r rfl
  have hahead : asked + clocks.cache < x := by
    have := hx p
    lia
  rcases hlive with hlive | hpast
  · rw [hlive.refuses hahead] at hnew
    cases hnew
  · lia

/-- The caches the pods can start with. -/
def Fitted (table : Bool) (s : DPoPState) : Prop := ∃ c, s.cache = some c ∧ c.isTable = table

theorem Fitted.step (h : Fitted table s) :
    Fitted table ((dpopPods std origin clocks).step s e).1 := by
  obtain ⟨c, hc, hkind⟩ := h
  obtain ⟨c', hc', hwhich⟩ := @step_cache _ _ std clocks _ origin e _ hc
  refine ⟨c', hc', ?_⟩
  rw [← hkind]
  rcases hwhich with rfl | ⟨caller, key, rfl⟩ | ⟨pick, rfl⟩
  · rfl
  · exact c.isTable_setIfNotExists ..
  · exact c.isTable_sweep ..

/-- What holds of the pods with what they have answered: the proofs let through are spent, and none
was let through twice. -/
theorem journal_spent (hsync : Synchronised clocks table delay)
    (h : (dpopPods std origin clocks).Journal (Fitted table) (Timely delay) s j)
    (hproof : proof ≠ []) :
    Fitted table s ∧ (j.filter (lets proof)).length ≤ 1 ∧
      ((j.filter (lets proof)) ≠ [] → Spent std clocks delay s proof) := by
  induction h with
  | start h => exact ⟨h, Nat.zero_le _, fun hne => absurd rfl hne⟩
  | @next s j e hprev hok ih =>
    obtain ⟨hfitted, hcount, hspent⟩ := ih
    refine ⟨hfitted.step, ?_⟩
    cases hlets : lets proof (e, ((dpopPods std origin clocks).step s e).2) with
    | false =>
      rw [List.filter_cons_of_neg (by rw [hlets]; decide)]
      exact ⟨hcount, fun hne => (hspent hne).step hok.order⟩
    | true =>
      -- had it been let through before, it would be spent by now
      have hnone : j.filter (lets proof) = [] := by
        by_contra hne
        exact not_lets_of_spent (hspent hne) hok hproof hlets
      have hkind : ∀ c, s.cache = some c → c.isTable = table := by
        obtain ⟨c, hc, hkind⟩ := hfitted
        intro c' hc'
        rwa [← mem_unique hc hc']
      rw [List.filter_cons_of_pos hlets, hnone]
      exact ⟨Nat.le_refl 1, fun _ => spent_of_lets hsync hok hkind hproof hlets⟩

end SingleUse

/-- **Proofs are for one use.** Over any sequence of requests and sweeps, of all the requests on a
token endpoint or with a bound token that carry a given proof at most one is let through, whenever
and at whichever pods they arrive; and a request with a bound token is let through only with a proof
of possession of the key it is bound to. -/
theorem dpop_single_use {EK P : Type} {std : ProofPlatform EK} {origin : Bytes} {clocks : Clocks P}
    {table : Bool} {delay : Duration} {s : DPoPState} {j : List (DPoPEvent P × Option DPoPAnswer)}
    (hsync : Synchronised clocks table delay)
    (h : (dpopPods std origin clocks).Journal (Fitted table) (Timely delay) s j) :
    (∀ proof, proof ≠ [] → (j.filter (lets proof)).length ≤ 1) ∧
      ∀ p checked asked r thumbprint, (.request p checked asked r, some (.next thumbprint)) ∈ j →
        ∀ jkt, r.bound = some jkt → Possession std origin r jkt := by
  refine ⟨fun proof hproof => (journal_spent hsync h hproof).2.1, ?_⟩
  intro p checked asked r thumbprint hmem jkt hbound
  obtain ⟨s', -, -, -, hanswer⟩ := h.of_mem hmem
  cases hserved : serveDPoP std origin (checked + clocks.pod p) (asked + clocks.pod p)
    (asked + clocks.cache) s'.cache r with
  | mk cache' answer =>
    simp only [dpopPods, hserved, Option.some.injEq] at hanswer
    subst hanswer
    exact possession_of_next hbound hserved

namespace Sample

/-- The hash of a text is its beginning, filled up with zeros, every point is on the curve, and the
signature of a text is its length. -/
def platform : ProofPlatform Bytes where
  toLower := id
  foldName := id
  parseFloat := JWT.Sample.platform.parseFloat
  verifyPKCS1v15 _ _ _ := false
  verifyES256 _ := JWT.Sample.platform.verifyPKCS1v15 ()
  sha256 s := ⟨(s ++ List.replicate 32 0).take 32, by simp⟩
  parseP256 := some
  curve _ := (text "P-256", 256)
  ecdh := some

/-- A proof for `POST v/t`, issued at 300 s. -/
def proof : Bytes :=
  text "eyJ0eXAiOiJkcG9wK2p3dCIsImFsZyI6IkVTMjU2IiwiandrIjp7Imt0eSI6IkVDIiwiY3J2IjoiUC0yNTYi" ++
  text "LCJ4IjoiQXciLCJ5IjoiQkEifX0.eyJodG0iOiJQT1NUIiwiaHR1Ijoidi90IiwiaWF0IjozMDAsImp0aSI6" ++
  text "ImEifQ.rg"

def print : Bytes := text "eyJjcnYiOiJQLTI1NiIsImt0eSI6IkVDIiwieCI6IkE"

/-- The proof is presented on the token endpoint of a pod. -/
def presented (p : Bool) (now : ℤ) : DPoPEvent Bool :=
  .request p (now * second) (now * second) ⟨text "POST", text "/t", proof, [], none⟩

/-- Two pods, one of them ten seconds ahead; the database agrees with the other. -/
def clocks : Clocks Bool := ⟨fun ahead => if ahead then 10 * second else 0, 0⟩

def fresh : DPoPState := ⟨some (.table empty), 0⟩

/-- The proof is presented as early as it is accepted, and again as late as it is. -/
def twice : List (DPoPEvent Bool) := [presented false 0, presented true 590]

theorem synchronised : Synchronised clocks true 0 where
  pods := by decide
  server := by decide

theorem timely {s : DPoPState} {p : Bool} {now : ℤ} (h : Fitted true s)
    (horder : s.clock ≤ now * second) : Timely 0 s (presented p now) where
  works := by
    obtain ⟨c, hc, htable⟩ := h
    cases c with
    | measuring => cases htable
    | table => exact ⟨_, hc, fun _ _ _ => ⟨_, rfl⟩⟩
  order := horder
  prompt := by
    rintro _ _ _ _ ⟨⟩
    exact ⟨le_refl _, by lia⟩

theorem presented_twice : ∃ s j,
    (dpopPods platform (text "v") clocks).Journal (Fitted true) (Timely 0) s j ∧
      j.map Prod.snd = [some (.refused 401 "dpop_proof_reused"), some (.next (some print))] ∧
      (j.filter (lets proof)).length ≤ 1 := by
  have hfresh : Fitted true fresh := ⟨_, rfl, rfl⟩
  have hmeets : (dpopPods platform (text "v") clocks).Meets (Timely 0) fresh twice := by
    refine ⟨timely hfresh (by decide), timely hfresh.step ?_, trivial⟩
    rw [step_clock]
    decide
  have hj := Machine.journal_feed (.start hfresh) hmeets
  exact ⟨_, _, hj, by decide +kernel, (dpop_single_use synchronised hj).1 proof (by decide +kernel)⟩

end Sample

end Vault42.Middleware
