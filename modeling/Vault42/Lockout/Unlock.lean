import Vault42.Lockout.Budget

/-!
# A completed reset unlocks

A reset cannot enumerate the per-source counters of an account, so it advances the generation their
keys carry. Right after it no source is locked out, and from then on the counter addressed for a
source counts only failures that came later (`reset_unlocks`).

The generation is itself a counter that expires, and starts over at one. A counter written under
generation one shortly before that is then addressed again, and a reset that was meant to unlock the
account leaves it locked (`reset_unlocks_relocked`). The theorem asks that a reset which starts the
generations over finds no counter of an earlier run of generations alive; it speaks of every history
in which each reset meets this.
-/

namespace Vault42

open Framework Program Counters AuthService

section Unlock

variable (cfg : Settings) (t : ℕ)

/-- The failures of a source that were counted against an account in a history. -/
def failures (u : UserID) (ip : IPAddr) : World → List Move → ℕ
  | _, [] => 0
  | w, m :: ms => (m.ops cfg t u w).count (.fail ip) + failures u ip (m.perform cfg t w).1 ms

/-- A reset of the account is made where the generations can start over. -/
def ResetsSafely (u : UserID) (w : World) (m : Move) : Prop :=
  .retire ∈ m.ops cfg t u w → (w.lockout u).Restartable

variable {cfg t} {u : UserID}

variable {w : World}

theorem along_append {P : World → Move → Prop} {xs ys : List Move} :
    Along cfg t P w (xs ++ ys) ↔ Along cfg t P w xs ∧ Along cfg t P (w.after cfg t xs) ys := by
  induction xs generalizing w with
  | nil => exact ⟨fun h => ⟨trivial, h⟩, fun h => h.2⟩
  | cons m xs ih =>
    show P w m ∧ Along cfg t P (m.perform cfg t w).1 (xs ++ ys) ↔ (P w m ∧ _) ∧ _
    rw [ih, and_assoc]
    rfl

theorem World.after_append (w : World) (xs ys : List Move) :
    w.after cfg t (xs ++ ys) = (w.after cfg t xs).after cfg t ys := List.foldl_append

/-- One move adds to the bound what it counted. -/
theorem since_perform (hcache : cfg.hasCache)
    (htrap : ∀ email, cfg.isTrapUser email → cfg.trapSubject email ≠ u) {m : Move}
    {n : IPAddr → ℕ} (h : (w.lockout u).Since n) (hroom : Healthy w m)
    (hsafe : ResetsSafely cfg t u w m) :
    ((m.perform cfg t w).1.lockout u).Since fun ip =>
      n ip + (m.ops cfg t u w).count (.fail ip) := by
  obtain ⟨op, hop, hlockout⟩ := (m.effect hcache htrap hroom).lockout
  rw [hlockout]
  have hretire : op = .retire → (w.lockout u).Restartable := by
    rintro rfl
    rcases hop with hop | ⟨-, hidle⟩
    · exact hsafe (hop ▸ List.mem_singleton_self _)
    · cases hidle
  refine (h.step hretire).mono fun ip => ?_
  rcases hop with hop | ⟨hnil, rfl⟩
  · rw [hop]
    cases op with
    | fail ip' =>
      show (if ip = ip' then n ip + 1 else n ip) ≤ n ip + [Op.fail ip'].count (.fail ip)
      by_cases hip : ip = ip'
      · subst hip
        rw [if_pos rfl, List.count_singleton_self]
      · rw [if_neg hip]
        exact Nat.le_add_right _ _
    | retire => exact Nat.zero_le _
    | idle | clear | tick | sweep => exact Nat.le_add_right _ _
  · exact Nat.le_add_right _ _

/-- Along a history the bound grows by the failures counted. -/
theorem since_after (hcache : cfg.hasCache)
    (htrap : ∀ email, cfg.isTrapUser email → cfg.trapSubject email ≠ u) {ms : List Move}
    {n : IPAddr → ℕ} (h : (w.lockout u).Since n) (hhealthy : Along cfg t Healthy w ms)
    (hsafe : Along cfg t (ResetsSafely cfg t u) w ms) :
    ((w.after cfg t ms).lockout u).Since fun ip => n ip + failures cfg t u ip w ms := by
  induction ms generalizing w n with
  | nil => exact h
  | cons m ms ih =>
    have hstep := since_perform hcache htrap h hhealthy.1 hsafe.1
    refine (ih hstep hhealthy.2 hsafe.2).mono fun ip => ?_
    exact le_of_eq (Nat.add_assoc _ _ _)

/-- A healthy cache never latches a refusal. -/
theorem refusedAt_after (hcache : cfg.hasCache)
    (htrap : ∀ email, cfg.isTrapUser email → cfg.trapSubject email ≠ u) {ms : List Move}
    (hhealthy : Along cfg t Healthy w ms) : (w.after cfg t ms).refusedAt = w.refusedAt := by
  induction ms generalizing w with
  | nil => rfl
  | cons m ms ih =>
    have hmove := (m.effect (t := t) (u := u) hcache htrap hhealthy.1).refusedAt
    exact (ih hhealthy.2).trans hmove

/-- **A completed reset unlocks.** In every history of an account that starts with no counters, on a
healthy cache, whose resets all find the generations in order: right after a reset the account is
locked to no address, and whatever follows, a source is held to no failure from before it. -/
theorem reset_unlocks (hcache : cfg.hasCache)
    (htrap : ∀ email, cfg.isTrapUser email → cfg.trapSubject email ≠ u) {w : World}
    (hblank : (w.lockout u).Blank) (hlatch : w.refusedAt = 0) {before after : List Move}
    (hhealthy : Along cfg t Healthy w (before ++ .clearAccountLockout u :: after))
    (hsafe : Along cfg t (ResetsSafely cfg t u) w (before ++ .clearAccountLockout u :: after)) :
    (∀ ip, ((isAccountLocked cfg u ip).run (answer t)
        (w.after cfg t (before ++ [.clearAccountLockout u]))).1 = false) ∧
      ∀ ip, ((w.after cfg t (before ++ .clearAccountLockout u :: after)).lockout u).standing ip ≤
        failures cfg t u ip (w.after cfg t (before ++ [.clearAccountLockout u])) after := by
  obtain ⟨hhealthy₀, hroom, hhealthy₁⟩ := along_append.mp hhealthy
  obtain ⟨hsafe₀, hreset, hsafe₁⟩ := along_append.mp hsafe
  have hsince := since_after hcache htrap hblank.since hhealthy₀ hsafe₀
  -- the reset itself
  obtain ⟨w₀, hw₀⟩ : ∃ w₀, w.after cfg t before = w₀ := ⟨_, rfl⟩
  rw [hw₀] at hroom hreset hsince hhealthy₁ hsafe₁
  have hroom₁ : w₀.cache.HasRoom 1 := hroom.weaken (by decide)
  obtain ⟨hmoved, -⟩ := clearAccountLockout_moved (t := t) (s := (w₀, [])) hcache hroom₁ u
  have hafter : w.after cfg t (before ++ [.clearAccountLockout u]) =
      ((Move.clearAccountLockout u).perform cfg t w₀).1 := by
    rw [World.after_append, hw₀]
    rfl
  have hops : (Move.clearAccountLockout u).ops cfg t u w₀ = [.retire] := hmoved.marks
  have hready : (w₀.lockout u).Restartable := hreset (hops ▸ List.mem_singleton_self _)
  have hlockout : ((Move.clearAccountLockout u).perform cfg t w₀).1.lockout u =
      (w₀.lockout u).apply .retire := hmoved.lockout
  refine ⟨fun ip => ?_, fun ip => ?_⟩
  · have hlatch₁ : ((Move.clearAccountLockout u).perform cfg t w₀).1.refusedAt = 0 := by
      have hw : w₀.refusedAt = w.refusedAt := hw₀ ▸ refusedAt_after hcache htrap hhealthy₀
      exact (hmoved.refusedAt.trans hw).trans hlatch
    have hgate := (isAccountLocked_ends (t := t) hcache u ip
      ((Move.clearAccountLockout u).perform cfg t w₀).1).2 hlatch₁
    rw [hafter, hgate, hlockout]
    exact hsince.not_locked_retire hready ip
  · have hzero : (((Move.clearAccountLockout u).perform cfg t w₀).1.lockout u).Since
        fun _ => 0 := by
      rw [hlockout]
      exact hsince.retire hready
    have hlast := (since_after hcache htrap hzero hhealthy₁ hsafe₁).standing_le ip
    have hend : w.after cfg t (before ++ .clearAccountLockout u :: after) =
        ((Move.clearAccountLockout u).perform cfg t w₀).1.after cfg t after := by
      rw [World.after_append, hw₀]
      rfl
    rw [hend, hafter]
    exact hlast.trans (le_of_eq (Nat.zero_add _))

end Unlock

namespace Sample

theorem world_blank : (world.lockout "u").Blank := ⟨rfl, rfl, fun _ _ => rfl⟩

/-- The key is of generation zero, if of any. -/
def ofZero : CacheKey → Bool
  | .sourceLockout _ _ g => g == 0
  | _ => true

/-- With no key of a later generation the generations can start over. -/
theorem restartable_of_zero {w : World} {u : UserID} (h : w.cache.data.keys.all ofZero) :
    (w.lockout u).Restartable := by
  intro _ ip g hg
  have habsent : CacheKey.sourceLockout u ip g ∉ w.cache.data := by
    intro hmem
    have := List.all_eq_true.mp h _ (AList.mem_keys.mpr hmem)
    exact hg (beq_iff_eq.mp this)
  show Slot.count (w.cache.slot (.sourceLockout u ip g)) _ = 0
  rw [show w.cache.slot (.sourceLockout u ip g) = none from AList.lookup_eq_none.mpr habsent]
  rfl

/-- Five guesses lock `alice` out, a reset ends that, and one more guess counts as one. -/
theorem reset_unlocks_guessed :
    ((AuthService.isAccountLocked settings "u" "1").run (answer 0)
        (world.after settings 0 (List.replicate 5 guess))).1 ∧
      ((AuthService.isAccountLocked settings "u" "1").run (answer 0)
        (world.after settings 0 (List.replicate 5 guess ++ [.clearAccountLockout "u"]))).1 = false ∧
      ((world.after settings 0 (List.replicate 5 guess ++ .clearAccountLockout "u" ::
        [guess])).lockout "u").standing "1" ≤ failures settings 0 "u" "1"
          (world.after settings 0 (List.replicate 5 guess ++ [.clearAccountLockout "u"]))
          [guess] := by
  have hsafe : Along settings 0 (ResetsSafely settings 0 "u") world
      (List.replicate 5 guess ++ .clearAccountLockout "u" :: [guess]) := by
    refine ⟨fun h => ?_, fun h => ?_, fun h => ?_, fun h => ?_, fun h => ?_,
      fun _ => restartable_of_zero ?_, fun h => ?_, trivial⟩
    -- a guess retires nothing
    all_goals first
      | exact absurd h (by decide +kernel)
      | decide +kernel
  have h := reset_unlocks rfl (fun _ h => absurd h Bool.false_ne_true) world_blank rfl
    (show Along settings 0 Healthy world _ by decide +kernel) hsafe
  exact ⟨by decide +kernel, h.1 "1", h.2 "1"⟩

/-- A reset; five guesses half an hour later, just before its generation runs out; and a reset just
after. -/
def relocked : List Move :=
  [.clearAccountLockout "u", .nudge (.tick 1740000000000), guess, guess, guess, guess, guess,
    .nudge (.tick 120000000000)]

/-- **A reset that leaves the account locked.** The second reset starts the generations over at one,
and the counter written under the first generation one is addressed again. -/
theorem reset_unlocks_relocked :
    (world.lockout "u").Blank ∧ world.refusedAt = 0 ∧
      Along settings 0 Healthy world (relocked ++ [.clearAccountLockout "u"]) ∧
      (clearAccountLockout settings "u").run (answer 0) (world.after settings 0 relocked) =
        (.ok (), world.after settings 0 (relocked ++ [.clearAccountLockout "u"])) ∧
      ((AuthService.isAccountLocked settings "u" "1").run (answer 0)
        (world.after settings 0 (relocked ++ [.clearAccountLockout "u"]))).1 :=
  ⟨world_blank, rfl, by decide +kernel, rfl, by decide +kernel⟩

end Sample

end Vault42
