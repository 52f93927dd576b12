import Vault42.Service.Lockout

/-!
# The counters that stand against one account

What the cache holds against one account, apart from everything else in it: the generation, the
account-wide counter, and one counter per source address and generation. Six things can happen to
them (`Counters.Op`), and a login, a second-factor attempt or a reset does one of the six. Both
questions about the lockout are answered here, about sequences of such operations:

* **how much a source may try** (`Window`): from the failure that opens a counter, every further
  failure of the source within the window raises the same counter, as long as the generation reads
  the same and nothing clears the counter;
* **what a reset leaves standing** (`Since`): the counter addressed for a source counts only
  failures that came after the last reset.

Neither holds without an assumption on the generation, whose own life is fixed at its first
increment. A generation that runs out inside a source's window hands the source a new counter. A
generation that starts over at one while a counter of an earlier generation one is alive hands that
counter back. `Steady` and `Restartable` rule these two out.
-/

namespace Vault42

open Slot

/-- **What stands against one account**, and the time. -/
@[ext]
structure Counters where
  clock : Time
  generation : Slot CacheValue
  account : Slot CacheValue
  source : IPAddr → ℕ → Slot CacheValue

namespace Counters

/-- The generation the per-source keys carry now. -/
def gen (c : Counters) : ℕ := c.generation.count c.clock

/-- The failures a source is held to. -/
def standing (c : Counters) (ip : IPAddr) : ℕ := (c.source ip c.gen).count c.clock

/-- The account is locked to a source, by the counters alone. -/
def locked (c : Counters) (ip : IPAddr) : Bool :=
  decide (lockoutThreshold ≤ c.standing ip) ||
    decide (distributedLockoutThreshold ≤ c.account.count c.clock)

/-- What can happen to the counters of an account. -/
inductive Op where
  | idle
  /-- A failure from a source is counted. -/
  | fail (ip : IPAddr)
  /-- A source's counter is dropped. -/
  | clear (ip : IPAddr)
  /-- `ClearAccountLockout`. -/
  | retire
  | tick (d : ℕ)
  | sweep
deriving DecidableEq

def apply (c : Counters) : Op → Counters
  | .idle => c
  | .fail ip =>
    { c with
      account := some (c.account.bump c.clock lockoutDuration)
      source := fun ip' g =>
        if ip' = ip ∧ g = c.gen then some ((c.source ip g).bump c.clock lockoutDuration)
        else c.source ip' g }
  | .clear ip =>
    { c with source := fun ip' g => if ip' = ip ∧ g = c.gen then none else c.source ip' g }
  | .retire =>
    { c with
      account := none
      generation := some (c.generation.bump c.clock lockoutGenerationTTL) }
  | .tick d => { c with clock := c.clock + d }
  | .sweep =>
    { c with
      generation := c.generation.swept c.clock
      account := c.account.swept c.clock
      source := fun ip g => (c.source ip g).swept c.clock }

variable {c : Counters} {ip : IPAddr} {g k : ℕ} {ends : Time}

theorem clock_le_apply (c : Counters) (op : Op) : c.clock ≤ (c.apply op).clock := by
  cases op with
  | tick d =>
    show c.clock ≤ c.clock + (d : ℤ)
    lia
  | idle | fail | clear | retire | sweep => exact le_rfl

/-! ### The budget of a source -/

/-- The generation is read the same throughout the lockout window that starts now. -/
def Steady (c : Counters) : Prop :=
  ∀ now, c.clock ≤ now → now < c.clock + lockoutDuration → c.generation.count now = c.gen

/-- The source has no counter that an increment would go on with. -/
def Opening (c : Counters) (ip : IPAddr) : Prop :=
  ∀ e ∈ c.source ip c.gen, e.current c.clock = false

instance (c : Counters) (ip : IPAddr) : Decidable (c.Opening ip) :=
  inferInstanceAs (Decidable (∀ e ∈ c.source ip c.gen, e.current c.clock = false))

/-- **A window in progress.** Until `ends` the source is held to one counter, which stands at
`k`. -/
structure Window (c : Counters) (ip : IPAddr) (g k : ℕ) (ends : Time) : Prop where
  open_ : c.clock < ends
  gen : ∀ now, c.clock ≤ now → now < ends → c.generation.count now = g
  counter : c.source ip g = some ⟨.count k, some ends⟩

theorem Window.gen_eq (h : c.Window ip g k ends) : c.gen = g := h.gen c.clock le_rfl h.open_

theorem Window.live (h : c.Window ip g k ends) :
    MemEntry.expired ⟨CacheValue.count k, some ends⟩ c.clock = false := by
  simp only [MemEntry.expired, decide_eq_false_iff_not, not_lt]
  exact le_of_lt h.open_

theorem Window.standing_eq (h : c.Window ip g k ends) : c.standing ip = k := by
  unfold standing
  rw [h.gen_eq, h.counter, count_some h.live]
  rfl

/-- The failure that opens a counter starts a window at one. -/
theorem window_of_opening (hopen : c.Opening ip) (hsteady : c.Steady) :
    (c.apply (.fail ip)).Window ip c.gen 1 (c.clock + lockoutDuration) where
  open_ := by
    show c.clock < c.clock + lockoutDuration
    have : (0 : ℤ) < lockoutDuration := by decide
    lia
  gen := hsteady
  counter := by
    show (if ip = ip ∧ c.gen = c.gen then _ else _) = _
    rw [if_pos ⟨rfl, rfl⟩, bump_fresh hopen]
    rfl

/-- Inside the window every failure of the source goes to the same counter, and nothing else touches
it. -/
theorem Window.step (h : c.Window ip g k ends) {op : Op} (hclear : op ≠ .clear ip)
    (hretire : op ≠ .retire) (hin : (c.apply op).clock < ends) :
    (c.apply op).Window ip g (if op = .fail ip then k + 1 else k) ends := by
  cases op with
  | idle => exact h
  | retire => exact absurd rfl hretire
  | tick d =>
    refine ⟨hin, fun now hle hlt => h.gen now ?_ hlt, h.counter⟩
    exact le_trans (c.clock_le_apply (.tick d)) hle
  | sweep =>
    have hop : Op.sweep ≠ .fail ip := nofun
    refine ⟨hin, fun now (hle : c.clock ≤ now) hlt => ?_, ?_⟩
    · show (c.generation.swept c.clock).count now = g
      rw [count_swept hle]
      exact h.gen now hle hlt
    · -- the counter is alive, so the sweep keeps it
      show (c.source ip g).swept c.clock = _
      rw [h.counter, swept_some h.live, if_neg hop]
  | clear ip' =>
    refine ⟨hin, h.gen, ?_⟩
    have hne : ip ≠ ip' := fun heq => hclear (by rw [heq])
    show (if ip = ip' ∧ g = c.gen then none else c.source ip g) = _
    rw [if_neg fun hand => hne hand.1, h.counter]
    rfl
  | fail ip' =>
    refine ⟨hin, h.gen, ?_⟩
    show (if ip = ip' ∧ g = c.gen then some ((c.source ip' g).bump c.clock lockoutDuration)
      else c.source ip g) = _
    by_cases hip : ip = ip'
    · subst hip
      have hcurrent : MemEntry.current ⟨CacheValue.count k, some ends⟩ c.clock :=
        decide_eq_true h.open_
      rw [if_pos ⟨rfl, h.gen_eq.symm⟩, if_pos rfl, h.counter, bump_current hcurrent]
      rfl
    · have hother : Op.fail ip' ≠ .fail ip := fun heq => hip (Op.fail.inj heq).symm
      rw [if_neg fun hand => hip hand.1, if_neg hother, h.counter]

/-! ### What a reset leaves standing -/

/-- A reset that finds no generation to go on with starts over at one, so no counter of an earlier
run of generations may still be alive. -/
def Restartable (c : Counters) : Prop :=
  (∀ e ∈ c.generation, e.current c.clock = false) →
    ∀ ip g, g ≠ 0 → (c.source ip g).count c.clock = 0

/-- A generation in force, and the counters under it. -/
structure Reign (c : Counters) (n : IPAddr → ℕ) (g : ℕ) (ends : Time) : Prop where
  generation : c.generation = some ⟨.count g, some ends⟩
  inForce : c.clock ≤ ends
  positive : 0 < g
  now : ∀ ip, (c.source ip g).count c.clock ≤ n ip
  /-- The generations still to come have nothing under them. -/
  ahead : ∀ ip g', g < g' → (c.source ip g').count c.clock = 0
  /-- The counters of generation zero do not outlive the reign. -/
  zero : ∀ ip, (c.source ip 0).ExpiresBy ends

/-- No generation in force: the counters under generation zero are addressed. -/
structure Interregnum (c : Counters) (n : IPAddr → ℕ) : Prop where
  generation : ∀ e ∈ c.generation, e.expired c.clock
  now : ∀ ip, (c.source ip 0).count c.clock ≤ n ip

/-- **The counters addressed count at most `n` failures of each source**, and every counter that
will be addressed later counts none from before. -/
structure Since (c : Counters) (n : IPAddr → ℕ) : Prop where
  expires : ∀ ip g, (c.source ip g).ExpiresBy (c.clock + lockoutDuration)
  addressed : (∃ g ends, c.Reign n g ends) ∨ c.Interregnum n

variable {n : IPAddr → ℕ}

theorem Reign.gen_eq (h : c.Reign n g ends) : c.gen = g := by
  have hlive : MemEntry.expired ⟨CacheValue.count g, some ends⟩ c.clock = false := by
    simp only [MemEntry.expired, decide_eq_false_iff_not, not_lt]
    exact h.inForce
  unfold gen
  rw [h.generation, count_some hlive]
  rfl

theorem Interregnum.gen_eq (h : c.Interregnum n) : c.gen = 0 := by
  unfold gen
  cases hslot : c.generation with
  | none => rfl
  | some e => exact count_expired (h.generation e hslot)

theorem Since.standing_le (h : c.Since n) (ip : IPAddr) : c.standing ip ≤ n ip := by
  unfold standing
  rcases h.addressed with ⟨g, ends, hreign⟩ | hgap
  · rw [hreign.gen_eq]
    exact hreign.now ip
  · rw [hgap.gen_eq]
    exact hgap.now ip

theorem Since.mono {n' : IPAddr → ℕ} (h : c.Since n) (hle : ∀ ip, n ip ≤ n' ip) : c.Since n' := by
  refine ⟨h.expires, ?_⟩
  rcases h.addressed with ⟨g, ends, hreign⟩ | hgap
  · exact .inl ⟨g, ends, { hreign with now := fun ip => le_trans (hreign.now ip) (hle ip) }⟩
  · exact .inr { hgap with now := fun ip => le_trans (hgap.now ip) (hle ip) }

/-- The failures since the last reset, after one more operation. -/
def Op.since (op : Op) (n : IPAddr → ℕ) : IPAddr → ℕ :=
  match op with
  | .fail ip => fun ip' => if ip' = ip then n ip' + 1 else n ip'
  | .retire => fun _ => 0
  | _ => n

theorem source_fail (c : Counters) (ip ip' : IPAddr) (g : ℕ) :
    (c.apply (.fail ip)).source ip' g =
      if ip' = ip ∧ g = c.gen then some ((c.source ip g).bump c.clock lockoutDuration)
      else c.source ip' g := rfl

/-- A failure adds at most one to what its source is held to. -/
theorem count_fail_le (h : ∀ ip', (c.source ip' c.gen).count c.clock ≤ n ip') (ip' : IPAddr) :
    ((c.apply (.fail ip)).source ip' c.gen).count c.clock ≤ (Op.fail ip).since n ip' := by
  rw [source_fail]
  show _ ≤ if ip' = ip then n ip' + 1 else n ip'
  by_cases hip : ip' = ip
  · subst hip
    rw [if_pos ⟨rfl, rfl⟩, if_pos rfl]
    exact le_trans count_bump_le (Nat.succ_le_succ (h ip'))
  · rw [if_neg fun hand => hip hand.1, if_neg hip]
    exact h ip'

theorem Since.fail (h : c.Since n) (ip : IPAddr) :
    (c.apply (.fail ip)).Since ((Op.fail ip).since n) := by
  refine ⟨fun ip' g => ?_, ?_⟩
  · rw [source_fail]
    split
    · exact expiresBy_bump (h.expires ip g) (by decide) le_rfl
    · exact h.expires ip' g
  rcases h.addressed with ⟨g, ends, hreign⟩ | hgap
  · have hg := hreign.gen_eq
    refine .inl ⟨g, ends, hreign.generation, hreign.inForce, hreign.positive, ?_, ?_, ?_⟩
    · rw [← hg]
      exact count_fail_le fun ip' => hg ▸ hreign.now ip'
    · -- the counter written is one of this generation
      intro ip' g' hlt
      rw [source_fail, if_neg fun hand => by lia]
      exact hreign.ahead ip' g' hlt
    · intro ip'
      have := hreign.positive
      rw [source_fail, if_neg fun hand => by lia]
      exact hreign.zero ip'
  · have hg := hgap.gen_eq
    refine .inr ⟨hgap.generation, ?_⟩
    rw [← hg]
    exact count_fail_le fun ip' => hg ▸ hgap.now ip'

theorem source_clear (c : Counters) (ip ip' : IPAddr) (g : ℕ) :
    (c.apply (.clear ip)).source ip' g = none ∨
      (c.apply (.clear ip)).source ip' g = c.source ip' g := by
  show (if ip' = ip ∧ g = c.gen then none else c.source ip' g) = none ∨
    (if ip' = ip ∧ g = c.gen then none else c.source ip' g) = c.source ip' g
  split
  · exact .inl rfl
  · exact .inr rfl

section

variable (h : c.Since n)
include h

theorem Since.clear (ip : IPAddr) : (c.apply (.clear ip)).Since n := by
  -- a counter that is gone meets every bound
  have hcount : ∀ ip' g, ((c.apply (.clear ip)).source ip' g).count c.clock ≤
      (c.source ip' g).count c.clock := by
    intro ip' g
    rcases c.source_clear ip ip' g with hnone | hsame
    · rw [hnone]
      exact Nat.zero_le _
    · rw [hsame]
  have hexpires : ∀ ip' g t, (c.source ip' g).ExpiresBy t →
      ((c.apply (.clear ip)).source ip' g).ExpiresBy t := by
    intro ip' g t ht
    rcases c.source_clear ip ip' g with hnone | hsame
    · rw [hnone]
      exact nofun
    · rw [hsame]
      exact ht
  refine ⟨fun ip' g => hexpires ip' g _ (h.expires ip' g), ?_⟩
  rcases h.addressed with ⟨g, ends, hreign⟩ | hgap
  · refine .inl ⟨g, ends, hreign.generation, hreign.inForce, hreign.positive, ?_, ?_, ?_⟩
    · exact fun ip' => le_trans (hcount ip' g) (hreign.now ip')
    · exact fun ip' g' hlt => Nat.le_zero.mp (hreign.ahead ip' g' hlt ▸ hcount ip' g')
    · exact fun ip' => hexpires ip' 0 ends (hreign.zero ip')
  · exact .inr ⟨hgap.generation, fun ip' => le_trans (hcount ip' 0) (hgap.now ip')⟩

/-- A reset that starts the generations over. -/
theorem Since.restart (hc : c.Restartable) (hgone : ∀ e ∈ c.generation, e.current c.clock = false) :
    (c.apply .retire).Reign (fun _ => 0) 1 (c.clock + lockoutGenerationTTL) := by
  have hdead := hc hgone
  have hle : c.clock + lockoutDuration ≤ c.clock + lockoutGenerationTTL := by
    have : lockoutDuration ≤ lockoutGenerationTTL := by decide
    lia
  refine ⟨?_, ?_, Nat.one_pos, ?_, ?_, ?_⟩
  · show some (c.generation.bump c.clock lockoutGenerationTTL) = _
    rw [bump_fresh hgone]
    rfl
  · show c.clock ≤ c.clock + lockoutGenerationTTL
    have : (0 : ℤ) ≤ lockoutGenerationTTL := by decide
    lia
  · exact fun ip => le_of_eq (hdead ip 1 Nat.one_ne_zero)
  · exact fun ip g' hlt => hdead ip g' (by omega)
  · exact fun ip => (h.expires ip 0).mono hle

theorem Since.retire (hc : c.Restartable) : (c.apply .retire).Since (Op.retire.since n) := by
  refine ⟨h.expires, .inl ?_⟩
  rcases h.addressed with ⟨g, ends, hreign⟩ | hgap
  · by_cases hlt : c.clock < ends
    · -- the reign goes on under the next generation, which has nothing under it yet
      have hcurrent : MemEntry.current ⟨CacheValue.count g, some ends⟩ c.clock := decide_eq_true hlt
      refine ⟨g + 1, ends, ?_, hreign.inForce, Nat.succ_pos g, ?_, ?_, hreign.zero⟩
      · show some (c.generation.bump c.clock lockoutGenerationTTL) = _
        rw [hreign.generation, bump_current hcurrent]
        rfl
      · exact fun ip => le_of_eq (hreign.ahead ip (g + 1) (Nat.lt_succ_self g))
      · exact fun ip g' hg' => hreign.ahead ip g' (by omega)
    · refine ⟨1, _, h.restart hc fun e he => ?_⟩
      rw [hreign.generation] at he
      obtain rfl := Option.some.inj he
      exact decide_eq_false hlt
  · refine ⟨1, _, h.restart hc fun e he => ?_⟩
    by_contra hcurrent
    have hlive := e.not_expired_of_current (Bool.of_not_eq_false hcurrent)
    rw [hgap.generation e he] at hlive
    cases hlive

theorem Since.tick (d : ℕ) : (c.apply (.tick d)).Since n := by
  have hle : c.clock ≤ c.clock + d := c.clock_le_apply (.tick d)
  have hcount : ∀ ip g, (c.source ip g).count (c.clock + d) ≤ (c.source ip g).count c.clock :=
    fun ip g => count_anti hle
  refine ⟨fun ip g => (h.expires ip g).mono ?_, ?_⟩
  · show c.clock + lockoutDuration ≤ c.clock + d + lockoutDuration
    lia
  rcases h.addressed with ⟨g, ends, hreign⟩ | hgap
  · by_cases hin : c.clock + d ≤ ends
    · refine .inl ⟨g, ends, hreign.generation, hin, hreign.positive, ?_, ?_, hreign.zero⟩
      · exact fun ip => le_trans (hcount ip g) (hreign.now ip)
      · exact fun ip g' hlt => Nat.le_zero.mp (hreign.ahead ip g' hlt ▸ hcount ip g')
    · -- the reign is over, and with it every counter of generation zero
      have hover : ends < c.clock + d := not_le.mp hin
      refine .inr ⟨fun e he => ?_, fun ip => ?_⟩
      · obtain rfl := Option.mem_unique hreign.generation he
        exact decide_eq_true hover
      · show (c.source ip 0).count (c.clock + d) ≤ n ip
        rw [(hreign.zero ip).count_eq_zero hover]
        exact Nat.zero_le _
  · refine .inr ⟨fun e he => e.expired_mono hle (hgap.generation e he), fun ip => ?_⟩
    exact le_trans (hcount ip 0) (hgap.now ip)

theorem Since.sweep : (c.apply .sweep).Since n := by
  have hcount : ∀ ip g, ((c.apply .sweep).source ip g).count c.clock =
      (c.source ip g).count c.clock := fun ip g => count_swept le_rfl
  refine ⟨fun ip g => (h.expires ip g).swept, ?_⟩
  rcases h.addressed with ⟨g, ends, hreign⟩ | hgap
  · refine .inl ⟨g, ends, ?_, hreign.inForce, hreign.positive, ?_, ?_, ?_⟩
    · show c.generation.swept c.clock = _
      rw [hreign.generation]
      exact swept_some (decide_eq_false (not_lt.mpr hreign.inForce))
    · exact fun ip => (hcount ip g).trans_le (hreign.now ip)
    · exact fun ip g' hlt => (hcount ip g').trans (hreign.ahead ip g' hlt)
    · exact fun ip => (hreign.zero ip).swept
  · refine .inr ⟨fun e he => hgap.generation e (Option.mem_filter_iff.mp he).1, fun ip => ?_⟩
    exact (hcount ip 0).trans_le (hgap.now ip)

/-- **Every operation keeps the count**, a reset on condition that the generations can start
over. -/
theorem Since.step {op : Op} (hc : op = .retire → c.Restartable) :
    (c.apply op).Since (op.since n) := by
  cases op with
  | idle => exact h
  | fail ip => exact h.fail ip
  | clear ip => exact h.clear ip
  | retire => exact h.retire (hc rfl)
  | tick d => exact h.tick d
  | sweep => exact h.sweep

end

/-- Nothing has been counted against the account. -/
def Blank (c : Counters) : Prop :=
  c.generation = none ∧ c.account = none ∧ ∀ ip g, c.source ip g = none

theorem Blank.since (h : c.Blank) : c.Since fun _ => 0 := by
  obtain ⟨hgen, -, hsource⟩ := h
  refine ⟨fun ip g => ?_, .inr ⟨fun e he => ?_, fun ip => ?_⟩⟩
  · rw [hsource]
    exact nofun
  · rw [hgen] at he
    cases he
  · rw [hsource]
    exact le_rfl

/-- Right after a reset no source is locked out. -/
theorem Since.not_locked_retire (h : c.Since n) (hc : c.Restartable) (ip : IPAddr) :
    (c.apply .retire).locked ip = false := by
  have hzero : (c.apply .retire).standing ip = 0 :=
    Nat.le_zero.mp ((h.retire hc).standing_le ip)
  have haccount : (c.apply .retire).account.count (c.apply .retire).clock = 0 := rfl
  unfold locked
  rw [hzero, haccount]
  rfl

end Counters

end Vault42
