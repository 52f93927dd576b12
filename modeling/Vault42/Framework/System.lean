import Vault42.Framework.Program

/-!
# Interleaved programs over one world

A `System` is a service as its components see it: requests arrive at any time, each one is served
by a program of its own, and the calls of all the programs in flight are answered, one at a time and
in any order, from one shared world. Between two calls of a program any number of calls of others
can happen, a program can be abandoned for good after any of its calls, and the world can move by
itself (`System.nudge`: its clock, or data the service does not own). A component may also refuse a
call: it then gives a reply out of `System.Fault` and the world stays as it was.

A `Step` carries a `Label`, and a `Run` is a sequence of steps each of which satisfies a guard
`ok : Config → Label → Prop`. The guard is how a result says which schedules it speaks about; the
guard `fun _ _ => True` is every schedule.

Main results:

* `Keeps.reachable`, the invariant rule. It asks for an invariant of the world and of the *phases*
  of the threads under a `Discipline`, and lets every obligation use that the call being answered is
  one the discipline allows. The programs themselves enter only through `Obeys`, once each.
* `Step.thread`: what a step does to one thread; `Reachable.obeys`: each thread keeps to what its
  own program keeps to; `Reachable.told`: whatever a thread was told, some world of the run told it.
* `exec_sound`, `execAll_sound`: a schedule that is a list of labels can be evaluated, and what the
  evaluation reaches, a run reaches.
-/

namespace Framework

open List Option

/-- **A service.** The programs that serve its requests and the world their calls are answered
from. -/
structure System (S : Signature) where
  /-- The state of the shared components. -/
  World : Type
  Req : Type
  /-- What serving a request returns. -/
  Result : Type
  program : Req → Program S Result
  /-- How a call of thread `t` is answered, and what it does to the world. -/
  answer : ℕ → (c : S.Call) → World → S.Reply c × World
  /-- A call that has to wait: it cannot be answered in this world. -/
  blocked : ℕ → S.Call → World → Bool
  /-- The replies with which a call can fail without effect. -/
  Fault : (c : S.Call) → S.Reply c → Prop
  /-- The moves the world makes by itself. -/
  Nudge : Type
  nudge : Nudge → World → World

variable {S : Signature}

/-- A request being served: what is left of its program, and its conversation so far, the latest
exchange first. -/
structure Thread (M : System S) where
  req : M.Req
  rest : Program S M.Result
  past : List (Event S)

/-- A service at one moment. Threads are numbered in order of arrival and never removed. -/
structure Config (M : System S) where
  world : M.World
  threads : List (Thread M)

/-- What a step is: a request arrives, a thread's call is answered, a thread's call fails, the world
moves by itself. -/
inductive Label (M : System S) where
  | spawn (r : M.Req)
  | act (t : ℕ)
  | fault (t : ℕ)
  | nudge (n : M.Nudge)

variable {M : System S}

namespace Thread

/-- The thread that is about to serve a request. -/
def fresh (r : M.Req) : Thread M := ⟨r, M.program r, []⟩

/-- The call a thread is waiting on, if it has not finished. -/
def pending (th : Thread M) : Option S.Call :=
  match th.rest with
  | .ret _ => none
  | .call c _ => some c

def result (th : Thread M) : Option M.Result :=
  match th.rest with
  | .ret a => some a
  | .call _ _ => none

def resume (th : Thread M) (c : S.Call) (r : S.Reply c) (rest : Program S M.Result) : Thread M :=
  { th with rest := rest, past := ⟨c, r⟩ :: th.past }

variable {th : Thread M} {cl : S.Call}

theorem pending_of_call {k : S.Reply cl → Program S M.Result} (h : th.rest = .call cl k) :
    th.pending = some cl := by
  rw [pending, h]

theorem rest_of_pending (h : th.pending = some cl) : ∃ k, th.rest = .call cl k := by
  unfold pending at h
  split at h
  · cases h
  next cl' k hrest =>
    cases h
    exact ⟨k, hrest⟩

theorem result_eq_none (h : th.pending = some cl) : th.result = none := by
  obtain ⟨k, hrest⟩ := rest_of_pending h
  rw [result, hrest]

theorem rest_of_result {a : M.Result} (h : th.result = some a) : th.rest = .ret a := by
  unfold result at h
  split at h
  next b hrest => rw [hrest, Option.some.inj h]
  · cases h

theorem exists_result (h : th.pending = none) : ∃ a, th.result = some a := by
  unfold pending at h
  split at h
  next a hrest => exact ⟨a, by simp [result, hrest]⟩
  · cases h

end Thread

namespace Config

/-- The call thread `t` is waiting on. -/
def pending (c : Config M) (t : ℕ) : Option S.Call := c.threads[t]?.bind Thread.pending

theorem pending_eq {c : Config M} {t : ℕ} {th : Thread M} (h : c.threads[t]? = some th) :
    c.pending t = th.pending := by
  rw [pending, h, bind_some]

/-- The `i`-th latest exchange of thread `t`. -/
def exchange (c : Config M) (t i : ℕ) : Option (Event S) :=
  c.threads[t]?.bind fun th => th.past[i]?

theorem exchange_eq_some {c : Config M} {t i : ℕ} {e : Event S} (h : c.exchange t i = some e) :
    ∃ th, c.threads[t]? = some th ∧ th.past[i]? = some e :=
  bind_eq_some_iff.mp h

/-- The phases of all threads under a discipline, beside the requests they serve. -/
def phases (c : Config M) (D : Discipline S) : List (M.Req × D.Phase) :=
  c.threads.map fun th => (th.req, D.phase th.past)

theorem phases_getElem? (c : Config M) (D : Discipline S) {t : ℕ} {th : Thread M}
    (h : c.threads[t]? = some th) : (c.phases D)[t]? = some (th.req, D.phase th.past) := by
  simp only [phases, getElem?_map, h, map_some]

end Config

/-- **One step of the service.** -/
inductive Step : Config M → Label M → Config M → Prop where
  | spawn (c : Config M) (r : M.Req) :
      Step c (.spawn r) { c with threads := c.threads ++ [.fresh r] }
  | act {c : Config M} {t : ℕ} {th : Thread M} {cl : S.Call} {k : S.Reply cl → Program S M.Result}
      (hth : c.threads[t]? = some th) (hrest : th.rest = .call cl k)
      (hfree : M.blocked t cl c.world = false) :
      Step c (.act t)
        { world := (M.answer t cl c.world).2
          threads := c.threads.set t
            (th.resume cl (M.answer t cl c.world).1 (k (M.answer t cl c.world).1)) }
  | fault {c : Config M} {t : ℕ} {th : Thread M} {cl : S.Call}
      {k : S.Reply cl → Program S M.Result} {r : S.Reply cl}
      (hth : c.threads[t]? = some th) (hrest : th.rest = .call cl k) (hr : M.Fault cl r) :
      Step c (.fault t) { c with threads := c.threads.set t (th.resume cl r (k r)) }
  | nudge (c : Config M) (n : M.Nudge) : Step c (.nudge n) { c with world := M.nudge n c.world }

/-- **A run** from one configuration to another, all of whose steps satisfy the guard. -/
inductive Run (ok : Config M → Label M → Prop) : Config M → Config M → Prop where
  | refl (c : Config M) : Run ok c c
  | snoc {c c' c'' : Config M} {l : Label M} :
      Run ok c c' → ok c' l → Step c' l c'' → Run ok c c''

/-- Reachable from an initial world, before any request has arrived, by a run that satisfies the
guard. -/
def Reachable (Init : M.World → Prop) (ok : Config M → Label M → Prop) (c : Config M) : Prop :=
  ∃ w, Init w ∧ Run ok ⟨w, []⟩ c

/-- The guard that every step satisfies. -/
def anyStep : Config M → Label M → Prop := fun _ _ => True

variable {ok : Config M → Label M → Prop} {c c' : Config M}

theorem Run.trans {c'' : Config M} (h : Run ok c c') (h' : Run ok c' c'') : Run ok c c'' := by
  induction h' with
  | refl => exact h
  | snoc _ hok hs ih => exact ih.snoc hok hs

variable {ok' : Config M → Label M → Prop}

theorem Run.mono (h : ∀ c l, ok c l → ok' c l) (hr : Run ok c c') : Run ok' c c' := by
  induction hr with
  | refl => exact .refl _
  | snoc _ hok hs ih => exact ih.snoc (h _ _ hok) hs

variable {Init : M.World → Prop}

theorem Reachable.mono (h : ∀ c l, ok c l → ok' c l) (hc : Reachable Init ok c) :
    Reachable Init ok' c := by
  obtain ⟨w, hw, hr⟩ := hc
  exact ⟨w, hw, hr.mono h⟩

theorem Reachable.weaken {Init' : M.World → Prop} (h : ∀ w, Init w → Init' w)
    (hc : Reachable Init ok c) : Reachable Init' ok c := by
  obtain ⟨w, hw, hr⟩ := hc
  exact ⟨w, h w hw, hr⟩

theorem Reachable.unguarded (hc : Reachable Init ok c) : Reachable Init anyStep c :=
  hc.mono fun _ _ _ => trivial

/-- **Induction over reachable configurations**, with the earlier configuration known to be
reachable in every step. -/
theorem Reachable.induct {P : Config M → Prop} (hinit : ∀ w, Init w → P ⟨w, []⟩)
    (hstep : ∀ c l c', Reachable Init ok c → P c → ok c l → Step c l c' → P c')
    (hc : Reachable Init ok c) : P c := by
  obtain ⟨w, hw, hr⟩ := hc
  induction hr with
  | refl => exact hinit w hw
  | snoc hprev hok hs ih => exact hstep _ _ _ ⟨w, hw, hprev⟩ ih hok hs

/-! ### What a step does to a thread -/

section Lists

variable {α : Type} {l : List α} {i j : ℕ} {a b : α}

theorem getElem?_set_cases (h : (l.set i a)[j]? = some b) :
    j = i ∧ b = a ∨ j ≠ i ∧ l[j]? = some b := by
  rw [getElem?_set] at h
  split at h
  next hij =>
    split at h
    · exact .inl ⟨hij.symm, (some.inj h).symm⟩
    · cases h
  next hij => exact .inr ⟨Ne.symm hij, h⟩

theorem getElem?_snoc_cases (h : (l ++ [a])[j]? = some b) :
    l[j]? = some b ∨ j = l.length ∧ b = a := by
  rw [getElem?_append] at h
  split at h
  · exact .inl h
  · rw [getElem?_singleton] at h
    split at h
    · exact .inr ⟨by omega, (some.inj h).symm⟩
    · cases h

end Lists

variable {t : ℕ} {l : Label M}

/-- **A thread after a step** is one that was there, one that has just arrived, or one that has just
been told the reply to its call: the answer, or a failure. -/
theorem Step.thread (h : Step c l c') {th' : Thread M} (hth' : c'.threads[t]? = some th') :
    c.threads[t]? = some th' ∨ (∃ r, l = .spawn r ∧ t = c.threads.length ∧ th' = .fresh r) ∨
      ∃ th cl k r, c.threads[t]? = some th ∧ th.rest = .call cl k ∧ th' = th.resume cl r (k r) ∧
        (l = .act t ∧ r = (M.answer t cl c.world).1 ∨ l = .fault t ∧ M.Fault cl r) := by
  cases h with
  | spawn r =>
    rcases getElem?_snoc_cases hth' with hold | ⟨ht, rfl⟩
    · exact .inl hold
    · exact .inr (.inl ⟨r, rfl, ht, rfl⟩)
  | act hth hrest =>
    rcases getElem?_set_cases hth' with ⟨rfl, rfl⟩ | ⟨-, hold⟩
    · exact .inr (.inr ⟨_, _, _, _, hth, hrest, rfl, .inl ⟨rfl, rfl⟩⟩)
    · exact .inl hold
  | fault hth hrest hr =>
    rcases getElem?_set_cases hth' with ⟨rfl, rfl⟩ | ⟨-, hold⟩
    · exact .inr (.inr ⟨_, _, _, _, hth, hrest, rfl, .inr ⟨rfl, hr⟩⟩)
    · exact .inl hold
  | nudge => exact .inl hth'

variable {cl : S.Call} {r : S.Reply cl}

/-- **What a thread has been told after a step** it had been told before, or it was waiting on that
call and has just been told: the answer, or a failure. -/
theorem Step.said (h : Step c l c') {th' : Thread M} (hth' : c'.threads[t]? = some th')
    (hmem : ⟨cl, r⟩ ∈ th'.past) :
    ∃ th, c.threads[t]? = some th ∧ th.req = th'.req ∧ (⟨cl, r⟩ ∈ th.past ∨ th.pending = some cl ∧
      (l = .act t ∧ r = (M.answer t cl c.world).1 ∨ l = .fault t ∧ M.Fault cl r)) := by
  rcases h.thread hth' with hold | ⟨req, -, -, rfl⟩ | ⟨th, cl', k, r', hth, hrest, rfl, hreply⟩
  · exact ⟨th', hold, rfl, .inl hmem⟩
  · cases hmem
  · rcases mem_cons.mp hmem with heq | hmem
    · cases heq
      exact ⟨th, hth, rfl, .inr ⟨Thread.pending_of_call hrest, hreply⟩⟩
    · exact ⟨th, hth, rfl, .inl hmem⟩

variable {th : Thread M}

/-- A call that was answered did not have to wait, and has left the world as the answer says. -/
theorem Step.answered (h : Step c (.act t) c') (hth : c.threads[t]? = some th)
    (hpend : th.pending = some cl) :
    M.blocked t cl c.world = false ∧ c'.world = (M.answer t cl c.world).2 := by
  cases h with
  | @act _ th₁ cl₁ k hth₁ hrest hfree =>
    obtain rfl := mem_unique hth hth₁
    rw [Thread.pending, hrest] at hpend
    obtain rfl : cl₁ = cl := some.inj hpend
    exact ⟨hfree, rfl⟩

/-- What a step that answers a call of thread `t` is. -/
theorem Step.of_act (h : Step c (.act t) c') :
    ∃ th cl k, c.threads[t]? = some th ∧ th.rest = .call cl k ∧
      c'.world = (M.answer t cl c.world).2 ∧
      c'.threads[t]? =
        some (th.resume cl (M.answer t cl c.world).1 (k (M.answer t cl c.world).1)) := by
  cases h with
  | @act _ th cl k hth hrest =>
    exact ⟨th, cl, k, hth, hrest, rfl,
      List.getElem?_set_self (List.getElem?_eq_some_iff.mp hth).1⟩

/-- **What becomes of a thread in a step**: it is as it was, or it was waiting on a call and is told
the reply. -/
theorem Step.onward (h : Step c l c') (hth : c.threads[t]? = some th) :
    c'.threads[t]? = some th ∨ ∃ cl k r, th.rest = .call cl k ∧
      c'.threads[t]? = some (th.resume cl r (k r)) ∧
      (r = (M.answer t cl c.world).1 ∧ c'.world = (M.answer t cl c.world).2 ∨
        M.Fault cl r ∧ c'.world = c.world) := by
  have hlt := (List.getElem?_eq_some_iff.mp hth).1
  cases h with
  | spawn => exact .inl ((List.getElem?_append_left hlt).trans hth)
  | @act u tu cl k htu hrest =>
    by_cases hut : u = t
    · subst hut
      obtain rfl := mem_unique hth htu
      exact .inr ⟨cl, k, _, hrest, List.getElem?_set_self hlt, .inl ⟨rfl, rfl⟩⟩
    · exact .inl ((getElem?_set_ne hut).trans hth)
  | @fault u tu cl k r htu hrest hr =>
    by_cases hut : u = t
    · subst hut
      obtain rfl := mem_unique hth htu
      exact .inr ⟨cl, k, r, hrest, List.getElem?_set_self hlt, .inr ⟨hr, rfl⟩⟩
    · exact .inl ((getElem?_set_ne hut).trans hth)
  | nudge => exact .inl hth

theorem Step.finished (h : Step c l c') (hth : c.threads[t]? = some th)
    (hres : th.result.isSome) : c'.threads[t]? = some th := by
  rcases h.onward hth with hth' | ⟨cl, k, r, hrest, -⟩
  · exact hth'
  · rw [Thread.result, hrest] at hres
    cases hres

theorem Run.finished (h : Run ok c c') (hth : c.threads[t]? = some th)
    (hres : th.result.isSome) : c'.threads[t]? = some th := by
  induction h with
  | refl => exact hth
  | snoc _ _ hs ih => exact hs.finished ih hres

/-- **A thread only ever adds to its conversation**, and serves one request. -/
theorem Step.past (h : Step c l c') (hth : c.threads[t]? = some th) :
    ∃ th', c'.threads[t]? = some th' ∧ th'.req = th.req ∧ th.past <:+ th'.past := by
  rcases h.onward hth with hth' | ⟨cl, k, r, -, hth', -⟩
  · exact ⟨th, hth', rfl, suffix_refl _⟩
  · exact ⟨_, hth', rfl, suffix_cons _ _⟩

theorem Run.past (h : Run ok c c') (hth : c.threads[t]? = some th) :
    ∃ th', c'.threads[t]? = some th' ∧ th'.req = th.req ∧ th.past <:+ th'.past := by
  induction h with
  | refl => exact ⟨th, hth, rfl, suffix_refl _⟩
  | snoc _ _ hs ih =>
    obtain ⟨th₁, hth₁, hreq₁, hsuf₁⟩ := ih
    obtain ⟨th₂, hth₂, hreq₂, hsuf₂⟩ := hs.past hth₁
    exact ⟨th₂, hth₂, hreq₂.trans hreq₁, hsuf₁.trans hsuf₂⟩

theorem Reachable.run (hc : Reachable Init ok c) (hr : Run ok c c') : Reachable Init ok c' := by
  obtain ⟨w, hw, h⟩ := hc
  exact ⟨w, hw, h.trans hr⟩

variable {D : Discipline S} {Q : D.Phase → M.Result → Prop}

/-- A thread keeps to every discipline that the program of its request keeps to, when the discipline
admits the replies that such a request is given in the runs considered. The other threads need not
know it. -/
theorem Reachable.relies {req : M.Req}
    (hact : ∀ c t th cl, Reachable Init ok c → ok c (.act t) → c.threads[t]? = some th →
      th.req = req → th.pending = some cl → D.Admits (D.phase th.past) cl (M.answer t cl c.world).1)
    (hfault : ∀ c t th cl r, Reachable Init ok c → ok c (.fault t) → c.threads[t]? = some th →
      th.req = req → th.pending = some cl → M.Fault cl r → D.Admits (D.phase th.past) cl r)
    (hp : (M.program req).Obeys D Q D.start) (hc : Reachable Init ok c)
    (hth : c.threads[t]? = some th) (hreq : th.req = req) :
    D.Conforms th.past ∧ th.rest.Obeys D Q (D.phase th.past) := by
  refine hc.induct (P := fun c => ∀ t th, c.threads[t]? = some th → th.req = req →
    D.Conforms th.past ∧ th.rest.Obeys D Q (D.phase th.past)) ?_ ?_ t th hth hreq
  · intro w _ t th hth
    cases hth
  · intro c l c' hc ih hok hs t th' hth' hreq
    rcases hs.thread hth' with hold | ⟨r, -, -, rfl⟩ | ⟨th, cl, k, r, hth, hrest, rfl, hreply⟩
    · exact ih t th' hold hreq
    · cases hreq
      exact ⟨trivial, hp⟩
    · obtain ⟨hpast, hob⟩ := ih t th hth hreq
      have hpend := Thread.pending_of_call hrest
      rw [hrest, Program.obeys_call] at hob
      have hr : D.Admits (D.phase th.past) cl r := by
        rcases hreply with ⟨rfl, rfl⟩ | ⟨rfl, hr⟩
        · exact hact c t th cl hc hok hth hreq hpend
        · exact hfault c t th cl r hc hok hth hreq hpend hr
      exact ⟨Discipline.conforms_cons.mpr ⟨hob.1, hr, hpast⟩, hob.2 r hr⟩

section Admitting

variable (hact : ∀ φ t c w, D.Admits φ c (M.answer t c w).1)
  (hfault : ∀ φ c r, M.Fault c r → D.Admits φ c r) (hc : Reachable Init ok c)
  (hth : c.threads[t]? = some th) (hp : (M.program th.req).Obeys D Q D.start)
include hact hfault hc hth hp

/-- The same when the discipline admits whatever the components can reply. -/
theorem Reachable.obeys :
    D.Conforms th.past ∧ th.rest.Obeys D Q (D.phase th.past) :=
  hc.relies (fun c t _ cl _ _ _ _ _ => hact _ t cl c.world)
    (fun _ _ _ cl r _ _ _ _ _ => hfault _ cl r)
    hp hth rfl

/-- So the call it is waiting on is one the discipline allows there. -/
theorem Reachable.allows (hpend : th.pending = some cl) : D.Allows (D.phase th.past) cl := by
  obtain ⟨-, hob⟩ := hc.obeys hact hfault hth hp
  obtain ⟨k, hrest⟩ := Thread.rest_of_pending hpend
  rw [hrest, Program.obeys_call] at hob
  exact hob.1

end Admitting

section History

variable {Allows : List (Event S) → S.Call → Prop} {Q : List (Event S) → M.Result → Prop}
  (hc : Reachable Init ok c) (hth : c.threads[t]? = some th)
  (hp : (M.program th.req).Obeys (.history Allows) Q [])
include hc hth hp

/-- The same for a discipline that remembers everything. -/
theorem Reachable.allows_history (hpend : th.pending = some cl) : Allows th.past cl := by
  have h := hc.allows (fun _ _ _ _ => trivial) (fun _ _ _ _ => trivial) hth hp hpend
  rw [Discipline.phase_history] at h
  exact h

/-- And what it has finished with is what the discipline promises of the whole conversation. -/
theorem Reachable.ends_history {v : M.Result} (hres : th.result = some v) : Q th.past v := by
  obtain ⟨-, hob⟩ := hc.obeys (fun _ _ _ _ => trivial) (fun _ _ _ _ => trivial) hth hp
  rw [Thread.rest_of_result hres, Discipline.phase_history] at hob
  exact hob

end History

/-- On a way to `c`, thread `t`, which serves `req`, was waiting on `cl` in some configuration, and
was told `r` there: the answer, or a failure. -/
def Told (Init : M.World → Prop) (ok : Config M → Label M → Prop) (c : Config M) (t : ℕ)
    (req : M.Req) (cl : S.Call) (r : S.Reply cl) : Prop :=
  ∃ d th, Reachable Init ok d ∧ Run ok d c ∧ d.threads[t]? = some th ∧ th.req = req ∧
    th.pending = some cl ∧
    (ok d (.act t) ∧ r = (M.answer t cl d.world).1 ∨ ok d (.fault t) ∧ M.Fault cl r)

/-- **An exchange was an exchange with some world of the run.** -/
theorem Reachable.told (hc : Reachable Init ok c) (hth : c.threads[t]? = some th)
    (hmem : ⟨cl, r⟩ ∈ th.past) : Told Init ok c t th.req cl r := by
  refine hc.induct (P := fun c => ∀ t th cl r, c.threads[t]? = some th →
    ⟨cl, r⟩ ∈ th.past → Told Init ok c t th.req cl r) ?_ ?_ t th cl r hth hmem
  · intro w _ t th cl r hth
    cases hth
  intro c l c' hreach ih hok hs t th' cl r hth' hmem
  -- an exchange of before the step
  have later : ∀ {req}, Told Init ok c t req cl r → Told Init ok c' t req cl r := by
    rintro req ⟨d, th, hd, hrun, hrest⟩
    exact ⟨d, th, hd, hrun.snoc hok hs, hrest⟩
  obtain ⟨th, hth, hreq, hmem | ⟨hpend, hreply⟩⟩ := hs.said hth' hmem
  · exact hreq ▸ later (ih t th cl r hth hmem)
  · refine ⟨c, th, hreach, .snoc (.refl c) hok hs, hth, hreq, hpend, ?_⟩
    rcases hreply with ⟨rfl, hr⟩ | ⟨rfl, hr⟩
    · exact .inl ⟨hok, hr⟩
    · exact .inr ⟨hok, hr⟩

/-- **What an answer to a thread establishes and every step keeps holds ever after**, of the thread
that got the answer. A step may use that the thread has it. -/
theorem Reachable.sinceThread {P : ℕ → Config M → Prop} {req : M.Req}
    (hstep : ∀ t c th l c', Reachable Init ok c → c.threads[t]? = some th → th.req = req →
      ⟨cl, r⟩ ∈ th.past → P t c → ok c l → Step c l c' → P t c')
    (hact : ∀ t c th c', Reachable Init ok c → c.threads[t]? = some th → th.req = req →
      th.pending = some cl → M.blocked t cl c.world = false → r = (M.answer t cl c.world).1 →
      ok c (.act t) → Step c (.act t) c' → c'.world = (M.answer t cl c.world).2 → P t c')
    (hfault : ¬ M.Fault cl r) (hc : Reachable Init ok c) (hth : c.threads[t]? = some th)
    (hreq : th.req = req) (hmem : ⟨cl, r⟩ ∈ th.past) : P t c := by
  refine hc.induct (P := fun c => ∀ t th, c.threads[t]? = some th → th.req = req →
    ⟨cl, r⟩ ∈ th.past → P t c) ?_ ?_ t th hth hreq hmem
  · intro w _ t th hth
    cases hth
  intro c l c' hc ih hok hs t th' hth' hreq hmem
  obtain ⟨th, hth, hsame, hmem | ⟨hpend, hreply⟩⟩ := hs.said hth' hmem
  · exact hstep t c th l c' hc hth (hsame.trans hreq) hmem
      (ih t th hth (hsame.trans hreq) hmem) hok hs
  rcases hreply with ⟨rfl, hr⟩ | ⟨-, hr⟩
  · exact hact t c th c' hc hth (hsame.trans hreq) hpend (hs.answered hth hpend).1 hr hok hs
      (hs.answered hth hpend).2
  · exact absurd hr hfault

/-- The same where it does not matter which thread got the answer. -/
theorem Reachable.since {P : Config M → Prop}
    (hstep : ∀ c l c', Reachable Init ok c → P c → ok c l → Step c l c' → P c')
    (hact : ∀ c t c', Reachable Init ok c → r = (M.answer t cl c.world).1 → ok c (.act t) →
      Step c (.act t) c' → c'.world = (M.answer t cl c.world).2 → P c') (hfault : ¬ M.Fault cl r)
    (hc : Reachable Init ok c) (hth : c.threads[t]? = some th) (hmem : ⟨cl, r⟩ ∈ th.past) : P c :=
  hc.sinceThread (fun _ c _ l c' hc _ _ _ => hstep c l c' hc)
    (fun t c _ c' hc _ _ _ _ => hact c t c' hc) hfault hth rfl hmem

/-- **What is stored was there from the start or was put there in some exchange**, when only that
exchange stores it. -/
theorem Reachable.stored {X : Type} (Holds : M.World → X → Prop) (put : X → Event S)
    (hact : ∀ t cl w x, Holds (M.answer t cl w).2 x →
      Holds w x ∨ put x = ⟨cl, (M.answer t cl w).1⟩)
    (hnudge : ∀ n w x, Holds (M.nudge n w) x → Holds w x) (hc : Reachable Init ok c) {x : X}
    (hx : Holds c.world x) :
    (∃ w, Init w ∧ Holds w x) ∨ ∃ (t : ℕ) (th : Thread M), c.threads[t]? = some th ∧
      put x ∈ th.past := by
  refine hc.induct (P := fun c => ∀ x, Holds c.world x →
    (∃ w, Init w ∧ Holds w x) ∨ ∃ (t : ℕ) (th : Thread M), c.threads[t]? = some th ∧
      put x ∈ th.past)
    ?_ ?_ x hx
  · exact fun w hw x hx => .inl ⟨w, hw, hx⟩
  intro c l c' _ ih _ hs x hx
  -- an exchange of before the step
  have before : Holds c.world x →
      (∃ w, Init w ∧ Holds w x) ∨ ∃ (t : ℕ) (th : Thread M), c'.threads[t]? = some th ∧
        put x ∈ th.past := by
    intro hx
    rcases ih x hx with hinit | ⟨t, th, hth, hput⟩
    · exact .inl hinit
    · obtain ⟨th', hth', -, hsuf⟩ := hs.past hth
      exact .inr ⟨t, th', hth', hsuf.subset hput⟩
  cases l with
  | spawn | fault =>
    cases hs
    exact before hx
  | nudge n =>
    cases hs
    exact before (hnudge n _ x hx)
  | act t =>
    obtain ⟨th, cl, k, hth, hrest, hworld, hth'⟩ := hs.of_act
    rw [hworld] at hx
    rcases hact t cl c.world x hx with hx | hput
    · exact before hx
    · refine .inr ⟨t, _, hth', ?_⟩
      rw [hput]
      exact mem_cons_self ..

/-! ### Threads and their phases -/

/-- Thread `t` is in phase `φ`. -/
def At {R P : Type} (ps : List (R × P)) (t : ℕ) (φ : P) : Prop := ∃ r, ps[t]? = some (r, φ)

section At

variable {R P : Type} {ps : List (R × P)} {t u : ℕ} {φ ψ : P} {r : R}

theorem not_at_nil : ¬ At ([] : List (R × P)) t φ := by
  rintro ⟨r, hr⟩
  cases hr

theorem At.unique (h : At ps t φ) (h' : At ps t ψ) : φ = ψ := by
  obtain ⟨r, hr⟩ := h
  obtain ⟨r', hr'⟩ := h'
  rw [hr] at hr'
  cases hr'
  rfl

/-- After one thread has changed its phase, a thread is that one or has the phase it had. -/
theorem At.of_set (h : At (ps.set t (r, φ)) u ψ) : u = t ∧ ψ = φ ∨ u ≠ t ∧ At ps u ψ := by
  obtain ⟨r', hr'⟩ := h
  rcases getElem?_set_cases hr' with ⟨hut, heq⟩ | ⟨hne, hold⟩
  · exact .inl ⟨hut, congrArg Prod.snd heq⟩
  · exact .inr ⟨hne, r', hold⟩

theorem At.set_self (h : At ps t ψ) : At (ps.set t (r, φ)) t φ := by
  obtain ⟨r', hr'⟩ := h
  have hlt : t < ps.length := (List.getElem?_eq_some_iff.mp hr').1
  exact ⟨r, by rw [List.getElem?_set_self hlt]⟩

theorem At.set_ne (h : At ps u ψ) (hne : u ≠ t) : At (ps.set t (r, φ)) u ψ := by
  obtain ⟨r', hr'⟩ := h
  exact ⟨r', by rw [getElem?_set_ne (Ne.symm hne)]; exact hr'⟩

theorem At.of_append (h : At (ps ++ [(r, φ)]) u ψ) : At ps u ψ ∨ u = ps.length ∧ ψ = φ := by
  obtain ⟨r', hr'⟩ := h
  rcases getElem?_snoc_cases hr' with hold | ⟨hu, heq⟩
  · exact .inl ⟨r', hold⟩
  · exact .inr ⟨hu, congrArg Prod.snd heq⟩

/-- A thread in another phase than the one that has just arrived was there before. -/
theorem At.of_snoc (h : At (ps ++ [(r, φ)]) u ψ) (hne : ψ ≠ φ) : At ps u ψ :=
  h.of_append.resolve_right fun h => hne h.2

theorem At.append (h : At ps u ψ) : At (ps ++ [(r, φ)]) u ψ := by
  obtain ⟨r', hr'⟩ := h
  exact ⟨r', by rw [List.getElem?_append_left (List.getElem?_eq_some_iff.mp hr').1]; exact hr'⟩

end At

/-! ### The invariant rule -/

section Rule

variable (Init : M.World → Prop) (ok : Config M → Label M → Prop) (D : Discipline S)
  (post : M.Req → D.Phase → M.Result → Prop)
  (I : M.World → List (M.Req × D.Phase) → Prop)

/-- **The obligations of an invariant** `I` of the world and the threads' phases. Every program
keeps to the discipline, `I` holds before the first request, and `I` survives each kind of step; a
step that answers a call also has to give a reply the discipline admits. -/
structure Keeps : Prop where
  program : ∀ r, (M.program r).Obeys D (post r) D.start
  init : ∀ w, Init w → I w []
  spawn : ∀ w ps r, I w ps → I w (ps ++ [(r, D.start)])
  act : ∀ c t th cl, Reachable Init ok c → I c.world (c.phases D) → c.threads[t]? = some th →
    th.pending = some cl → M.blocked t cl c.world = false → ok c (.act t) →
    D.Allows (D.phase th.past) cl →
    D.Admits (D.phase th.past) cl (M.answer t cl c.world).1 ∧
      I (M.answer t cl c.world).2
        ((c.phases D).set t (th.req, D.next (D.phase th.past) cl (M.answer t cl c.world).1))
  fault : ∀ c t th cl r, Reachable Init ok c → I c.world (c.phases D) → c.threads[t]? = some th →
    th.pending = some cl → M.Fault cl r → ok c (.fault t) → D.Allows (D.phase th.past) cl →
    D.Admits (D.phase th.past) cl r ∧
      I c.world ((c.phases D).set t (th.req, D.next (D.phase th.past) cl r))
  nudge : ∀ c n, Reachable Init ok c → I c.world (c.phases D) → ok c (.nudge n) →
    I (M.nudge n c.world) (c.phases D)

variable {Init ok D post I}

/-- Every thread has kept to the discipline so far, and keeps to it from the phase it has
reached. -/
def Disciplined (D : Discipline S) (post : M.Req → D.Phase → M.Result → Prop)
    (c : Config M) : Prop :=
  ∀ (t : ℕ) th, c.threads[t]? = some th →
    D.Conforms th.past ∧ th.rest.Obeys D (post th.req) (D.phase th.past)

theorem Disciplined.set (h : Disciplined D post c)
    (hth : D.Conforms th.past ∧ th.rest.Obeys D (post th.req) (D.phase th.past)) (w : M.World) :
    Disciplined D post { world := w, threads := c.threads.set t th } := by
  intro u tu hu
  rcases getElem?_set_cases hu with ⟨-, rfl⟩ | ⟨-, hold⟩
  · exact hth
  · exact h u tu hold

theorem phases_set (c : Config M) (D : Discipline S) (t : ℕ) (th : Thread M) (w : M.World) :
    Config.phases { world := w, threads := c.threads.set t th } D =
      (c.phases D).set t (th.req, D.phase th.past) := by
  simp only [Config.phases, map_set]

/-- **The invariant rule.** In every reachable configuration the invariant holds of the world and
the phases, and every thread still keeps to the discipline. -/
theorem Keeps.reachable (h : Keeps Init ok D post I)
    (hc : Reachable Init ok c) : I c.world (c.phases D) ∧ Disciplined D post c := by
  refine hc.induct (P := fun c => I c.world (c.phases D) ∧ Disciplined D post c) ?_ ?_
  · intro w hw
    exact ⟨h.init w hw, fun t th hth => by simp at hth⟩
  rintro c l c' hreach ⟨hI, hD⟩ hok hs
  cases hs with
  | spawn r =>
    refine ⟨?_, fun t th hth => ?_⟩
    · simpa [Config.phases, Thread.fresh] using h.spawn c.world (c.phases D) r hI
    · rcases getElem?_snoc_cases hth with hold | ⟨-, rfl⟩
      · exact hD t th hold
      · exact ⟨trivial, h.program r⟩
  | @act t th cl k hth hrest hfree =>
    obtain ⟨hpast, hob⟩ := hD t th hth
    rw [hrest, Program.obeys_call] at hob
    have hpend := Thread.pending_of_call hrest
    obtain ⟨hadm, hI'⟩ := h.act c t th cl hreach hI hth hpend hfree hok hob.1
    refine ⟨?_, hD.set ⟨Discipline.conforms_cons.mpr ⟨hob.1, hadm, hpast⟩, hob.2 _ hadm⟩ _⟩
    rw [phases_set]
    exact hI'
  | @fault t th cl k r hth hrest hr =>
    obtain ⟨hpast, hob⟩ := hD t th hth
    rw [hrest, Program.obeys_call] at hob
    have hpend := Thread.pending_of_call hrest
    obtain ⟨hadm, hI'⟩ := h.fault c t th cl r hreach hI hth hpend hr hok hob.1
    refine ⟨?_, hD.set ⟨Discipline.conforms_cons.mpr ⟨hob.1, hadm, hpast⟩, hob.2 _ hadm⟩ _⟩
    rw [phases_set]
    exact hI'
  | nudge n => exact ⟨h.nudge c n hreach hI hok, hD⟩

end Rule

/-- What an exchange establishes and nothing takes back holds of the thread's phase from then on. -/
theorem Disciplined.phase_of_exchange {post : M.Req → D.Phase → M.Result → Prop}
    (hD : Disciplined D post c) {P : D.Phase → Prop} (hP : D.Stable P) {i : ℕ}
    (hest : ∀ φ, D.Allows φ cl → P (D.next φ cl r)) (hth : c.threads[t]? = some th)
    (h : c.exchange t i = some ⟨cl, r⟩) : P (D.phase th.past) := by
  obtain ⟨th', hth', hi⟩ := Config.exchange_eq_some h
  obtain rfl := mem_unique hth hth'
  obtain ⟨hconf, -⟩ := hD t th hth
  obtain ⟨hallows, hphase⟩ := hconf.exchange hi
  have hPi : P (D.phase (th.past.drop i)) := by
    rw [hphase]
    exact hest _ hallows
  exact hconf.stable hP (Nat.zero_le i) hPi

/-! ### Evaluating a schedule -/

/-- The step a label names, when there is exactly one: calls are answered, never failed. -/
def exec (c : Config M) : Label M → Option (Config M)
  | .spawn r => some { c with threads := c.threads ++ [.fresh r] }
  | .act t =>
    match c.threads[t]? with
    | none => none
    | some th =>
      match th.rest with
      | .ret _ => none
      | .call cl k =>
        if M.blocked t cl c.world then none
        else
          some { world := (M.answer t cl c.world).2
                 threads := c.threads.set t
                   (th.resume cl (M.answer t cl c.world).1 (k (M.answer t cl c.world).1)) }
  | .fault _ => none
  | .nudge n => some { c with world := M.nudge n c.world }

/-- A whole schedule, as long as the test lets each step through. -/
def execAll (test : Config M → Label M → Bool) (c : Config M) : List (Label M) → Option (Config M)
  | [] => some c
  | l :: ls => if test c l then (exec c l).bind fun c' => execAll test c' ls else none

theorem exec_sound (h : exec c l = some c') : Step c l c' := by
  cases l with
  | spawn r =>
    cases h
    exact .spawn c r
  | act =>
    simp only [exec] at h
    split at h
    · cases h
    rename_i th hth
    split at h
    · cases h
    rename_i cl k hrest
    split at h
    · cases h
    rename_i hfree
    cases h
    exact .act hth hrest (by simpa using hfree)
  | fault => cases h
  | nudge n =>
    cases h
    exact .nudge c n

variable {test : Config M → Label M → Bool}

/-- What evaluating a schedule reaches, a run reaches. -/
theorem execAll_sound (htest : ∀ c l, test c l → ok c l) {c'' : Config M}
    {ls : List (Label M)} (hr : Run ok c c') (h : execAll test c' ls = some c'') :
    Run ok c c'' := by
  induction ls generalizing c' with
  | nil =>
    cases h
    exact hr
  | cons l ls ih =>
    rw [execAll] at h
    split at h
    next hl =>
      obtain ⟨d, hd, hrest⟩ := bind_eq_some_iff.mp h
      exact ih (hr.snoc (htest _ _ hl) (exec_sound hd)) hrest
    next hl => cases h

/-- A schedule that cannot be carried through leaves the configuration where it was; either way a
run leads to what the evaluation gives. -/
theorem run_execAll (htest : ∀ c l, test c l → ok c l) (c : Config M) (ls : List (Label M)) :
    Run ok c ((execAll test c ls).getD c) := by
  cases h : execAll test c ls with
  | none => exact .refl c
  | some => exact execAll_sound htest (.refl c) h

/-- Thread `t` is told the failure that `err` gives for its call. -/
def execFault (err : (cl : S.Call) → Option (S.Reply cl)) (c : Config M) (t : ℕ) :
    Option (Config M) :=
  match c.threads[t]? with
  | none => none
  | some th =>
    match th.rest with
    | .ret _ => none
    | .call cl k =>
      (err cl).map fun r => { c with threads := c.threads.set t (th.resume cl r (k r)) }

variable {err : (cl : S.Call) → Option (S.Reply cl)}

theorem execFault_sound (herr : ∀ cl r, err cl = some r → M.Fault cl r)
    (h : execFault err c t = some c') : Step c (.fault t) c' := by
  simp only [execFault] at h
  split at h
  · cases h
  rename_i th hth
  split at h
  · cases h
  rename_i cl k hrest
  obtain ⟨r, hr, rfl⟩ := map_eq_some_iff.mp h
  exact .fault hth hrest (herr cl r hr)

/-- A failure that cannot happen leaves the configuration where it was. -/
theorem run_execFault (herr : ∀ cl r, err cl = some r → M.Fault cl r) (c : Config M) (t : ℕ) :
    Run anyStep c ((execFault err c t).getD c) := by
  cases h : execFault err c t with
  | none => exact .refl c
  | some => exact .snoc (.refl c) trivial (execFault_sound herr h)

end Framework
