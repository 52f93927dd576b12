import Vault42.Framework.System

/-!
# A service with something added to it

A result about a service is often about what happens when somebody else works on the same
components: an operator's tool, a background job, a second service over one database. `System.annex`
puts such an addition beside a service that exists. Its requests are served by programs that may
call the components of the service and some of their own, and it keeps a state of its own beside the
service's world; the requests of the service are served by the programs they had.

The signature of the whole is the sum of the two, and a program of the service is read over it by
`Program.inl`. What such a program keeps to is not proved again: `lefts` picks the service's part
out of a conversation, and `Obeys.inl` says that a program that keeps to a discipline of the whole
past keeps to it on that part. `Reachable.allows_inl` and `Reachable.ends_inl` are what an invariant
of the whole uses.
-/

namespace Framework

/-! ### The sum of two signatures -/

/-- What a call of either signature is answered with. -/
abbrev Signature.SumReply (S T : Signature) : S.Call ⊕ T.Call → Type
  | .inl c => S.Reply c
  | .inr c => T.Reply c

/-- The calls of two signatures, side by side. -/
abbrev Signature.sum (S T : Signature) : Signature := ⟨S.Call ⊕ T.Call, S.SumReply T⟩

variable {S T : Signature}

namespace Program

variable {α β : Type}

/-- A program over the first signature, read over the sum. -/
def inl : Program S α → Program (S.sum T) α
  | ret a => ret a
  | call c k => call (.inl c) fun r => (k r).inl

end Program

/-! ### The service's part of a conversation -/

/-- The exchanges of a conversation that belong to the first signature. -/
def lefts : List (Event (S.sum T)) → List (Event S)
  | [] => []
  | ⟨.inl c, r⟩ :: φ => ⟨c, r⟩ :: lefts φ
  | ⟨.inr _, _⟩ :: φ => lefts φ

@[simp] theorem lefts_nil : lefts ([] : List (Event (S.sum T))) = [] := rfl

@[simp] theorem lefts_inl (c : S.Call) (r : S.Reply c) (φ : List (Event (S.sum T))) :
    lefts (⟨.inl c, r⟩ :: φ) = ⟨c, r⟩ :: lefts φ := rfl

@[simp] theorem lefts_inr (c : T.Call) (r : T.Reply c) (φ : List (Event (S.sum T))) :
    lefts (⟨.inr c, r⟩ :: φ) = lefts φ := rfl

@[simp] theorem mem_lefts {c : S.Call} {r : S.Reply c} {φ : List (Event (S.sum T))} :
    ⟨c, r⟩ ∈ lefts φ ↔ ⟨.inl c, r⟩ ∈ φ := by
  induction φ with
  | nil => simp
  | cons e φ ih =>
    obtain ⟨c' | c', r'⟩ := e
    · rw [lefts_inl, List.mem_cons, List.mem_cons, ih]
      refine or_congr ⟨fun h => ?_, fun h => ?_⟩ Iff.rfl
      · cases h
        rfl
      · cases h
        rfl
    · rw [lefts_inr, List.mem_cons, ih]
      refine ⟨.inr, fun h => h.resolve_left ?_⟩
      rintro ⟨⟩

/-- A rule about the calls of the first signature, by what was said in its terms. It allows no other
call. -/
def onLeft (Allows : List (Event S) → S.Call → Prop) (φ : List (Event (S.sum T))) :
    (S.sum T).Call → Prop
  | .inl c => Allows (lefts φ) c
  | .inr _ => False

/-- **A program keeps to a rule when it is read over the sum.** -/
theorem Program.Obeys.inl {α : Type} {Allows : List (Event S) → S.Call → Prop}
    {Q : List (Event S) → α → Prop} {p : Program S α} {φ : List (Event (S.sum T))}
    (hp : p.Obeys (.history Allows) Q (lefts φ)) :
    p.inl.Obeys (.history (onLeft Allows)) (fun ψ a => Q (lefts ψ) a) φ := by
  induction p generalizing φ with
  | ret => exact hp
  | call c k ih => exact ⟨hp.1, fun r _ => ih r (hp.2 r trivial)⟩

/-- Where every call of the first signature is allowed, a program over it ends wherever it can
lead. -/
theorem Program.obeys_inl {α : Type} {Allows : List (Event (S.sum T)) → (S.sum T).Call → Prop}
    (h : ∀ φ c, Allows φ (.inl c)) (p : Program S α) (φ : List (Event (S.sum T))) :
    p.inl.Obeys (.history Allows) (fun ψ a => p.inl.Leads φ a ψ) φ := by
  induction p generalizing φ with
  | ret => exact ⟨rfl, rfl⟩
  | call c k ih =>
    refine ⟨h φ c, fun r _ => ?_⟩
    exact (ih r (⟨.inl c, r⟩ :: φ)).mono fun ψ a hlead => ⟨r, hlead⟩

/-! ### The service and the addition -/

/-- **An addition to a service**: requests served by programs that may also call the service's
components, and a state beside its world. -/
structure Annex (M : System S) (T : Signature) where
  /-- The state of the components the service does not have. -/
  State : Type
  Req : Type
  Result : Type
  program : Req → Program (S.sum T) Result
  /-- How a call of thread `t` to the added components is answered. -/
  answer : ℕ → (c : T.Call) → M.World × State → T.Reply c × (M.World × State)
  blocked : ℕ → T.Call → M.World × State → Bool
  Fault : (c : T.Call) → T.Reply c → Prop
  Nudge : Type
  nudge : Nudge → M.World × State → M.World × State

/-- **The service with the addition.** -/
abbrev System.annex (M : System S) (A : Annex M T) : System (S.sum T) where
  World := M.World × A.State
  Req := M.Req ⊕ A.Req
  Result := M.Result ⊕ A.Result
  program
    | .inl r => (M.program r).inl >>= fun a => .ret (.inl a)
    | .inr r => A.program r >>= fun a => .ret (.inr a)
  answer t
    | .inl c, w => ((M.answer t c w.1).1, (M.answer t c w.1).2, w.2)
    | .inr c, w => A.answer t c w
  blocked t
    | .inl c, w => M.blocked t c w.1
    | .inr c, w => A.blocked t c w
  Fault
    | .inl c, r => M.Fault c r
    | .inr c, r => A.Fault c r
  Nudge := M.Nudge ⊕ A.Nudge
  nudge
    | .inl n, w => (M.nudge n w.1, w.2)
    | .inr n, w => A.nudge n w

section Annex

variable {M : System S} {A : Annex M T} {Init : (M.annex A).World → Prop}
  {ok : Config (M.annex A) → Label (M.annex A) → Prop} {c : Config (M.annex A)}
  {Allows : List (Event S) → S.Call → Prop} {Q : List (Event S) → M.Result → Prop}

/-- The program of a service's request keeps to what it kept to. -/
theorem program_inl {r : M.Req} (hp : (M.program r).Obeys (.history Allows) Q []) :
    ((M.annex A).program (.inl r)).Obeys (.history (onLeft Allows))
      (fun ψ a => ∃ b, a = .inl b ∧ Q (lefts ψ) b) [] :=
  (Program.Obeys.inl hp).bind fun _ b hb => ⟨b, rfl, hb⟩

/-- A call that a request of the service waits on is one of the service, and one its program may
make. -/
theorem Reachable.allows_inl (hc : Reachable Init ok c) {t : ℕ} {th : Thread (M.annex A)}
    (hth : c.threads[t]? = some th) {r : M.Req} (hreq : th.req = .inl r)
    (hp : (M.program r).Obeys (.history Allows) Q []) {cl : (S.sum T).Call}
    (hpend : th.pending = some cl) : ∃ cl', cl = .inl cl' ∧ Allows (lefts th.past) cl' := by
  have hprog : ((M.annex A).program th.req).Obeys (.history (onLeft Allows))
      (fun ψ a => ∃ b, a = .inl b ∧ Q (lefts ψ) b) [] := by
    rw [hreq]
    exact program_inl hp
  have hallows := hc.allows_history hth hprog hpend
  cases cl with
  | inl cl' => exact ⟨cl', rfl, hallows⟩
  | inr => exact hallows.elim

/-- What it has finished with is a result of the service. -/
theorem Reachable.ends_inl (hc : Reachable Init ok c) {t : ℕ} {th : Thread (M.annex A)}
    (hth : c.threads[t]? = some th) {r : M.Req} (hreq : th.req = .inl r)
    (hp : (M.program r).Obeys (.history Allows) Q []) {v : M.Result ⊕ A.Result}
    (hres : th.result = some v) : ∃ v', v = .inl v' ∧ Q (lefts th.past) v' := by
  have hprog : ((M.annex A).program th.req).Obeys (.history (onLeft Allows))
      (fun ψ a => ∃ b, a = .inl b ∧ Q (lefts ψ) b) [] := by
    rw [hreq]
    exact program_inl hp
  exact hc.ends_history hth hprog hres

end Annex

end Framework
