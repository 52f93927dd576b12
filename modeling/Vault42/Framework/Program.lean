import Mathlib.Data.List.Basic

/-!
# Effectful programs and typestate disciplines

A request handler is a *program*: a tree that alternates calls to shared components with pure
decisions on the replies. The calls are drawn from a `Signature`, which gives every call its reply
type, and nothing else about the components is known here: what a call answers, and what it does to
the shared world, is supplied later, either by one sequential interpreter (`Program.run`) or by the
interleaving semantics of `System.lean`.

Reasoning about a program that runs among others cannot follow one world from call to call, since
the world moves under it. What it can follow is the program's own conversation: which calls it has
made and what it was told. A `Discipline` is a typestate automaton over that conversation, and
`Program.Obeys` says that a program keeps to it whatever it is told.

Main declarations:

* `Program`, its monad structure and its laws, `Program.run` and `Program.run_bind`, and
  `Program.Exec`, the runs in which calls can fail;
* `Program.Within`: every call of the program lies in a given alphabet;
* `Discipline`, `Discipline.Conforms`, `Program.Obeys`, and the rules `Obeys.bind`, `Obeys.mono`
  and `obeys_perform`;
* `Within.obeys`: a program within an alphabet the discipline ignores leaves the phase alone;
* `Program.elaborate`: every call carried out by a program over another signature, and
  `Obeys.elaborate`, the rule for it;
* `Discipline.history`: the discipline whose phase is the whole conversation.
-/

namespace Framework

/-- **A signature of effects.** The calls a program can make to the components it shares with other
programs, and the type of reply each one gets. -/
structure Signature where
  Call : Type
  Reply : Call → Type

/-- **A program over a signature.** Either it has finished with a value, or it makes one call and
goes on with a continuation of the reply. -/
inductive Program (S : Signature) (α : Type) where
  | ret (a : α)
  | call (c : S.Call) (k : S.Reply c → Program S α)

/-- One exchange of a program with its environment: a call and the reply it got. -/
abbrev Event (S : Signature) := (c : S.Call) × S.Reply c

namespace Program

variable {S : Signature} {α β γ : Type}

/-- Sequencing: run `p`, then what `f` makes of its value. -/
def bind : Program S α → (α → Program S β) → Program S β
  | ret a, f => f a
  | call c k, f => call c fun r => (k r).bind f

instance : Monad (Program S) where
  pure := ret
  bind := bind

/-- The program that makes one call and returns the reply. -/
def perform (c : S.Call) : Program S (S.Reply c) := call c ret

@[simp] theorem pure_eq (a : α) : (pure a : Program S α) = ret a := rfl

@[simp] theorem call_bind (c : S.Call) (k : S.Reply c → Program S α) (f : α → Program S β) :
    call c k >>= f = call c fun r => k r >>= f := rfl

theorem bind_ret (p : Program S α) : p >>= ret = p := by
  induction p with
  | ret => rfl
  | call c k ih => exact congrArg (call c) (funext ih)

theorem bind_assoc (p : Program S α) (f : α → Program S β) (g : β → Program S γ) :
    p >>= f >>= g = p >>= fun a => f a >>= g := by
  induction p with
  | ret => rfl
  | call c k ih => simp only [call_bind]; exact congrArg (call c) (funext ih)

/-! ### The sequential interpreter -/

section Run

variable {W : Type} (answer : (c : S.Call) → W → S.Reply c × W)

/-- Run a program alone, every call answered by `answer` from a world no one else touches. -/
def run : Program S α → W → α × W
  | ret a, w => (a, w)
  | call c k, w => (k (answer c w).1).run (answer c w).2

@[simp] theorem run_ret (a : α) (w : W) : (ret a : Program S α).run answer w = (a, w) := rfl

@[simp] theorem run_call (c : S.Call) (k : S.Reply c → Program S α) (w : W) :
    (call c k).run answer w = (k (answer c w).1).run answer (answer c w).2 := rfl

@[simp] theorem run_bind (p : Program S α) (f : α → Program S β) (w : W) :
    (p >>= f).run answer w = (f (p.run answer w).1).run answer (p.run answer w).2 := by
  induction p generalizing w with
  | ret => rfl
  | call c k ih => exact ih _ _

/-- Run alone from `w`, the program ends with a result and a world that satisfy `Q`. -/
def Ends (p : Program S α) (w : W) (Q : α → W → Prop) : Prop :=
  Q (p.run answer w).1 (p.run answer w).2

variable {p : Program S α} {w : W}

variable {answer} in
theorem Ends.bind {f : α → Program S β} {Q : β → W → Prop}
    (h : p.Ends answer w fun a w' => (f a).Ends answer w' Q) : (p >>= f).Ends answer w Q := by
  unfold Ends
  rw [run_bind]
  exact h

variable {Q : α → W → Prop}

variable {answer} in
theorem Ends.mono {R : α → W → Prop} (h : p.Ends answer w Q) (hQR : ∀ a w', Q a w' → R a w') :
    p.Ends answer w R := hQR _ _ h

variable {answer} in
/-- A program that ends in one way ends in no other. -/
theorem Ends.run_eq {w' : W} {a : α} (h : p.Ends answer w fun b v => b = a ∧ v = w') :
    p.run answer w = (a, w') :=
  Prod.ext h.1 h.2

/-- The interpreter that also keeps the conversation, the latest exchange first. -/
def recording (c : S.Call) (s : W × List (Event S)) : S.Reply c × (W × List (Event S)) :=
  ((answer c s.1).1, (answer c s.1).2, ⟨c, (answer c s.1).1⟩ :: s.2)

variable {answer} in
/-- Keeping the conversation changes neither the result nor the world. -/
theorem ends_recording {past : List (Event S)} :
    p.Ends (recording answer) (w, past) (fun a s => Q a s.1) ↔ p.Ends answer w Q := by
  induction p generalizing w past with
  | ret => exact Iff.rfl
  | call c k ih => exact ih _

variable {answer} in
theorem Ends.recorded {past : List (Event S)} (h : p.Ends answer w Q) :
    p.Ends (recording answer) (w, past) fun a s => Q a s.1 :=
  ends_recording.mpr h

/-- Two worlds that answer alike, and stay related, take a program to the same result. -/
theorem run_related {answer : (c : S.Call) → W → S.Reply c × W} {R : W → W → Prop}
    (h : ∀ c w w', R w w' → (answer c w).1 = (answer c w').1 ∧ R (answer c w).2 (answer c w').2)
    (p : Program S α) {w' : W} (hw : R w w') :
    (p.run answer w).1 = (p.run answer w').1 ∧ R (p.run answer w).2 (p.run answer w').2 := by
  induction p generalizing w w' with
  | ret => exact ⟨rfl, hw⟩
  | call c k ih =>
    obtain ⟨hreply, hR⟩ := h c w w' hw
    rw [run_call, run_call, hreply]
    exact ih _ hR

end Run

/-! ### Running alone, with failures -/

section Exec

variable {W : Type}

/-- **Run alone, with any of its calls failing.** A call is answered, or it gives a reply out of
`Fault` and leaves the world as it was. -/
inductive Exec (answer : (c : S.Call) → W → S.Reply c × W)
    (Fault : (c : S.Call) → S.Reply c → Prop) :
    Program S α → W → α → W → Prop where
  | ret (a : α) (w : W) : Exec answer Fault (ret a) w a w
  | act {c : S.Call} {k : S.Reply c → Program S α} {w w' : W} {a : α} :
      Exec answer Fault (k (answer c w).1) (answer c w).2 a w' → Exec answer Fault (call c k) w a w'
  | fault {c : S.Call} {k : S.Reply c → Program S α} {r : S.Reply c} {w w' : W} {a : α} :
      Fault c r → Exec answer Fault (k r) w a w' → Exec answer Fault (call c k) w a w'

variable {answer : (c : S.Call) → W → S.Reply c × W} {Fault : (c : S.Call) → S.Reply c → Prop}

theorem exec_ret {a b : α} {w w' : W} :
    (ret a : Program S α).Exec answer Fault w b w' ↔ b = a ∧ w' = w := by
  constructor
  · rintro ⟨⟩
    exact ⟨rfl, rfl⟩
  · rintro ⟨rfl, rfl⟩
    exact .ret _ _

theorem exec_call {c : S.Call} {k : S.Reply c → Program S α} {w w' : W} {a : α} :
    (call c k).Exec answer Fault w a w' ↔
      (k (answer c w).1).Exec answer Fault (answer c w).2 a w' ∨
        ∃ r, Fault c r ∧ (k r).Exec answer Fault w a w' := by
  constructor
  · intro h
    cases h with
    | act h => exact .inl h
    | fault hr h => exact .inr ⟨_, hr, h⟩
  · rintro (h | ⟨r, hr, h⟩)
    · exact .act h
    · exact .fault hr h

theorem exec_bind {p : Program S α} {f : α → Program S β} {w w' : W} {b : β} :
    (p >>= f).Exec answer Fault w b w' ↔
      ∃ a v, p.Exec answer Fault w a v ∧ (f a).Exec answer Fault v b w' := by
  induction p generalizing w with
  | ret a =>
    constructor
    · exact fun h => ⟨a, w, .ret a w, h⟩
    · rintro ⟨a', v, hp, hf⟩
      obtain ⟨rfl, rfl⟩ := exec_ret.mp hp
      exact hf
  | call c k ih =>
    rw [call_bind, exec_call]
    simp only [ih, exec_call]
    constructor
    · rintro (⟨a, v, hp, hf⟩ | ⟨r, hr, a, v, hp, hf⟩)
      · exact ⟨a, v, .inl hp, hf⟩
      · exact ⟨a, v, .inr ⟨r, hr, hp⟩, hf⟩
    · rintro ⟨a, v, hp | ⟨r, hr, hp⟩, hf⟩
      · exact .inl ⟨a, v, hp, hf⟩
      · exact .inr ⟨r, hr, a, v, hp, hf⟩

theorem exec_run (p : Program S α) (w : W) :
    p.Exec answer Fault w (p.run answer w).1 (p.run answer w).2 := by
  induction p generalizing w with
  | ret a => exact .ret a w
  | call c k ih => exact .act (ih _ _)

end Exec

/-! ### Results -/

/-- Every result of the program, on every branch, satisfies `P`. -/
def Yields (P : α → Prop) : Program S α → Prop
  | ret a => P a
  | call _ k => ∀ r, (k r).Yields P

section Yields

variable {P : α → Prop} {Q : β → Prop}

variable {p : Program S α}

theorem Yields.bind {f : α → Program S β} (hp : p.Yields P) (hf : ∀ a, P a → (f a).Yields Q) :
    (p >>= f).Yields Q := by
  induction p with
  | ret a => exact hf a hp
  | call c k ih => exact fun r => ih r (hp r)

theorem yields_bind {f : α → Program S β} (hf : ∀ a, (f a).Yields Q) : (p >>= f).Yields Q := by
  induction p with
  | ret a => exact hf a
  | call c k ih => exact ih

theorem Yields.ends {W : Type} {answer : (c : S.Call) → W → S.Reply c × W}
    (h : p.Yields P) (w : W) :
    p.Ends answer w fun a _ => P a := by
  induction p generalizing w with
  | ret => exact h
  | call c k ih => exact ih _ (h _) _

end Yields

/-! ### Alphabets -/

/-- Every call of the program, on every branch, lies in the alphabet `A`. -/
def Within (A : S.Call → Prop) : Program S α → Prop
  | ret _ => True
  | call c k => A c ∧ ∀ r, (k r).Within A

section Within

variable {A B : S.Call → Prop}

@[simp] theorem within_pure (a : α) : (pure a : Program S α).Within A := trivial

theorem Within.call {c : S.Call} (h : A c) : (perform c).Within A := ⟨h, fun _ => trivial⟩

variable {p : Program S α}

theorem Within.bind {f : α → Program S β} (hp : p.Within A) (hf : ∀ a, (f a).Within A) :
    (p >>= f).Within A := by
  induction p with
  | ret a => exact hf a
  | call c k ih => exact ⟨hp.1, fun r => ih r (hp.2 r)⟩

theorem Within.mono (hp : p.Within A) (h : ∀ c, A c → B c) : p.Within B := by
  induction p with
  | ret => trivial
  | call c k ih => exact ⟨h c hp.1, fun r => ih r (hp.2 r)⟩

theorem Within.ite {b : Prop} [Decidable b] {q : Program S α} (hp : p.Within A) (hq : q.Within A) :
    (if b then p else q).Within A := by
  split
  · exact hp
  · exact hq

/-- What every call of the alphabet does to the world, up to a reflexive and transitive relation,
the whole program does. -/
theorem Within.ends {W : Type} {answer : (c : S.Call) → W → S.Reply c × W} {R : W → W → Prop}
    (hrefl : ∀ w, R w w) (htrans : ∀ {w₁ w₂ w₃}, R w₁ w₂ → R w₂ w₃ → R w₁ w₃)
    (hcall : ∀ c w, A c → R w (answer c w).2) (hp : p.Within A) (w : W) :
    p.Ends answer w fun _ w' => R w w' := by
  induction p generalizing w with
  | ret => exact hrefl w
  | call c k ih => exact htrans (hcall c w hp.1) (ih _ (hp.2 _) _)

end Within

end Program

/-! ### Refining calls -/

namespace Program

variable {S T : Signature} {α β : Type}

/-- Carry every call out by a program over another signature. -/
def elaborate (f : (c : S.Call) → Program T (S.Reply c)) : Program S α → Program T α
  | ret a => ret a
  | call c k => f c >>= fun r => (k r).elaborate f

theorem elaborate_bind (f : (c : S.Call) → Program T (S.Reply c)) (p : Program S α)
    (k : α → Program S β) :
    (p >>= k).elaborate f = p.elaborate f >>= fun a => (k a).elaborate f := by
  induction p with
  | ret => rfl
  | call c j ih =>
    rw [elaborate, bind_assoc]
    exact congrArg (f c >>= ·) (funext ih)

theorem elaborate_call (f : (c : S.Call) → Program T (S.Reply c)) (c : S.Call) :
    (perform c).elaborate f = f c := bind_ret (f c)

/-- Calls that are carried out by being made. -/
theorem elaborate_perform (p : Program S α) : p.elaborate perform = p := by
  induction p with
  | ret => rfl
  | call c k ih => exact congrArg (call c) (funext ih)

/-- Calls carried out within an alphabet, each by a program within another. -/
theorem Within.elaborate {A : S.Call → Prop} {B : T.Call → Prop}
    {f : (c : S.Call) → Program T (S.Reply c)} (hf : ∀ c, A c → (f c).Within B) {p : Program S α}
    (hp : p.Within A) : (p.elaborate f).Within B := by
  induction p with
  | ret => trivial
  | call c k ih => exact (hf c hp.1).bind fun r => ih r (hp.2 r)

end Program

/-! ### Disciplines -/

/-- **A typestate discipline.** An automaton that reads a program's conversation with its
environment: which calls are allowed in a phase, which replies the environment may give there, and
the phase each exchange leads to. -/
structure Discipline (S : Signature) where
  /-- What the automaton remembers of the conversation. -/
  Phase : Type
  /-- The phase of a program that has made no call yet. -/
  start : Phase
  /-- The calls a program may make in a phase. -/
  Allows : Phase → S.Call → Prop
  /-- The replies the environment gives in a phase. -/
  Admits : Phase → (c : S.Call) → S.Reply c → Prop
  /-- The phase after an exchange. -/
  next : Phase → (c : S.Call) → S.Reply c → Phase

namespace Discipline

variable {S : Signature}

/-- The phase a conversation leads to, the latest exchange at the head of the list. -/
def phase (D : Discipline S) : List (Event S) → D.Phase
  | [] => D.start
  | e :: past => D.next (D.phase past) e.1 e.2

@[simp] theorem phase_nil (D : Discipline S) : D.phase [] = D.start := rfl

@[simp] theorem phase_cons (D : Discipline S) (c : S.Call) (r : S.Reply c)
    (past : List (Event S)) : D.phase (⟨c, r⟩ :: past) = D.next (D.phase past) c r := rfl

/-- A conversation in which every call was allowed and every reply admitted when it was made. -/
def Conforms (D : Discipline S) : List (Event S) → Prop
  | [] => True
  | e :: past => D.Allows (D.phase past) e.1 ∧ D.Admits (D.phase past) e.1 e.2 ∧ D.Conforms past

variable {c : S.Call} {r : S.Reply c}

theorem conforms_cons {D : Discipline S} {past : List (Event S)} :
    D.Conforms (⟨c, r⟩ :: past) ↔
      D.Allows (D.phase past) c ∧ D.Admits (D.phase past) c r ∧ D.Conforms past := Iff.rfl

theorem Conforms.drop {D : Discipline S} {past : List (Event S)} (h : D.Conforms past) (i : ℕ) :
    D.Conforms (past.drop i) := by
  induction i generalizing past with
  | zero => exact h
  | succ i ih =>
    cases past with
    | nil => exact h
    | cons => exact ih h.2.2

/-- An exchange of a conforming conversation: the call was allowed where it was made, and the
conversation went on from the phase it led to. -/
theorem Conforms.exchange {D : Discipline S} {past : List (Event S)} (h : D.Conforms past) {i : ℕ}
    (hi : past[i]? = some ⟨c, r⟩) :
    D.Allows (D.phase (past.drop (i + 1))) c ∧
      D.phase (past.drop i) = D.next (D.phase (past.drop (i + 1))) c r := by
  obtain ⟨hlt, heq⟩ := List.getElem?_eq_some_iff.mp hi
  have hc := h.drop i
  rw [List.drop_eq_getElem_cons hlt, heq] at hc ⊢
  exact ⟨hc.1, rfl⟩

/-- A property of phases that every allowed exchange keeps. -/
def Stable (D : Discipline S) (P : D.Phase → Prop) : Prop :=
  ∀ φ c r, D.Allows φ c → P φ → P (D.next φ c r)

variable {D : Discipline S} {past : List (Event S)} {P : D.Phase → Prop}

/-- A stable property holds from where it first holds. -/
theorem Conforms.stable (h : D.Conforms past) (hP : D.Stable P) {i j : ℕ} (hij : i ≤ j)
    (hj : P (D.phase (past.drop j))) : P (D.phase (past.drop i)) := by
  induction hij with
  | refl => exact hj
  | @step j hij ih =>
    refine ih ?_
    by_cases hlt : j < past.length
    · have hc := h.drop j
      rw [List.drop_eq_getElem_cons hlt] at hc ⊢
      exact hP _ _ _ hc.1 hj
    · rw [List.drop_eq_nil_of_le (by omega)] at hj ⊢
      exact hj

/-- If an exchange establishes a stable property under which a call is not allowed, that call was
not made after it. -/
theorem Conforms.not_after (h : D.Conforms past) (hP : D.Stable P) {i j : ℕ} {c' : S.Call}
    {r' : S.Reply c'} (hi : past[i]? = some ⟨c, r⟩) (hj : past[j]? = some ⟨c', r'⟩)
    (hest : ∀ φ, D.Allows φ c' → P (D.next φ c' r')) (hno : ∀ φ, P φ → ¬ D.Allows φ c) : j ≤ i := by
  by_contra hlt
  obtain ⟨hallows, -⟩ := h.exchange hi
  obtain ⟨hallows', hphase⟩ := h.exchange hj
  have hPj : P (D.phase (past.drop j)) := by
    rw [hphase]
    exact hest _ hallows'
  exact hno _ (h.stable hP (by omega) hPj) hallows

/-- **The discipline that remembers everything.** Its phase is the conversation itself, so that a
rule about a call can speak of whatever was said before it. -/
def history (Allows : List (Event S) → S.Call → Prop) : Discipline S where
  Phase := List (Event S)
  start := []
  Allows := Allows
  Admits := fun _ _ _ => True
  next φ c r := ⟨c, r⟩ :: φ

theorem phase_history (Allows : List (Event S) → S.Call → Prop) (past : List (Event S)) :
    (history Allows).phase past = past := by
  induction past with
  | nil => rfl
  | cons e past ih =>
    show e :: (history Allows).phase past = e :: past
    rw [ih]

variable {Allows : List (Event S) → S.Call → Prop}

/-- Every call that was made was allowed by what had been said before. -/
theorem allows_of_suffix (h : (history Allows).Conforms past)
    (hmem : ⟨c, r⟩ ∈ past) : ∃ earlier, Allows earlier c ∧ ⟨c, r⟩ :: earlier <:+ past := by
  induction past with
  | nil => cases hmem
  | cons e past ih =>
    rcases List.mem_cons.mp hmem with rfl | hmem
    · have hallows := h.1
      rw [phase_history] at hallows
      exact ⟨past, hallows, List.suffix_refl _⟩
    · obtain ⟨earlier, hallows, hsuf⟩ := ih h.2.2 hmem
      exact ⟨earlier, hallows, hsuf.trans (List.suffix_cons _ _)⟩

theorem allows_of_mem (h : (history Allows).Conforms past)
    (hmem : ⟨c, r⟩ ∈ past) : ∃ earlier, Allows earlier c ∧ earlier ⊆ past := by
  obtain ⟨earlier, hallows, hsuf⟩ := allows_of_suffix h hmem
  exact ⟨earlier, hallows, ((List.suffix_cons _ _).trans hsuf).subset⟩

/-- An alphabet the discipline does not look at: its calls are always allowed and never change the
phase. -/
def Ignores (D : Discipline S) (A : S.Call → Prop) : Prop :=
  ∀ φ c, A c → D.Allows φ c ∧ ∀ r, D.next φ c r = φ

end Discipline

namespace Program

variable {S : Signature} {α β : Type} {D : Discipline S}

/-- **The program keeps to the discipline.** From the phase given, every call it makes is allowed,
and, as long as the replies are admitted, it finishes in a phase and with a value that satisfy
`Q`. -/
def Obeys (D : Discipline S) (Q : D.Phase → α → Prop) : D.Phase → Program S α → Prop
  | φ, ret a => Q φ a
  | φ, call c k => D.Allows φ c ∧ ∀ r, D.Admits φ c r → Obeys D Q (D.next φ c r) (k r)

variable {Q R : D.Phase → α → Prop} {φ : D.Phase}

@[simp] theorem obeys_ret {a : α} : Obeys D Q φ (ret a) ↔ Q φ a := Iff.rfl

theorem obeys_call {c : S.Call} {k : S.Reply c → Program S α} :
    Obeys D Q φ (call c k) ↔
      D.Allows φ c ∧ ∀ r, D.Admits φ c r → Obeys D Q (D.next φ c r) (k r) := Iff.rfl

theorem obeys_perform {c : S.Call} {Q : D.Phase → S.Reply c → Prop} (h : D.Allows φ c)
    (hr : ∀ r, D.Admits φ c r → Q (D.next φ c r) r) : Obeys D Q φ (perform c) :=
  ⟨h, hr⟩

theorem Obeys.call {c : S.Call} {f : S.Reply c → Program S α} (h : D.Allows φ c)
    (hf : ∀ r, D.Admits φ c r → Obeys D Q (D.next φ c r) (f r)) : Obeys D Q φ (perform c >>= f) :=
  ⟨h, hf⟩

variable {p : Program S α}

theorem Obeys.ite {b : Prop} [Decidable b] {q : Program S α} (hp : Obeys D Q φ p)
    (hq : Obeys D Q φ q) : Obeys D Q φ (if b then p else q) := by
  split
  · exact hp
  · exact hq

theorem Obeys.mono (hp : Obeys D Q φ p) (h : ∀ ψ a, Q ψ a → R ψ a) : Obeys D R φ p := by
  induction p generalizing φ with
  | ret a => exact h φ a hp
  | call c k ih => exact ⟨hp.1, fun r hr => ih r (hp.2 r hr)⟩

theorem Obeys.bind {f : α → Program S β} {R : D.Phase → β → Prop} (hp : Obeys D Q φ p)
    (hf : ∀ ψ a, Q ψ a → Obeys D R ψ (f a)) : Obeys D R φ (p >>= f) := by
  induction p generalizing φ with
  | ret a => exact hf φ a hp
  | call c k ih => exact ⟨hp.1, fun r hr => ih r (hp.2 r hr)⟩

/-- Started after the conversation `φ`, the program can return `a`, and the conversation is `ψ` by
then. -/
def Leads : Program S α → List (Event S) → α → List (Event S) → Prop
  | ret b, φ, a, ψ => b = a ∧ φ = ψ
  | call c k, φ, a, ψ => ∃ r, (k r).Leads (⟨c, r⟩ :: φ) a ψ

theorem Leads.suffix {φ ψ : List (Event S)} {a : α} (h : p.Leads φ a ψ) : φ <:+ ψ := by
  induction p generalizing φ with
  | ret => exact h.2 ▸ List.suffix_refl φ
  | call c k ih =>
    obtain ⟨r, h⟩ := h
    exact (List.suffix_cons _ _).trans (ih r h)

/-- What holds of every result holds of the one the program ends with. -/
theorem Obeys.and_yields {P : α → Prop} (hp : Obeys D Q φ p) (h : p.Yields P) :
    Obeys D (fun ψ a => Q ψ a ∧ P a) φ p := by
  induction p generalizing φ with
  | ret => exact ⟨hp, h⟩
  | call c k ih => exact ⟨hp.1, fun r hr => ih r (hp.2 r hr) (h r)⟩

/-- **A refined program keeps to the refined discipline.** The phases of the two disciplines are
related, and the program that stands for a call keeps to the one and ends related to what the call
leads to in the other. -/
theorem Obeys.elaborate {T : Signature} {E : Discipline T}
    {f : (c : S.Call) → Program T (S.Reply c)} (R : D.Phase → E.Phase → Prop)
    (hf : ∀ φ ψ c, R φ ψ → D.Allows φ c →
      (f c).Obeys E (fun ψ' r => D.Admits φ c r ∧ R (D.next φ c r) ψ') ψ) (hp : Obeys D Q φ p)
    {ψ : E.Phase} (hR : R φ ψ) :
    (p.elaborate f).Obeys E (fun ψ' a => ∃ φ', R φ' ψ' ∧ Q φ' a) ψ := by
  induction p generalizing φ ψ with
  | ret => exact ⟨φ, hR, hp⟩
  | call c k ih =>
    refine (hf φ ψ c hR hp.1).bind ?_
    rintro ψ' r ⟨hadm, hR'⟩
    exact ih r (hp.2 r hadm) hR'

theorem obeys_of_allows (h : ∀ φ c, D.Allows φ c) (p : Program S α) :
    Obeys D (fun _ _ => True) φ p := by
  induction p generalizing φ with
  | ret => trivial
  | call c k ih => exact ⟨h φ c, fun r _ => ih r⟩

variable {A : S.Call → Prop}

/-- **What every call of an alphabet keeps**, a program within it keeps. -/
theorem Within.keeps {I : D.Phase → Prop} (hp : p.Within A) (hφ : I φ)
    (h : ∀ ψ c, I ψ → A c → D.Allows ψ c ∧ ∀ r, I (D.next ψ c r)) :
    Obeys D (fun ψ _ => I ψ) φ p := by
  induction p generalizing φ with
  | ret => exact hφ
  | call c k ih =>
    obtain ⟨hallows, hnext⟩ := h φ c hφ hp.1
    exact ⟨hallows, fun r _ => ih r (hp.2 r) (hnext r)⟩

/-- A program within an ignored alphabet is allowed everywhere and leaves the phase as it found
it. -/
theorem Within.obeys (hp : p.Within A) (hD : D.Ignores A) : Obeys D (fun ψ _ => ψ = φ) φ p := by
  refine hp.keeps rfl ?_
  rintro ψ c rfl hc
  exact hD ψ c hc

/-- A program within an ignored alphabet can be skipped at the head of a sequence. -/
theorem Within.obeys_bind {f : α → Program S β} {R : D.Phase → β → Prop} (hp : p.Within A)
    (hD : D.Ignores A) (hf : ∀ a, Obeys D R φ (f a)) : Obeys D R φ (p >>= f) :=
  (hp.obeys hD).bind fun _ a h => h ▸ hf a

end Program

end Framework
