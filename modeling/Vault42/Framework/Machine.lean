import Mathlib.Data.List.Basic

/-!
# Components that answer one event at a time

`Framework.System` interleaves programs call by call. Many components need less: they take an event,
move to another state and answer, and what is wanted of them is about the sequence of events and
answers as a whole. A `Machine` is such a component. Its *journal* is the list of what it was asked
and what it answered, newest first, and `Journal Init ok s j` says that the machine, started in a
state of `Init` and fed events that meet `ok` in the state they arrive in, has got to `s` with
journal `j`.

An invariant of the state and the journal is proved by induction on `Journal`, one event at a time.
`Journal.before` goes back from an entry of a journal to the state it was answered in.
-/

namespace Framework

/-- A component with a state that answers events. -/
structure Machine (S E A : Type*) where
  step : S → E → S × A

namespace Machine

variable {S E A : Type*}

/-- The machine has got to a state, with what it was asked and what it answered, newest first. -/
inductive Journal (M : Machine S E A) (Init : S → Prop) (ok : S → E → Prop) :
    S → List (E × A) → Prop
  | start {s : S} (h : Init s) : Journal M Init ok s []
  | next {s : S} {j : List (E × A)} {e : E} (h : Journal M Init ok s j) (hok : ok s e) :
      Journal M Init ok (M.step s e).1 ((e, (M.step s e).2) :: j)

variable {M : Machine S E A} {Init : S → Prop} {ok ok' : S → E → Prop} {s : S} {j : List (E × A)}

namespace Journal

theorem mono (h : M.Journal Init ok s j) (hle : ∀ s e, ok s e → ok' s e) :
    M.Journal Init ok' s j := by
  induction h with
  | start h => exact start h
  | next _ hok ih => exact next ih (hle _ _ hok)

/-- The state in which an entry of the journal was answered, with what had happened by then. -/
theorem before {x : E × A} {newer older : List (E × A)} (h : M.Journal Init ok s j)
    (hj : j = newer ++ x :: older) :
    ∃ s', M.Journal Init ok s' older ∧ ok s' x.1 ∧ x.2 = (M.step s' x.1).2 := by
  induction h generalizing newer with
  | start => simp at hj
  | @next s' j' e hprev hok ih =>
    cases newer with
    | nil =>
      -- the entry is the newest one
      obtain ⟨rfl, rfl⟩ := List.cons.inj hj
      exact ⟨s', hprev, hok, rfl⟩
    | cons => exact ih (List.cons.inj hj).2

/-- Every entry of a journal was answered in some state the machine had got to. -/
theorem of_mem {x : E × A} (h : M.Journal Init ok s j) (hx : x ∈ j) :
    ∃ s' older, M.Journal Init ok s' older ∧ ok s' x.1 ∧ x.2 = (M.step s' x.1).2 := by
  obtain ⟨newer, older, hj⟩ := List.append_of_mem hx
  obtain ⟨s', hs'⟩ := h.before hj
  exact ⟨s', older, hs'⟩

end Journal

/-- The state and the journal after a list of events, oldest first. -/
def feed (M : Machine S E A) (s : S) (j : List (E × A)) : List E → S × List (E × A)
  | [] => (s, j)
  | e :: es => M.feed (M.step s e).1 ((e, (M.step s e).2) :: j) es

/-- Every event of a list meets a demand in the state it arrives in. -/
def Meets (M : Machine S E A) (ok : S → E → Prop) (s : S) : List E → Prop
  | [] => True
  | e :: es => ok s e ∧ M.Meets ok (M.step s e).1 es

instance decidableMeets (M : Machine S E A) (ok : S → E → Prop) [∀ s e, Decidable (ok s e)] (s : S)
    (es : List E) : Decidable (M.Meets ok s es) :=
  match es with
  | [] => isTrue trivial
  | e :: es =>
    haveI := decidableMeets M ok (M.step s e).1 es
    inferInstanceAs (Decidable (ok s e ∧ M.Meets ok (M.step s e).1 es))

theorem journal_feed {es : List E} (h : M.Journal Init ok s j) (hes : M.Meets ok s es) :
    M.Journal Init ok (M.feed s j es).1 (M.feed s j es).2 := by
  induction es generalizing s j with
  | nil => exact h
  | cons e es ih => exact ih (h.next hes.1) hes.2

end Machine

end Framework
