import Mathlib.Order.Interval.Finset.Nat

/-!
# Fixed-window counters

A counter that is stamped when it opens and counts until its stamp is over, however often it is
advanced. Between two advances it may be dropped, but only when its stamp is over. `Counter.Move`
says everything that can happen to such a counter at one instant, and a `Trail` is what it was read
as, newest first, over any number of moves at instants that do not go back.

A reading of one opens a window. Two facts follow for every trail, whatever the stamps are:

* inside a window the readings go up, so no more of them than `m` are at most `m`
  (`Trail.descending`, `length_le_of_descending`);
* a window opens only when the stamp of every earlier one is over (`Trail.spaced`).
-/

namespace Framework

open List

/-- How a fixed-window counter is stamped, and when a stamp is over. -/
structure Counter (T E : Type*) where
  stamp : T → E
  elapsed : E → T → Prop

namespace Counter

variable {T E : Type*} {C : Counter T E}

/-- What can happen to a counter at one instant, with what it is read as if it is advanced. -/
inductive Move (C : Counter T E) (now : T) : Option (ℕ × E) → Option ℕ → Option (ℕ × E) → Prop
  | rest (c : Option (ℕ × E)) : Move C now c none c
  | count (n : ℕ) (x : E) (hn : 0 < n) : Move C now (some (n, x)) (some (n + 1)) (some (n + 1, x))
  | opens (c : Option (ℕ × E)) (h : ∀ n x, c = some (n, x) → C.elapsed x now) :
      Move C now c (some 1) (some (1, C.stamp now))
  | drop (n : ℕ) (x : E) (h : C.elapsed x now) : Move C now (some (n, x)) none none

/-- The readings of a counter with their instants, newest first. -/
inductive Trail [Preorder T] (C : Counter T E) : Option (ℕ × E) → T → List (T × ℕ) → Prop
  | start (now : T) : Trail C none now []
  | move {c c' : Option (ℕ × E)} {before now : T} {l : List (T × ℕ)} {r : Option ℕ}
      (h : Trail C c before l) (hle : before ≤ now) (hmove : C.Move now c r c') :
      Trail C c' now ((r.map (now, ·)).toList ++ l)

/-- No reading of a stretch opens a window, except perhaps its oldest. -/
def Within (l : List (T × ℕ)) : Prop := ∀ x ∈ l.dropLast, x.2 ≠ 1

theorem Within.tail {x : T × ℕ} {l : List (T × ℕ)} (h : Within (x :: l)) : Within l := by
  intro y hy
  cases l with
  | nil => cases hy
  | cons => exact h y (mem_cons_of_mem x hy)

namespace Trail

variable [Preorder T] {c : Option (ℕ × E)} {now : T} {l : List (T × ℕ)}

theorem pos (h : C.Trail c now l) : ∀ x ∈ l, 0 < x.2 := by
  induction h with
  | start => simp
  | move _ _ hmove ih =>
    cases hmove with
    | rest => exact ih
    | count | opens => simpa using ih
    | drop => exact ih

theorem count_pos {n : ℕ} {x : E} (h : C.Trail c now l) (hc : c = some (n, x)) : 0 < n := by
  induction h generalizing n with
  | start => cases hc
  | move _ _ hmove ih =>
    cases hmove with
    | rest => exact ih hc
    | count m =>
      cases hc
      exact Nat.succ_pos m
    | opens =>
      cases hc
      exact Nat.one_pos
    | drop => cases hc

/-- What is read since a window opened is at most what the counter stands at. -/
theorem le_count {n : ℕ} {x : E} (h : C.Trail c now l) (hc : c = some (n, x)) :
    ∀ b older, l = b ++ older → Within b → ∀ y ∈ b, y.2 ≤ n := by
  induction h generalizing n with
  | start => cases hc
  | @move c c' before now l r _ _ hmove ih =>
    intro b older hl hb y hy
    cases hmove with
    | rest => exact ih hc b older hl hb y hy
    | drop => cases hc
    | count m =>
      cases hc
      cases b with
      | nil => cases hy
      | cons z b =>
        obtain ⟨rfl, rfl⟩ := cons.inj hl
        rcases mem_cons.mp hy with rfl | hy
        · exact le_rfl
        · exact le_trans (ih rfl b older rfl hb.tail y hy) (Nat.le_succ m)
    | opens =>
      cases hc
      cases b with
      | nil => cases hy
      | cons z b =>
        obtain ⟨rfl, rfl⟩ := cons.inj hl
        -- the window has just opened, so the stretch is this reading alone
        cases b with
        | nil =>
          rw [mem_singleton.mp hy]
        | cons => exact absurd rfl (hb (now, 1) (mem_cons_self ..))

/-- Inside a window every reading is above the earlier ones. -/
theorem descending (h : C.Trail c now l) :
    ∀ newer b older, l = newer ++ b ++ older → Within b → b.Pairwise fun x y => y.2 < x.2 := by
  induction h with
  | start =>
    intro newer b older hl _
    have hb : b = [] := by simp at hl; exact hl.2.1
    rw [hb]
    exact Pairwise.nil
  | @move c c' before now l r hprev _ hmove ih =>
    intro newer b older hl hb
    cases hmove with
    | rest | drop => exact ih newer b older hl hb
    | count =>
      cases newer with
      | cons z newer => exact ih newer b older (cons.inj hl).2 hb
      | nil =>
        cases b with
        | nil => exact Pairwise.nil
        | cons z b =>
          obtain ⟨rfl, rfl⟩ := cons.inj hl
          refine pairwise_cons.mpr ⟨fun y hy => ?_, ih [] b older rfl hb.tail⟩
          exact Nat.lt_succ_of_le (hprev.le_count rfl b older rfl hb.tail y hy)
    | opens =>
      cases newer with
      | cons z newer => exact ih newer b older (cons.inj hl).2 hb
      | nil =>
        cases b with
        | nil => exact Pairwise.nil
        | cons z b =>
          obtain ⟨rfl, rfl⟩ := cons.inj hl
          cases b with
          | nil => exact pairwise_singleton _ _
          | cons => exact absurd rfl (hb (now, 1) (mem_cons_self ..))

/-- The stamp of a window that was opened is the counter's, or it is over. -/
theorem stamped (hmono : ∀ x t t', C.elapsed x t → t ≤ t' → C.elapsed x t') (h : C.Trail c now l) :
    ∀ y ∈ l, y.2 = 1 → C.elapsed (C.stamp y.1) now ∨ ∃ n, c = some (n, C.stamp y.1) := by
  induction h with
  | start => simp
  | @move c c' before now l r hprev hle hmove ih =>
    intro y hy h1
    cases hmove with
    | rest =>
      rcases ih y hy h1 with h | h
      · exact .inl (hmono _ _ _ h hle)
      · exact .inr h
    | drop n x hx =>
      rcases ih y hy h1 with h | ⟨m, hm⟩
      · exact .inl (hmono _ _ _ h hle)
      · cases hm
        exact .inl hx
    | count m x hm =>
      rcases mem_cons.mp hy with rfl | hy
      · -- a reading that continues a window is not one
        exact absurd (Nat.succ.inj h1) hm.ne'
      · rcases ih y hy h1 with h | ⟨k, hk⟩
        · exact .inl (hmono _ _ _ h hle)
        · cases hk
          exact .inr ⟨m + 1, rfl⟩
    | opens _ hover =>
      rcases mem_cons.mp hy with rfl | hy
      · exact .inr ⟨1, rfl⟩
      · rcases ih y hy h1 with h | ⟨k, hk⟩
        · exact .inl (hmono _ _ _ h hle)
        · exact .inl (hover k _ hk)

/-- When a window opens, every earlier one is over. -/
theorem spaced (hmono : ∀ x t t', C.elapsed x t → t ≤ t' → C.elapsed x t') (h : C.Trail c now l) :
    ∀ newer y older, l = newer ++ y :: older → y.2 = 1 →
      ∀ z ∈ older, z.2 = 1 → C.elapsed (C.stamp z.1) y.1 := by
  induction h with
  | start => simp
  | @move c c' before now l r hprev hle hmove ih =>
    intro newer y older hl hy z hz hz1
    cases hmove with
    | rest | drop => exact ih newer y older hl hy z hz hz1
    | count m x hm =>
      cases newer with
      | cons w newer => exact ih newer y older (cons.inj hl).2 hy z hz hz1
      | nil =>
        obtain ⟨rfl, rfl⟩ := cons.inj hl
        exact absurd (Nat.succ.inj hy) hm.ne'
    | opens _ hover =>
      cases newer with
      | cons w newer => exact ih newer y older (cons.inj hl).2 hy z hz hz1
      | nil =>
        obtain ⟨rfl, rfl⟩ := cons.inj hl
        rcases hprev.stamped hmono z hz hz1 with h | ⟨k, hk⟩
        · exact hmono _ _ _ h hle
        · exact hover k _ hk

end Trail

/-- Of numbers from one up that all differ, no more than `m` are at most `m`. -/
theorem length_le_of_descending {l : List ℕ} {m : ℕ} (h : l.Pairwise fun x y => y < x)
    (hpos : ∀ n ∈ l, 0 < n) (hle : ∀ n ∈ l, n ≤ m) : l.length ≤ m := by
  have hnodup : l.Nodup := h.imp fun hlt => hlt.ne'
  calc l.length = l.toFinset.card := (toFinset_card_of_nodup hnodup).symm
    _ ≤ (Finset.Icc 1 m).card := by
        refine Finset.card_le_card fun n hn => ?_
        rw [mem_toFinset] at hn
        exact Finset.mem_Icc.mpr ⟨hpos n hn, hle n hn⟩
    _ = m := by rw [Nat.card_Icc, Nat.add_sub_cancel]

/-- Of the entries of a log that fall in one window no more than `m` are taken, if what is taken was
read as at most `m`. -/
theorem Trail.countP_le [Preorder T] {X : Type*} {read : X → Option (T × ℕ)} {taken : X → Bool}
    {j newer b older : List X} {m : ℕ} (h : C.Trail c now (j.filterMap read))
    (hj : j = newer ++ b ++ older) (hwithin : Within (b.filterMap read))
    (hle : ∀ x ∈ b, taken x → ∃ y, read x = some y ∧ y.2 ≤ m) : b.countP taken ≤ m := by
  rw [hj, filterMap_append, filterMap_append] at h
  have hdesc := h.descending _ _ _ rfl hwithin
  have hsub : ((b.filter taken).filterMap read).Sublist (b.filterMap read) :=
    Sublist.filterMap read filter_sublist
  have hlen : ((b.filter taken).filterMap read).length = (b.filter taken).length := by
    refine filterMap_length_eq_length.mpr fun x hx => ?_
    obtain ⟨hxb, hxt⟩ := mem_filter.mp hx
    obtain ⟨y, hy, -⟩ := hle x hxb hxt
    rw [hy]
    rfl
  rw [countP_eq_length_filter, ← hlen, ← length_map Prod.snd]
  refine length_le_of_descending (pairwise_map.mpr (hdesc.sublist hsub)) ?_ ?_
  · intro n hn
    obtain ⟨y, hy, rfl⟩ := mem_map.mp hn
    exact h.pos y (mem_append_left _ (mem_append_right _ (hsub.subset hy)))
  · intro n hn
    obtain ⟨y, hy, rfl⟩ := mem_map.mp hn
    obtain ⟨x, hx, hxy⟩ := mem_filterMap.mp hy
    obtain ⟨hxb, hxt⟩ := mem_filter.mp hx
    obtain ⟨y', hy', hle'⟩ := hle x hxb hxt
    rw [hxy] at hy'
    cases hy'
    exact hle'

end Counter

end Framework
