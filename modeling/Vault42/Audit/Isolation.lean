import Vault42.Audit.Logger

/-!
# Outages and poison

`isolate` offers the entries of a batch that failed to the store one by one, and takes a refusal
beside a success for the fault of the entry. `outage_not_poison` is what this is worth over a store
that can be out of reach at any statement.
-/

namespace Vault42.Audit

open Framework Program Logger List

/-- A store: which entries it takes, and at which of the statements it is sent it can be reached.
While it works on one, others log. -/
structure Store where
  takes : AuditEntry → Bool
  up : ℕ → Bool
  logged : ℕ → List AuditEntry

namespace Store

/-- The calls of the logger over a store that has been sent `n` statements. -/
def answer (S : Store) (cfg : Settings) :
    (c : LoggerCall) → ℕ × LoggerWorld → c.Reply × ℕ × LoggerWorld
  | .insert e, (n, w) =>
    let w := { w with buffer := w.buffer ++ (S.logged n).take (cfg.bufferSize - w.buffer.length) }
    if S.up n && S.takes e then (.ok (), n + 1, { w with stored := e :: w.stored })
    else (.error (), n + 1, w)
  | .insertBatch es, (n, w) =>
    if S.up n && es.all S.takes then (.ok (), n + 1, { w with stored := es ++ w.stored })
    else (.error (), n + 1, w)
  | c, (n, w) => ((loggerAnswer cfg c w).1, n, (loggerAnswer cfg c w).2)

/-- The entries of a pass that the store takes, or does not. -/
def sorted (S : Store) (b : Bool) (n : ℕ) (es : List AuditEntry) : List AuditEntry :=
  ((es.zipIdx n).filter fun p => (S.up p.2 && S.takes p.1) == b).map Prod.fst

/-- The store is in reach for all entries of a pass that it takes, or for none. -/
def Undivided (S : Store) (n : ℕ) (es : List AuditEntry) : Prop :=
  ∃ b, ∀ i e, es[i]? = some e → S.takes e → S.up (n + i) = b

variable {S : Store} {cfg : Settings} {n : ℕ} {es : List AuditEntry} {e : AuditEntry}
  {w : LoggerWorld}

theorem mem_sorted {b : Bool} :
    e ∈ S.sorted b n es ↔ ∃ i, es[i]? = some e ∧ (S.up (n + i) && S.takes e) = b := by
  simp only [sorted, mem_map, mem_filter, Prod.exists, beq_iff_eq]
  constructor
  · rintro ⟨e, k, ⟨hk, hb⟩, rfl⟩
    obtain ⟨hle, he⟩ := mem_zipIdx_iff_le_and_getElem?_sub.mp hk
    exact ⟨k - n, he, by rw [Nat.add_sub_cancel' hle]; exact hb⟩
  · rintro ⟨i, he, hb⟩
    have hk : (e, n + i) ∈ es.zipIdx n :=
      mem_zipIdx_iff_le_and_getElem?_sub.mpr ⟨Nat.le_add_right .., by simpa using he⟩
    exact ⟨e, n + i, ⟨hk, hb⟩, rfl⟩

theorem sorted_cons (b : Bool) (n : ℕ) (e : AuditEntry) (es : List AuditEntry) :
    S.sorted b n (e :: es) =
      if (S.up n && S.takes e) = b then e :: S.sorted b (n + 1) es else S.sorted b (n + 1) es := by
  simp only [sorted, zipIdx_cons, filter_cons, beq_iff_eq]
  split <;> rfl

/-- The world after a pass, with what was logged meanwhile. -/
def swept (S : Store) (n : ℕ) (es newer : List AuditEntry) (w : LoggerWorld) : LoggerWorld :=
  { w with stored := (S.sorted true n es).reverse ++ w.stored, buffer := w.buffer ++ newer }

theorem isolateLoop_run (es : List AuditEntry) (k n : ℕ) (refused : List AuditEntry)
    (w : LoggerWorld) :
    ∃ newer, (isolateLoop es k refused).run (S.answer cfg) (n, w) =
      ((k + (S.sorted true n es).length, refused ++ S.sorted false n es), n + es.length,
        S.swept n es newer w) := by
  induction es generalizing k n refused w with
  | nil => exact ⟨[], by simp [isolateLoop, sorted, swept]⟩
  | cons e es ih =>
    have hask : (ask (.insert e)).run (S.answer cfg) (n, w) = S.answer cfg (.insert e) (n, w) := rfl
    simp only [isolateLoop, run_bind, hask, answer]
    generalize (S.logged n).take (cfg.bufferSize - w.buffer.length) = late
    by_cases htake : (S.up n && S.takes e)
    · rw [if_pos htake]
      obtain ⟨newer, heq⟩ := ih (k + 1) (n + 1) refused _
      refine ⟨late ++ newer, heq.trans ?_⟩
      simp [sorted_cons, swept, htake, Nat.add_assoc, Nat.add_comm 1]
    · rw [if_neg htake]
      obtain ⟨newer, heq⟩ := ih k (n + 1) (refused ++ [e]) _
      refine ⟨late ++ newer, heq.trans ?_⟩
      simp [sorted_cons, swept, htake, Nat.add_assoc, Nat.add_comm 1]

/-- A store that took nothing gets its entries back in front of what was logged meanwhile, as far as
there is room; one that took some has the others quarantined. -/
theorem isolate_run (S : Store) (cfg : Settings) (n : ℕ) (es : List AuditEntry) (w : LoggerWorld) :
    ∃ newer, ((isolate es).run (S.answer cfg) (n, w)).2.2 = if S.sorted true n es = [] then
      (S.swept n es newer w).requeue cfg (S.sorted false n es)
      else { S.swept n es newer w with quarantined := S.sorted false n es ++ w.quarantined } := by
  obtain ⟨newer, hloop⟩ : ∃ newer, (isolateLoop es 0 []).run (S.answer cfg) (n, w) = _ :=
    isolateLoop_run es 0 n [] w
  refine ⟨newer, ?_⟩
  rw [isolate, run_bind, hloop]
  by_cases hnone : S.sorted true n es = []
  · simp only [hnone, length_nil, if_true]
    rfl
  · have hpos : ¬ 0 + (S.sorted true n es).length = 0 := by simpa using hnone
    simp only [hnone, hpos, if_false]
    rfl

theorem stored_isolate (S : Store) (cfg : Settings) (n : ℕ) (es : List AuditEntry)
    (w : LoggerWorld) :
    ((isolate es).run (S.answer cfg) (n, w)).2.2.stored =
      (S.sorted true n es).reverse ++ w.stored := by
  obtain ⟨newer, heq⟩ := isolate_run S cfg n es w
  rw [heq]
  split <;> rfl

/-- With the store in reach, a flush stores what the store takes of the buffer. -/
theorem mem_stored_flush (hup : ∀ k, S.up k) :
    e ∈ (flush.run (S.answer cfg) (n, w)).2.2.stored ↔
      e ∈ w.stored ∨ e ∈ w.buffer ∧ S.takes e := by
  have htake : (ask .take).run (S.answer cfg) (n, w) = (w.buffer, n, { w with buffer := [] }) := rfl
  rw [flush, run_bind, htake]
  by_cases hempty : w.buffer.isEmpty
  · rw [if_pos hempty]
    simp_all
  rw [if_neg hempty, run_bind]
  by_cases hall : w.buffer.all S.takes
  · have hbatch : (ask (.insertBatch w.buffer)).run (S.answer cfg) (n, { w with buffer := [] }) =
        (.ok (), n + 1, { w with buffer := [], stored := w.buffer ++ w.stored }) :=
      if_pos (by simp [hup, hall])
    rw [hbatch]
    change e ∈ w.buffer ++ w.stored ↔ _
    grind
  · have hbatch : (ask (.insertBatch w.buffer)).run (S.answer cfg) (n, { w with buffer := [] }) =
        (.error (), n + 1, { w with buffer := [] }) :=
      if_neg (by simp [hup, hall])
    rw [hbatch]
    simp [run_bind, stored_isolate, mem_sorted, hup, or_comm, ← mem_iff_getElem?]

theorem undivided_iff :
    S.Undivided n es ↔ S.sorted true n es = [] ∨ ∀ e ∈ S.sorted false n es, S.takes e = false := by
  constructor
  · rintro ⟨b, hb⟩
    refine or_iff_not_imp_left.mpr fun hne e he => ?_
    obtain ⟨e₀, he₀⟩ := exists_mem_of_ne_nil _ hne
    obtain ⟨i, hi, hgood⟩ := mem_sorted.mp he₀
    obtain ⟨j, hj, hbad⟩ := mem_sorted.mp he
    grind
  · rintro (hnone | hbad)
    · refine ⟨false, fun i e he htakes => ?_⟩
      by_contra hup
      exact not_mem_nil (hnone ▸ mem_sorted.mpr ⟨i, he, by simp_all⟩)
    · refine ⟨true, fun i e he htakes => ?_⟩
      by_contra hup
      exact absurd (hbad e (mem_sorted.mpr ⟨i, he, by simp_all⟩)) (by simp [htakes])

/-- **Outages and poison.** Of the entries of a pass that the store takes whenever it is in reach,
none is quarantined exactly if the store is in reach for all of them or for none; each is then
stored, or put back in front of what was logged meanwhile, or dropped for want of room. With the
store in reach, an entry that it takes and that is logged now is stored by the next flush, whatever
is in the buffer, exactly if there is room for it or it is critical. -/
theorem outage_not_poison (S : Store) (cfg : Settings) (n : ℕ) (w : LoggerWorld) :
    (∀ es, ∃ quarantined back newer lost, let w' := ((isolate es).run (S.answer cfg) (n, w)).2.2
      w'.quarantined = quarantined ++ w.quarantined ∧ w'.buffer = back ++ w.buffer ++ newer ∧
      w'.dropped = lost ++ w.dropped ∧ (lost ≠ [] → cfg.bufferSize ≤ w'.buffer.length) ∧
      ((∀ e ∈ quarantined, S.takes e = false) ↔ S.Undivided n es) ∧
      ∀ e ∈ es, e ∈ w'.stored ∨ e ∈ back ∨ e ∈ lost ∨ e ∈ quarantined) ∧
    ∀ eventType, let e : AuditEntry := ⟨w.supply, eventType⟩
      (∀ k, S.up k) → S.takes e → 0 < cfg.flushEvery → w.closed = false →
      e ∉ w.buffer → e ∉ w.stored →
      (e ∈ ((log cfg eventType >>= fun _ => flush).run (S.answer cfg) (n, w)).2.2.stored ↔
        w.buffer.length < cfg.bufferSize ∨ isCriticalEvent eventType) := by
  refine ⟨fun es => ?_, fun eventType hup htakes hbatch hopen hbuffer hstored => ?_⟩
  · obtain ⟨newer, heq⟩ := isolate_run S cfg n es w
    have hmem : ∀ e ∈ es, e ∈ S.sorted true n es ∨ e ∈ S.sorted false n es := by
      intro e he
      obtain ⟨i, hi⟩ := mem_iff_getElem?.mp he
      cases hb : S.up (n + i) && S.takes e with
      | true => exact .inl (mem_sorted.mpr ⟨i, hi, hb⟩)
      | false => exact .inr (mem_sorted.mpr ⟨i, hi, hb⟩)
    rw [heq, undivided_iff]
    by_cases hnone : S.sorted true n es = []
    · refine ⟨[], (S.sorted false n es).take (cfg.bufferSize - (w.buffer ++ newer).length), newer,
        (S.sorted false n es).drop (cfg.bufferSize - (w.buffer ++ newer).length), ?_⟩
      rw [if_pos hnone]
      refine ⟨rfl, by simp [LoggerWorld.requeue, swept], rfl, fun hlost => ?_, by simp [hnone],
        fun e he => ?_⟩
      · have := drop_eq_nil_iff.not.mp hlost
        simp [LoggerWorld.requeue, swept] at this ⊢
        omega
      · have hrest := (hmem e he).resolve_left (by simp [hnone])
        rw [← take_append_drop (cfg.bufferSize - (w.buffer ++ newer).length) (S.sorted false n es),
          mem_append] at hrest
        exact .inr (hrest.imp_right .inl)
    · refine ⟨S.sorted false n es, [], newer, [], ?_⟩
      rw [if_neg hnone]
      refine ⟨rfl, rfl, rfl, nofun, by simp [hnone], fun e he => ?_⟩
      exact (hmem e he).imp (fun h => by simp [swept, h]) fun h => .inr (.inr h)
  · set w₁ : LoggerWorld := { w with supply := w.supply + 1 } with hw₁
    set e : AuditEntry := ⟨w.supply, eventType⟩
    have hid : (ask .randomUUID).run (S.answer cfg) (n, w) = (.ok w.supply, n, w₁) := rfl
    have hclosed : (ask .isClosed).run (S.answer cfg) (n, w₁) = (false, n, w₁) := Prod.ext hopen rfl
    have happend : (ask (.append e)).run (S.answer cfg) (n, w₁) =
        ((loggerAnswer cfg (.append e) w₁).1, n, (loggerAnswer cfg (.append e) w₁).2) := rfl
    rw [run_bind, mem_stored_flush hup, log, run_bind, hid]
    dsimp only
    rw [if_pos hbatch, run_bind, hclosed, if_neg Bool.false_ne_true, run_bind, happend,
      loggerAnswer]
    change _ ↔ w₁.buffer.length < cfg.bufferSize ∨ _
    by_cases hfull : cfg.bufferSize ≤ w₁.buffer.length
    · simp only [if_pos hfull, Bool.false_eq_true, if_false, Nat.not_lt.mpr hfull, false_or]
      rw [logFull, run_bind]
      by_cases hcrit : isCriticalEvent eventType
      · set w₂ : LoggerWorld := { w₁ with dropped := e :: w₁.dropped }
        have hdrop : (ask (.addDropped e)).run (S.answer cfg) (n, w₁) = ((), n, w₂) := rfl
        have hput : (ask (.insert e)).run (S.answer cfg) (n, w₂) = (.ok (), n + 1, _) :=
          if_pos (by simp [hup, htakes])
        rw [if_pos hcrit, hdrop, run_bind, hput]
        simp [hcrit]
      · have hout : ¬ (e ∈ w₁.stored ∨ e ∈ w₁.buffer ∧ S.takes e) := by
          simp [w₁, hstored, hbuffer]
        rw [if_neg hcrit]
        exact iff_of_false hout hcrit
    · simp only [if_neg hfull]
      simp [Nat.lt_of_not_le hfull, htakes]

namespace Sample

def settings : Settings := ⟨1, 1⟩

/-- A store that does not take the entry 0. -/
def store (up : ℕ → Bool) : Store := ⟨fun e => e.id != 0, up, fun _ => []⟩

/-- The buffer is full of the entry 0. -/
def crowded : LoggerWorld := ⟨1, [⟨0, "login_success"⟩], false, .idle, [], [], [], []⟩

/-- An entry that the store takes is quarantined after one statement out of reach; another is not
stored, behind one that the store does not take. -/
theorem quarantined_and_crowded_out :
    ⟨2, "login_success"⟩ ∈ ((isolate [⟨1, "login_success"⟩, ⟨2, "login_success"⟩]).run
      ((store (· != 1)).answer settings) (0, crowded)).2.2.quarantined ∧
    ⟨1, "login_success"⟩ ∉ ((log settings "login_success" >>= fun _ => flush).run
      ((store fun _ => true).answer settings) (0, crowded)).2.2.stored := by
  decide +kernel

theorem stored_of_critical :
    ⟨1, "login_failure"⟩ ∈ ((log settings "login_failure" >>= fun _ => flush).run
      ((store fun _ => true).answer settings) (0, crowded)).2.2.stored :=
  ((outage_not_poison (store fun _ => true) settings 0 crowded).2 "login_failure" (fun _ => rfl)
    (by decide) (by decide) rfl (by decide) (by decide)).mpr (.inr (by decide +kernel))

end Sample

end Store

end Vault42.Audit
