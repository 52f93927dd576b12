import Vault42.Audit.Logger
import Mathlib.Algebra.Order.Group.Multiset

/-!
# Where an audit entry is

An entry that was handed to the logger is in the table, in the buffer, or carried by a call that has
taken it and not yet passed it on; or it has been counted as dropped or as quarantined. `carried`
reads off a conversation what its call carries, and `Conduct` says what the calls do with it.

Two results follow.

* Nothing is stored twice, whatever the schedule: the ledger of table, buffer and carried entries
  never holds an entry twice (`ledger_nodup`).
* Nothing is lost, as long as nobody is caught between two steps when `Close` takes the buffer
  (`Quiet`): `audit_entries_conserved`. `Log` looks at `done` before it locks the buffer, and
  `Flush` empties the buffer before it inserts, so a call that has done the first and not the second
  when `Close` takes the buffer can leave its entries in a buffer nobody reads:
  `Sample.entry_stranded`.
-/

namespace Vault42.Audit

open Framework Program List Option Thread

variable {req : LoggerReq} {cl : LoggerCall} {r : cl.Reply} {t : ℕ} {e : AuditEntry}

variable {cfg : Settings}

/-! ### What a call carries -/

/-- What a call carries after one more exchange. -/
def carry (req : LoggerReq) (es : List AuditEntry) : (c : LoggerCall) → c.Reply → List AuditEntry
  | .randomUUID, .ok id =>
    match req with
    | .log eventType => [⟨id, eventType⟩]
    | _ => es
  | .append e, true => es.erase e
  | .insert e, .ok _ => es.erase e
  | .insertBatch _, .ok _ => []
  | .take, entries => entries
  | .requeue _, _ => []
  | .addQuarantined _, _ => []
  | _, _ => es

/-- The entries the call has got hold of and not passed on. -/
def carried (req : LoggerReq) : List (Event loggerSig) → List AuditEntry
  | [] => []
  | e :: past => carry req (carried req past) e.1 e.2

/-- The call put the buffer's content back. -/
def Requeued (past : List (Event loggerSig)) (e : AuditEntry) : Prop :=
  ∃ es, ⟨.requeue es, ()⟩ ∈ past ∧ e ∈ es

/-- The call has taken the buffer. -/
def Took (past : List (Event loggerSig)) : Prop := ∃ es, ⟨.take, es⟩ ∈ past

/-- **What a call does**, by what it carries. -/
def Conduct (req : LoggerReq) (past : List (Event loggerSig)) (c : LoggerCall) : Prop :=
  match c with
  | .randomUUID => carried req past = [] ∧ ∃ eventType, req = .log eventType
  | .isClosed => ∃ eventType, req = .log eventType
  | .append e => carried req past = [e] ∧ ⟨.isClosed, false⟩ ∈ past
  | .insert e => e ∈ carried req past
  | .insertBatch es => (carried req past).Perm es
  | .take => carried req past = [] ∧ (∀ eventType, req ≠ .log eventType) ∧
      (req = .close → ⟨.closeDone, ()⟩ ∈ past)
  | .requeue es => (carried req past).Perm es ∧ ∀ eventType, req ≠ .log eventType
  | .addQuarantined es => (carried req past).Perm es
  | .closeDone => req = .close
  | _ => True

/-- How a call ends. A `Log` that reports nothing has passed its entry on or had it counted; a flush
carries nothing any more, and reports it if it has put entries back. -/
def Ended (req : LoggerReq) (past : List (Event loggerSig)) (r : Outcome) : Prop :=
  match req with
  | .log eventType => r = .ok → ∃ id, ⟨.randomUUID, .ok id⟩ ∈ past ∧
      (⟨.append ⟨id, eventType⟩, true⟩ ∈ past ∨ ⟨.addDropped ⟨id, eventType⟩, ()⟩ ∈ past ∨
        ⟨.insert ⟨id, eventType⟩, .ok ()⟩ ∈ past)
  | _ => carried req past = [] ∧ (∀ e, Requeued past e → r = .error) ∧
      (⟨.closeDone, ()⟩ ∈ past → Took past)

def conduct (req : LoggerReq) : Discipline loggerSig := .history (Conduct req)

section Programs

variable {past : List (Event loggerSig)}

theorem ask_bind {α : Type} {c : LoggerCall} {f : c.Reply → LoggerProg α}
    {Q : List (Event loggerSig) → α → Prop} (h : Conduct req past c)
    (hf : ∀ r, (f r).Obeys (conduct req) Q (⟨c, r⟩ :: past)) :
    (ask c >>= f).Obeys (conduct req) Q past :=
  .call h fun r _ => hf r

theorem log_conduct (eventType : String) :
    (Logger.log cfg eventType).Obeys (conduct (.log eventType)) (Ended (.log eventType)) [] := by
  refine ask_bind ⟨rfl, eventType, rfl⟩ fun (r : Except Unit UUID) => ?_
  cases r with
  | error => exact nofun
  | ok id =>
    -- from here on the call carries its entry, until somebody takes it
    refine .ite ?_ ?_
    · refine ask_bind ⟨eventType, rfl⟩ fun (closed : Bool) => ?_
      cases closed with
      | true =>
        refine ask_bind trivial fun _ => ask_bind mem_cons_self fun (r : Except Unit Unit) => ?_
        cases r with
        | error => exact nofun
        | ok => exact fun _ => ⟨id, by simp, .inr (.inr (by simp))⟩
      | false =>
        refine ask_bind ⟨rfl, mem_cons_self⟩ fun (fits : Bool) => ?_
        cases fits with
        | true => exact fun _ => ⟨id, by simp, .inl (by simp)⟩
        | false =>
          refine ask_bind trivial fun _ => .ite ?_ ?_
          · exact ask_bind mem_cons_self fun _ _ => ⟨id, by simp, .inr (.inl (by simp))⟩
          · exact fun _ => ⟨id, by simp, .inr (.inl (by simp))⟩
    · refine ask_bind mem_cons_self fun (r : Except Unit Unit) => ?_
      cases r with
      | error => exact nofun
      | ok => exact fun _ => ⟨id, by simp, .inr (.inr (by simp))⟩

/-- Along the loop the call carries what was refused and what is still to be tried. -/
theorem isolateLoop_conduct (entries : List AuditEntry) (accepted : ℕ) (refused : List AuditEntry)
    (h : (carried req past).Perm (refused ++ entries)) :
    (Logger.isolateLoop entries accepted refused).Obeys (conduct req)
      (fun ψ res => (carried req ψ).Perm res.2 ∧ past ⊆ ψ) past := by
  induction entries generalizing accepted refused past with
  | nil =>
    rw [append_nil] at h
    exact ⟨h, fun _ he => he⟩
  | cons e entries ih =>
    have hmem : e ∈ carried req past := h.mem_iff.mpr (by simp)
    refine ask_bind hmem fun (r : Except Unit Unit) => ?_
    cases r with
    | error =>
      refine (ih accepted (refused ++ [e]) ?_).mono fun ψ res hres =>
        ⟨hres.1, fun _ he => hres.2 (mem_cons_of_mem _ he)⟩
      rw [append_assoc]
      exact h
    | ok =>
      refine (ih (accepted + 1) refused ?_).mono fun ψ res hres =>
        ⟨hres.1, fun _ he => hres.2 (mem_cons_of_mem _ he)⟩
      have hperm : (carried req past).Perm (e :: (refused ++ entries)) :=
        h.trans perm_middle
      exact (hperm.erase e).trans (by rw [erase_cons_head])

/-- A flush of a call that carries nothing and has put nothing back. -/
theorem flush_conduct (hreq : ∀ eventType, req ≠ .log eventType) (h : carried req past = [])
    (hclose : req = .close → ⟨.closeDone, ()⟩ ∈ past) (hnone : ∀ e, ¬ Requeued past e) :
    Logger.flush.Obeys (conduct req) (fun ψ r => carried req ψ = [] ∧
      (∀ e, Requeued ψ e → r = .error) ∧ Took ψ) past := by
  -- what was not put back yet is not put back by an exchange of another kind
  have skip : ∀ {ψ : List (Event loggerSig)} {ev : Event loggerSig}, (∀ e, ¬ Requeued ψ e) →
      (∀ es, ev ≠ ⟨.requeue es, ()⟩) → ∀ e, ¬ Requeued (ev :: ψ) e := by
    rintro ψ ev hψ hev e ⟨es, hmem, he⟩
    rcases mem_cons.mp hmem with heq | hmem
    · exact hev es heq.symm
    · exact hψ e ⟨es, hmem, he⟩
  refine ask_bind ⟨h, hreq, hclose⟩ fun (entries : List AuditEntry) => ?_
  have h₁ : ∀ e, ¬ Requeued (⟨.take, entries⟩ :: past) e := skip hnone nofun
  cases hempty : entries.isEmpty with
  | true =>
    exact ⟨isEmpty_iff.mp hempty, fun e he => (h₁ e he).elim, entries, mem_cons_self⟩
  | false =>
    refine ask_bind (Perm.refl _) fun (r : Except Unit Unit) => ?_
    cases r with
    | ok u =>
      have h₂ : ∀ e, ¬ Requeued (⟨.insertBatch entries, .ok u⟩ :: ⟨.take, entries⟩ :: past) e :=
        skip h₁ nofun
      exact ⟨rfl, fun e he => (h₂ e he).elim, entries, by simp⟩
    | error =>
      refine Obeys.bind (Q := fun ψ _ => carried req ψ = [] ∧ Took ψ) ?_
        fun ψ _ hψ => ⟨hψ.1, fun _ _ => rfl, hψ.2⟩
      refine (isolateLoop_conduct entries 0 [] (Perm.refl _)).bind ?_
      rintro ψ ⟨accepted, refused⟩ ⟨hperm, hsub⟩
      have htake : Took ψ := ⟨entries, hsub (by simp)⟩
      refine .ite ?_ ?_
      · exact ⟨⟨hperm, hreq⟩, fun _ _ => ⟨rfl, htake.imp fun _ => mem_cons_of_mem _⟩⟩
      · exact ⟨hperm, fun _ _ => ⟨rfl, htake.imp fun _ => mem_cons_of_mem _⟩⟩

theorem close_conduct : Logger.close.Obeys (conduct .close) (Ended .close) [] := by
  refine ask_bind trivial fun (first : Bool) => ?_
  cases first with
  | false => exact ⟨rfl, by simp [Requeued], by simp⟩
  | true =>
    refine ask_bind rfl fun _ => ?_
    refine (flush_conduct (by simp) rfl (fun _ => mem_cons_self) ?_).bind fun ψ r hψ => ?_
    · simp [Requeued]
    · obtain ⟨hcarried, hrequeued, es, htake⟩ := hψ
      refine ask_bind trivial fun _ => ⟨hcarried, ?_, fun _ => ⟨es, mem_cons_of_mem _ htake⟩⟩
      rintro e ⟨es', hmem, he⟩
      rcases mem_cons.mp hmem with heq | hmem
      · cases heq
      · exact hrequeued e ⟨es', hmem, he⟩

/-- **Every call conducts itself so.** -/
theorem program_conduct (cfg : Settings) (req : LoggerReq) :
    (req.program cfg).Obeys (conduct req) (Ended req) [] := by
  cases req with
  | log eventType => exact log_conduct eventType
  | flush =>
    exact (flush_conduct (by simp) rfl (by simp) (by simp [Requeued])).mono fun ψ r hψ =>
      ⟨hψ.1, hψ.2.1, fun _ => hψ.2.2⟩
  | close => exact close_conduct

end Programs

theorem carry_of_fault {es : List AuditEntry}
    (hr : LoggerFault cl r) : carry req es cl r = es := by
  cases cl with
  | randomUUID | insert | insertBatch =>
    obtain ⟨e, rfl⟩ := hr
    rfl
  | _ => exact hr.elim

/-! ### The ledger -/

section Ledger

variable {c c' : Config (logger cfg)} {l : Label (logger cfg)}

/-- The entries that are in the table, in the buffer, or carried. -/
def ledger (c : Config (logger cfg)) : Multiset AuditEntry :=
  c.world.stored + c.world.buffer +
    (c.threads.map fun th => (carried th.req th.past : Multiset AuditEntry)).sum

theorem sum_map_set {α M : Type} [AddCommMonoid M] (f : α → M) {xs : List α} {i : ℕ} {a : α} (b : α)
    (h : xs[i]? = some a) : ((xs.set i b).map f).sum + f a = (xs.map f).sum + f b := by
  induction xs generalizing i with
  | nil => cases h
  | cons x xs ih =>
    cases i with
    | zero =>
      obtain rfl : x = a := some.inj h
      simp only [set_cons_zero, map_cons, sum_cons]
      ac_rfl
    | succ =>
      simp only [set_cons_succ, map_cons, sum_cons]
      rw [add_assoc, ih h, add_assoc]

/-- **A call only moves entries**: between the table, the buffer and what it carries nothing is
added, the draw of an id apart. -/
theorem moved {past : List (Event loggerSig)} (w : LoggerWorld)
    (hconduct : Conduct req past cl) (hcl : cl ≠ .randomUUID) :
    ((loggerAnswer cfg cl w).2.stored + (loggerAnswer cfg cl w).2.buffer +
        carry req (carried req past) cl (loggerAnswer cfg cl w).1 : Multiset AuditEntry) ≤
      w.stored + w.buffer + carried req past := by
  cases cl with
  | randomUUID => exact absurd rfl hcl
  | append =>
    obtain ⟨hcarried, -⟩ := hconduct
    by_cases hfull : cfg.bufferSize ≤ w.buffer.length
    · simp only [loggerAnswer, if_pos hfull, carry]
      exact le_refl _
    · simp only [loggerAnswer, if_neg hfull, carry, hcarried, erase_cons_head]
      rw [← Multiset.coe_add, Multiset.coe_nil, add_zero, add_assoc]
  | insert e =>
    have hmem : e ∈ carried req past := hconduct
    have hperm := perm_cons_erase hmem
    simp only [loggerAnswer, carry]
    rw [Multiset.coe_eq_coe.mpr hperm, ← Multiset.cons_coe, ← Multiset.cons_coe,
      Multiset.cons_add, Multiset.cons_add, Multiset.add_cons]
  | insertBatch es =>
    have hperm : (carried req past).Perm es := hconduct
    simp only [loggerAnswer, carry]
    rw [Multiset.coe_eq_coe.mpr hperm, ← Multiset.coe_add, Multiset.coe_nil, add_zero]
    exact le_of_eq (by ac_rfl)
  | take =>
    obtain ⟨hcarried, -⟩ := hconduct
    simp only [loggerAnswer, carry, hcarried]
    exact le_of_eq (by rw [Multiset.coe_nil, add_zero, add_zero])
  | requeue =>
    obtain ⟨hperm, -⟩ := hconduct
    simp only [loggerAnswer, carry, LoggerWorld.requeue]
    rw [Multiset.coe_eq_coe.mpr hperm, ← Multiset.coe_add, Multiset.coe_nil, add_zero, add_assoc,
      add_comm (w.buffer : Multiset AuditEntry)]
    gcongr
    exact Multiset.coe_le.mpr (take_sublist _ _).subperm
  | addQuarantined =>
    simp only [loggerAnswer, carry]
    rw [Multiset.coe_nil, add_zero]
    exact Multiset.le_add_right _ _
  | onceEnter =>
    simp only [loggerAnswer]
    split <;> exact le_refl _
  | _ => exact le_refl _

/-- The step of a thread that adds nothing of its own adds nothing to the ledger. -/
theorem ledger_le {th th' : Thread (logger cfg)} {w : LoggerWorld}
    (hth : c.threads[t]? = some th)
    (hmove : (w.stored + w.buffer + carried th'.req th'.past : Multiset AuditEntry) ≤
      c.world.stored + c.world.buffer + carried th.req th.past) :
    ledger (⟨w, c.threads.set t th'⟩ : Config (logger cfg)) ≤ ledger c := by
  have hsum := sum_map_set (fun th =>
    (carried th.req th.past : Multiset AuditEntry)) th' hth
  refine le_of_add_le_add_right (a := (carried th.req th.past : Multiset AuditEntry)) ?_
  unfold ledger
  calc _ = (w.stored + w.buffer + carried th'.req th'.past : Multiset AuditEntry) +
        (c.threads.map fun th => (carried th.req th.past : Multiset AuditEntry)).sum := by
        rw [add_assoc, hsum]
        ac_rfl
    _ ≤ (c.world.stored + c.world.buffer + carried th.req th.past : Multiset AuditEntry) +
        (c.threads.map fun th => (carried th.req th.past : Multiset AuditEntry)).sum := by
        gcongr
    _ = _ := by ac_rfl

/-- The step of a thread that starts to carry an entry adds that entry. -/
theorem ledger_draw {th th' : Thread (logger cfg)} {w : LoggerWorld}
    (hth : c.threads[t]? = some th) (hstored : w.stored = c.world.stored)
    (hbuffer : w.buffer = c.world.buffer) (hnone : carried th.req th.past = [])
    (hnew : carried th'.req th'.past = [e]) :
    ledger (⟨w, c.threads.set t th'⟩ : Config (logger cfg)) = e ::ₘ ledger c := by
  have hsum := sum_map_set (fun th =>
    (carried th.req th.past : Multiset AuditEntry)) th' hth
  rw [hnone, hnew, Multiset.coe_nil, add_zero, Multiset.coe_singleton] at hsum
  unfold ledger
  rw [hsum, hstored, hbuffer, ← Multiset.singleton_add]
  ac_rfl

/-- A logger that was just built, over a table without duplicates. -/
structure Fresh (w : LoggerWorld) : Prop where
  buffer : w.buffer = []
  closed : w.closed = false
  nodup : w.stored.Nodup
  drawn : ∀ e ∈ w.stored, e.id < w.supply

/-- **No entry is in two places**, and every entry has an id that was drawn. -/
theorem ledger_nodup (hc : Reachable Fresh anyStep c) :
    (ledger c).Nodup ∧ ∀ e ∈ ledger c, e.id < c.world.supply := by
  refine hc.induct (P := fun c => (ledger c).Nodup ∧ ∀ e ∈ ledger c, e.id < c.world.supply) ?_ ?_
  · intro w hw
    have heq : ledger (⟨w, []⟩ : Config (logger cfg)) = w.stored := by
      simp only [ledger, hw.buffer, map_nil, sum_nil, Multiset.coe_nil, add_zero]
    rw [heq]
    exact ⟨Multiset.coe_nodup.mpr hw.nodup, hw.drawn⟩
  intro c l c' hc ih _ hs
  -- a step that adds nothing, with the supply as it was
  have smaller : ledger c' ≤ ledger c → c'.world.supply = c.world.supply →
      (ledger c').Nodup ∧ ∀ e ∈ ledger c', e.id < c'.world.supply := by
    intro hle hsupply
    rw [hsupply]
    exact ⟨Multiset.nodup_of_le hle ih.1, fun e he => ih.2 e (Multiset.mem_of_le hle he)⟩
  -- a step that adds an entry with the id that was next
  have larger : ∀ e, ledger c' = e ::ₘ ledger c → e.id = c.world.supply →
      c'.world.supply = c.world.supply + 1 →
      (ledger c').Nodup ∧ ∀ e ∈ ledger c', e.id < c'.world.supply := by
    intro e hledger hid hsupply
    rw [hledger, hsupply]
    refine ⟨Multiset.nodup_cons.mpr ⟨fun hmem => ?_, ih.1⟩, fun e' he' => ?_⟩
    · exact absurd (ih.2 e hmem) (hid ▸ lt_irrefl _)
    · rcases Multiset.mem_cons.mp he' with rfl | he'
      · exact hid ▸ Nat.lt_succ_self _
      · exact Nat.lt_succ_of_lt (ih.2 e' he')
  cases hs with
  | spawn =>
    refine smaller (le_of_eq ?_) rfl
    simp [ledger, fresh, carried]
  | nudge n => exact n.elim
  | @fault t th cl k r hth hrest hr =>
    have hcarry : carried th.req (⟨cl, r⟩ :: th.past) = carried th.req th.past :=
      carry_of_fault hr
    exact smaller (ledger_le hth (le_of_eq (congrArg (_ + ·) (congrArg _ hcarry)))) rfl
  | @act t th cl k hth hrest =>
    have hconduct : Conduct th.req th.past cl :=
      hc.allows_history hth (program_conduct cfg th.req) (pending_of_call hrest)
    by_cases hcl : cl = .randomUUID
    · subst hcl
      obtain ⟨hnone, eventType, hreq⟩ := hconduct
      have hnew : carried th.req (⟨.randomUUID, .ok c.world.supply⟩ :: th.past) =
          [⟨c.world.supply, eventType⟩] := by
        rw [hreq]
        rfl
      exact larger _ (ledger_draw hth rfl rfl hnone hnew) rfl rfl
    · refine smaller (ledger_le hth (moved c.world hconduct hcl)) ?_
      cases cl with
      | randomUUID => exact absurd rfl hcl
      | append | onceEnter =>
        show (loggerAnswer cfg _ c.world).2.supply = c.world.supply
        simp only [loggerAnswer]
        split <;> rfl
      | _ => rfl

end Ledger

/-! ### Nothing is lost -/

section Conservation

variable {Init : LoggerWorld → Prop} {ok : Config (logger cfg) → Label (logger cfg) → Prop}
  {c c' : Config (logger cfg)} {l : Label (logger cfg)}

/-- The entry is in the table, in the buffer or in the hands of a flush, or it has been counted. -/
def Somewhere (c : Config (logger cfg)) (e : AuditEntry) : Prop :=
  e ∈ c.world.stored ∨ e ∈ c.world.dropped ∨ e ∈ c.world.quarantined ∨ e ∈ c.world.buffer ∨
    ∃ (t : ℕ) (th : Thread (logger cfg)), c.threads[t]? = some th ∧
      (∀ eventType, th.req ≠ .log eventType) ∧ e ∈ carried th.req th.past

variable {th : Thread (logger cfg)}

theorem conduct_of_reachable (hc : Reachable Init ok c) (hth : c.threads[t]? = some th)
    (hpend : th.pending = some cl) : Conduct th.req th.past cl :=
  hc.allows_history hth (program_conduct cfg th.req) hpend

/-- What a flush carries is passed on by its next call, or still carried. -/
theorem passed_on {past : List (Event loggerSig)} (w : LoggerWorld)
    (hconduct : Conduct req past cl) (hreq : ∀ eventType, req ≠ .log eventType)
    (he : e ∈ carried req past) :
    e ∈ (loggerAnswer cfg cl w).2.stored ∨ e ∈ (loggerAnswer cfg cl w).2.dropped ∨
      e ∈ (loggerAnswer cfg cl w).2.quarantined ∨ e ∈ (loggerAnswer cfg cl w).2.buffer ∨
      e ∈ carry req (carried req past) cl (loggerAnswer cfg cl w).1 := by
  cases cl with
  | randomUUID =>
    obtain ⟨-, eventType, heq⟩ := hconduct
    exact absurd heq (hreq eventType)
  | append e' =>
    by_cases hfull : cfg.bufferSize ≤ w.buffer.length
    · simp [loggerAnswer, if_pos hfull, carry, he]
    · by_cases heq : e = e'
      · simp [loggerAnswer, if_neg hfull, heq]
      · simp [loggerAnswer, if_neg hfull, carry, (mem_erase_of_ne heq).mpr he]
  | insert e' =>
    by_cases heq : e = e'
    · simp [loggerAnswer, heq]
    · simp [loggerAnswer, carry, (mem_erase_of_ne heq).mpr he]
  | insertBatch es | addQuarantined es =>
    have hperm : (carried req past).Perm es := hconduct
    simp [loggerAnswer, hperm.mem_iff.mp he]
  | take =>
    rw [hconduct.1] at he
    cases he
  | requeue es =>
    obtain ⟨hperm, -⟩ := hconduct
    have hmem := hperm.mem_iff.mp he
    rw [← take_append_drop (cfg.bufferSize - w.buffer.length) es] at hmem
    rcases mem_append.mp hmem with hkept | hlost
    · simp [loggerAnswer, LoggerWorld.requeue, hkept]
    · simp [loggerAnswer, LoggerWorld.requeue, hlost]
  | _ => exact .inr (.inr (.inr (.inr he)))

/-- The table and the counters only grow, and what leaves the buffer is taken. -/
theorem kept (cl : LoggerCall) (w : LoggerWorld) :
    w.stored ⊆ (loggerAnswer cfg cl w).2.stored ∧ w.dropped ⊆ (loggerAnswer cfg cl w).2.dropped ∧
      w.quarantined ⊆ (loggerAnswer cfg cl w).2.quarantined ∧
      (cl = .take ∨ w.buffer ⊆ (loggerAnswer cfg cl w).2.buffer) := by
  cases cl with
  | append | onceEnter =>
    simp only [loggerAnswer]
    split <;> simp
  | _ => simp [loggerAnswer, LoggerWorld.requeue]

/-- **An entry that is somewhere stays somewhere.** -/
theorem Somewhere.step (hc : Reachable Init ok c) (h : Somewhere c e) (hs : Step c l c') :
    Somewhere c' e := by
  -- a flush carries what it carried, unless its own step passes it on
  have flushed : (∃ (u : ℕ) (tu : Thread (logger cfg)), c.threads[u]? = some tu ∧
      (∀ eventType, tu.req ≠ .log eventType) ∧ e ∈ carried tu.req tu.past) → Somewhere c' e := by
    rintro ⟨u, tu, htu, hreq, he⟩
    rcases hs.onward htu with htu' | ⟨cl, k, r, hrest, htu', ⟨rfl, hworld⟩ | ⟨hr, -⟩⟩
    · exact .inr (.inr (.inr (.inr ⟨u, tu, htu', hreq, he⟩)))
    · have hpend := pending_of_call hrest
      unfold Somewhere
      rw [hworld]
      refine (passed_on c.world (conduct_of_reachable hc htu hpend) hreq he).imp_right ?_
      exact .imp_right (.imp_right (.imp_right fun h => ⟨u, _, htu', hreq, h⟩))
    · have hcarry : carried tu.req (⟨cl, r⟩ :: tu.past) = carried tu.req tu.past :=
        carry_of_fault hr
      exact .inr (.inr (.inr (.inr ⟨u, _, htu', hreq, hcarry.symm ▸ he⟩)))
  cases hs with
  | nudge n => exact n.elim
  | @act t th cl k hth hrest =>
    obtain ⟨hstored, hdropped, hquarantined, hbuffer⟩ := @kept cfg cl c.world
    rcases h with h | h | h | h | h
    · exact .inl (hstored h)
    · exact .inr (.inl (hdropped h))
    · exact .inr (.inr (.inl (hquarantined h)))
    · rcases hbuffer with rfl | hbuffer
      · -- the flush that takes the buffer carries it
        have hconduct := conduct_of_reachable hc hth (pending_of_call hrest)
        exact .inr (.inr (.inr (.inr ⟨t, _, List.getElem?_set_self
          (List.getElem?_eq_some_iff.mp hth).1, hconduct.2.1, h⟩)))
      · exact .inr (.inr (.inr (.inl (hbuffer h))))
    · exact flushed h
  | _ =>
    rcases h with h | h | h | h | h
    · exact .inl h
    · exact .inr (.inl h)
    · exact .inr (.inr (.inl h))
    · exact .inr (.inr (.inr (.inl h)))
    · exact flushed h

/-- An entry that was appended, counted or inserted is somewhere ever after. -/
theorem somewhere_of_exchange (hc : Reachable Init ok c)
    (hth : c.threads[t]? = some th) (hmem : ⟨cl, r⟩ ∈ th.past) (hfault : ¬ LoggerFault cl r)
    (hact : ∀ w, r = (loggerAnswer cfg cl w).1 → e ∈ (loggerAnswer cfg cl w).2.stored ∨
      e ∈ (loggerAnswer cfg cl w).2.dropped ∨ e ∈ (loggerAnswer cfg cl w).2.buffer) :
    Somewhere c e := by
  refine hc.since (P := fun c => Somewhere c e) ?_ ?_ hfault hth hmem
  · exact fun _ _ _ hc h _ => h.step hc
  · intro c t c' _ hr _ _ hw
    unfold Somewhere
    rw [hw]
    rcases hact c.world hr with h | h | h
    · exact .inl h
    · exact .inr (.inl h)
    · exact .inr (.inr (.inr (.inl h)))

theorem somewhere_of_logged (hc : Reachable Init ok c) (hth : c.threads[t]? = some th)
    {eventType : String} (hreq : th.req = .log eventType) (hres : th.result = some .ok) :
    ∃ id, ⟨.randomUUID, .ok id⟩ ∈ th.past ∧ Somewhere c ⟨id, eventType⟩ := by
  have hended : Ended th.req th.past .ok := hc.ends_history hth (program_conduct cfg th.req) hres
  rw [hreq] at hended
  obtain ⟨id, hid, happend | hdropped | hinsert⟩ := hended rfl
  · refine ⟨id, hid, somewhere_of_exchange hc hth happend (fun h => h) fun w hr => ?_⟩
    by_cases hfull : cfg.bufferSize ≤ w.buffer.length
    · rw [loggerAnswer, if_pos hfull] at hr
      cases hr
    · rw [loggerAnswer, if_neg hfull]
      exact .inr (.inr (by simp))
  · exact ⟨id, hid, somewhere_of_exchange hc hth hdropped (fun h => h) fun w _ =>
      .inr (.inl mem_cons_self)⟩
  · refine ⟨id, hid, somewhere_of_exchange hc hth hinsert ?_ fun w _ => .inl mem_cons_self⟩
    rintro ⟨err, herr⟩
    cases herr

end Conservation

/-! ### After the last flush -/

section Sealing

variable {c c' : Config (logger cfg)} {l : Label (logger cfg)}

/-- **Nobody is caught between two steps** when a `Close` is about to take the buffer: every other
call has ended, or has neither found the logger open nor taken the buffer. -/
def Quiet (c : Config (logger cfg)) (l : Label (logger cfg)) : Prop :=
  ∀ (t : ℕ) th, l = .act t → c.threads[t]? = some th → th.req = .close →
    th.pending = some .take → ∀ (u : ℕ) tu, c.threads[u]? = some tu → u ≠ t →
      tu.pending = none ∨ ⟨.isClosed, false⟩ ∉ tu.past ∧ ¬ Took tu.past

/-- A `Close` has put the entry back into the buffer. -/
def PutBack (c : Config (logger cfg)) (e : AuditEntry) : Prop :=
  ∃ (t : ℕ) (th : Thread (logger cfg)), c.threads[t]? = some th ∧ th.req = .close ∧
    Requeued th.past e

/-- **After the last flush**: nobody will append, and what is in the buffer, or taken from it by a
late tick, was put back by `Close`. -/
structure Sealed (c : Config (logger cfg)) : Prop where
  closed : c.world.closed
  ended : ∀ (t : ℕ) th, c.threads[t]? = some th →
    ⟨.isClosed, false⟩ ∈ th.past → th.pending = none
  buffered : ∀ e ∈ c.world.buffer, PutBack c e
  held : ∀ (t : ℕ) th e, c.threads[t]? = some th →
    th.req = .flush → e ∈ carried th.req th.past → PutBack c e

theorem PutBack.step (h : PutBack c e) (hs : Step c l c') : PutBack c' e := by
  obtain ⟨t, th, hth, hreq, es, hmem, he⟩ := h
  obtain ⟨th', hth', hreq', hsuf⟩ := hs.past hth
  exact ⟨t, th', hth', hreq'.trans hreq, es, hsuf.subset hmem, he⟩

/-- A call carries nothing before it has taken anything. -/
theorem carried_of_not_took {past : List (Event loggerSig)} (h : ¬ Took past) :
    carried .flush past = [] := by
  induction past with
  | nil => rfl
  | cons ev past ih =>
    obtain ⟨cl, r⟩ := ev
    have hpast := ih fun ⟨es, hmem⟩ => h ⟨es, mem_cons_of_mem _ hmem⟩
    show carry .flush (carried .flush past) cl r = []
    rw [hpast]
    cases cl with
    | take => exact absurd ⟨r, mem_cons_self⟩ h
    | randomUUID | append | insert | insertBatch => cases r <;> rfl
    | _ => rfl

/-- What a call does to the buffer and the channel. -/
theorem buffer_answer (cl : LoggerCall) (w : LoggerWorld) :
    (w.closed → (loggerAnswer cfg cl w).2.closed) ∧
    ∀ e ∈ (loggerAnswer cfg cl w).2.buffer, e ∈ w.buffer ∨ cl = .append e ∨
      ∃ es, cl = .requeue es ∧ e ∈ es := by
  cases cl with
  | append =>
    simp only [loggerAnswer]
    split
    · exact ⟨fun h => h, fun _ => .inl⟩
    · refine ⟨fun h => h, fun e he => ?_⟩
      rcases mem_append.mp he with he | he
      · exact .inl he
      · rw [mem_singleton.mp he]
        exact .inr (.inl rfl)
  | requeue es =>
    refine ⟨fun h => h, fun e he => ?_⟩
    rcases mem_append.mp he with he | he
    · exact .inr (.inr ⟨es, rfl, mem_of_mem_take he⟩)
    · exact .inl he
  | take => exact ⟨fun h => h, nofun⟩
  | onceEnter =>
    simp only [loggerAnswer]
    split <;> exact ⟨fun h => h, fun _ => .inl⟩
  | closeDone => exact ⟨fun _ => rfl, fun _ => .inl⟩
  | _ => exact ⟨fun h => h, fun _ => .inl⟩

theorem mem_carry {es : List AuditEntry}
    (he : e ∈ carry .flush es cl r) :
    e ∈ es ∨ ∃ taken, (⟨cl, r⟩ : Event loggerSig) = ⟨.take, taken⟩ ∧ e ∈ taken := by
  cases cl with
  | take => exact .inr ⟨r, rfl, he⟩
  | randomUUID => cases r <;> exact .inl he
  | append e' | insert e' =>
    cases r
    · exact .inl he
    · exact .inl (mem_of_mem_erase he)
  | insertBatch =>
    cases r
    · exact .inl he
    · cases he
  | requeue => cases he
  | addQuarantined => cases he
  | _ => exact .inl he

variable {ok : Config (logger cfg) → Label (logger cfg) → Prop} {Init : LoggerWorld → Prop}

/-- A sealed logger stays sealed, whatever happens. -/
theorem Sealed.step (hc : Reachable Init ok c) (h : Sealed c) (hs : Step c l c') : Sealed c' := by
  -- a call under way has not found the logger open
  have waiting : ∀ {t : ℕ} {th : Thread (logger cfg)} {cl : LoggerCall}, c.threads[t]? = some th →
      th.pending = some cl → ⟨.isClosed, false⟩ ∉ th.past := by
    intro t th cl hth hpend hmem
    have hnone := h.ended t th hth hmem
    rw [hpend] at hnone
    cases hnone
  refine ⟨?_, ?_, ?_, ?_⟩
  · cases hs with
    | act => exact (buffer_answer _ _).1 h.closed
    | nudge n => exact n.elim
    | _ => exact h.closed
  · intro t th' hth' hmem
    rcases hs.thread hth' with hold | ⟨r, -, -, rfl⟩ | ⟨th, cl, k, r, hth, hrest, rfl, hreply⟩
    · exact h.ended t th' hold hmem
    · cases hmem
    · exfalso
      rcases mem_cons.mp hmem with heq | hmem
      · cases heq
        rcases hreply with ⟨-, hr⟩ | ⟨-, hr⟩
        · have hopen : false = c.world.closed := hr
          rw [h.closed] at hopen
          cases hopen
        · exact hr
      · exact waiting hth (pending_of_call hrest) hmem
  · intro e he
    cases hs with
    | @act t th cl k hth hrest hfree =>
      have hs : Step c (.act t) _ := .act hth hrest hfree
      have hpend := pending_of_call hrest
      have hconduct := conduct_of_reachable hc hth hpend
      rcases (buffer_answer cl c.world).2 e he with he | rfl | ⟨es, rfl, hes⟩
      · exact (h.buffered e he).step hs
      · exact absurd hconduct.2 (waiting hth hpend)
      · obtain ⟨hperm, hreq⟩ := hconduct
        cases hkind : th.req with
        | log eventType => exact absurd hkind (hreq eventType)
        | flush => exact (h.held t th e hth hkind (hperm.mem_iff.mpr hes)).step hs
        | close =>
          exact ⟨t, _, List.getElem?_set_self (List.getElem?_eq_some_iff.mp hth).1, hkind, es,
            mem_cons_self, hes⟩
    | spawn r => exact (h.buffered e he).step (.spawn c r)
    | fault hth hrest hr => exact (h.buffered e he).step (.fault hth hrest hr)
    | nudge n => exact n.elim
  · intro t th' e hth' hreq he
    rcases hs.thread hth' with hold | ⟨r, -, -, rfl⟩ | ⟨th, cl, k, r, hth, hrest, rfl, hreply⟩
    · exact (h.held t th' e hold hreq he).step hs
    · cases he
    · have hflush : th.req = .flush := hreq
      change e ∈ carry th.req (carried th.req th.past) cl r at he
      rw [hflush] at he
      rcases mem_carry he with he | ⟨taken, heq, he⟩
      · exact (h.held t th e hth hflush (hflush ▸ he)).step hs
      · cases heq
        rcases hreply with ⟨-, hr⟩ | ⟨-, hr⟩
        · have htaken : taken = c.world.buffer := hr
          exact (h.buffered e (htaken ▸ he)).step hs
        · exact hr.elim

variable {th : Thread (logger cfg)}

theorem closed_of_closeDone (hc : Reachable Init ok c) (hth : c.threads[t]? = some th)
    (hmem : ⟨.closeDone, ()⟩ ∈ th.past) : c.world.closed := by
  refine hc.since (P := fun c : Config (logger cfg) => c.world.closed) ?_ ?_ ?_ hth hmem
  · intro c l c' _ h _ hs
    cases hs with
    | act => exact (buffer_answer _ _).1 h
    | nudge n => exact n.elim
    | _ => exact h
  · intro c t c' _ _ _ _ hw
    rw [hw]
    rfl
  · exact fun h => h

theorem carried_of_result (hc : Reachable Init ok c) (hth : c.threads[t]? = some th)
    (hreq : ∀ eventType, th.req ≠ .log eventType) {r : Outcome} (hres : th.result = some r) :
    carried th.req th.past = [] := by
  have hended : Ended th.req th.past r := hc.ends_history hth (program_conduct cfg th.req) hres
  cases hkind : th.req with
  | log eventType => exact absurd hkind (hreq eventType)
  | flush | close =>
    rw [hkind] at hended
    exact hended.1

/-- **The take of a `Close` seals the logger** if nobody is caught between two steps. -/
theorem sealed_of_take (hc : Reachable Fresh Quiet c) (hth : c.threads[t]? = some th)
    (hreq : th.req = .close) (hpend : th.pending = some .take) (hquiet : Quiet c (.act t))
    (hs : Step c (.act t) c') : Sealed c' := by
  have hothers := hquiet t th rfl hth hreq hpend
  have hconduct := conduct_of_reachable hc hth hpend
  have hworld := (hs.answered hth hpend).2
  -- of the other calls, none has changed
  have same : ∀ {u : ℕ} {tu : Thread (logger cfg)}, c'.threads[u]? = some tu → u ≠ t →
      c.threads[u]? = some tu := by
    intro u tu htu hut
    rcases hs.thread htu with hold | ⟨r, hl, -⟩ | ⟨-, -, -, -, -, -, -, ⟨hl, -⟩ | ⟨hl, -⟩⟩
    · exact hold
    · cases hl
    · cases hl
      exact absurd rfl hut
    · cases hl
  refine ⟨?_, ?_, ?_, ?_⟩
  · rw [hworld]
    exact closed_of_closeDone hc hth (hconduct.2.2 hreq)
  · intro u tu htu hmem
    by_cases hut : u = t
    · subst hut
      -- `Close` does not ask whether the logger is closed
      obtain ⟨th', hth', hreq', -⟩ := hs.past hth
      obtain rfl := mem_unique hth' htu
      have hc' : Reachable Fresh Quiet c' := hc.run (.snoc (.refl c) hquiet hs)
      obtain ⟨hconf, -⟩ := hc'.obeys (fun _ _ _ _ => trivial) (fun _ _ _ _ => trivial) htu
        (program_conduct cfg th'.req)
      obtain ⟨earlier, ⟨eventType, hlog⟩, -⟩ := Discipline.allows_of_mem hconf hmem
      rw [hreq', hreq] at hlog
      cases hlog
    · rcases hothers u tu (same htu hut) hut with hnone | ⟨hopen, -⟩
      · exact hnone
      · exact absurd hmem hopen
  · intro e he
    rw [hworld] at he
    cases he
  · intro u tu e htu hflush he
    by_cases hut : u = t
    · subst hut
      obtain ⟨th', hth', hreq', -⟩ := hs.past hth
      obtain rfl := mem_unique hth' htu
      rw [hreq', hreq] at hflush
      cases hflush
    · exfalso
      have htu' := same htu hut
      rcases hothers u tu htu' hut with hnone | ⟨-, htook⟩
      · obtain ⟨r, hres⟩ := exists_result hnone
        have hkind : ∀ eventType, tu.req ≠ .log eventType := by
          intro eventType h
          rw [hflush] at h
          cases h
        rw [carried_of_result hc htu' hkind hres] at he
        cases he
      · rw [hflush, carried_of_not_took htook] at he
        cases he

/-- In every run in which nobody is caught, the take of a `Close` seals the logger. -/
theorem sealed_of_took (hc : Reachable Fresh Quiet c) (hth : c.threads[t]? = some th)
    (hreq : th.req = .close) (htook : Took th.past) : Sealed c := by
  refine hc.induct (P := fun c => ∀ t th, c.threads[t]? = some th → th.req = .close → Took th.past →
    Sealed c) ?_ ?_ t th hth hreq htook
  · intro w _ t th hth
    cases hth
  intro c l c' hc ih hok hs t th' hth' hreq htook
  obtain ⟨es, hmem⟩ := htook
  obtain ⟨th, hth, hsame, hmem | ⟨hpend, ⟨rfl, -⟩ | ⟨-, hr⟩⟩⟩ := hs.said hth' hmem
  · exact (ih t th hth (hsame.trans hreq) ⟨es, hmem⟩).step hc hs
  · exact sealed_of_take hc hth (hsame.trans hreq) hpend hok hs
  · exact hr.elim

/-- `Close` has told its caller of the entry: it put it back and returned an error. -/
def ReportedByClose (c : Config (logger cfg)) (e : AuditEntry) : Prop :=
  ∃ th ∈ c.threads, th.req = .close ∧ th.result = some .error ∧ Requeued th.past e

/-- The entry is in the table, or was counted, or was reported by `Close`; in an open logger it may
also wait in the buffer. -/
def Accounted (c : Config (logger cfg)) (e : AuditEntry) : Prop :=
  e ∈ c.world.stored ∨ e ∈ c.world.dropped ∨ e ∈ c.world.quarantined ∨ ReportedByClose c e ∨
    c.world.closed = false ∧ e ∈ c.world.buffer

theorem closeDone_of_closed (hc : Reachable Fresh ok c) (hclosed : c.world.closed) :
    ∃ (t : ℕ) (th : Thread (logger cfg)), c.threads[t]? = some th ∧ th.req = .close ∧
      ⟨.closeDone, ()⟩ ∈ th.past := by
  refine hc.induct (P := fun c : Config (logger cfg) => c.world.closed →
    ∃ (t : ℕ) (th : Thread (logger cfg)), c.threads[t]? = some th ∧ th.req = .close ∧
      ⟨.closeDone, ()⟩ ∈ th.past) ?_ ?_ hclosed
  · intro w hw h
    change w.closed at h
    rw [hw.closed] at h
    cases h
  intro c l c' hc ih _ hs hclosed'
  -- if it was closed before
  have before : c.world.closed → ∃ (t : ℕ) (th : Thread (logger cfg)),
      c'.threads[t]? = some th ∧ th.req = .close ∧ ⟨.closeDone, ()⟩ ∈ th.past := by
    intro h
    obtain ⟨t, th, hth, hreq, hmem⟩ := ih h
    obtain ⟨th', hth', hreq', hsuf⟩ := hs.past hth
    exact ⟨t, th', hth', hreq'.trans hreq, hsuf.subset hmem⟩
  cases hs with
  | nudge n => exact n.elim
  | spawn | fault => exact before hclosed'
  | @act t th cl k hth hrest =>
    have hpend := pending_of_call hrest
    have hconduct := conduct_of_reachable hc hth hpend
    change (loggerAnswer cfg cl c.world).2.closed at hclosed'
    cases cl with
    | closeDone =>
      exact ⟨t, _, List.getElem?_set_self (List.getElem?_eq_some_iff.mp hth).1, hconduct,
        mem_cons_self⟩
    | append | onceEnter =>
      simp only [loggerAnswer] at hclosed'
      split at hclosed' <;> exact before hclosed'
    | _ => exact before hclosed'

/-- The buffer of a closed logger, when every call has ended. -/
theorem reported_of_buffered (hc : Reachable Fresh Quiet c)
    (hdone : ∀ th ∈ c.threads, th.result.isSome) (hclosed : c.world.closed)
    (he : e ∈ c.world.buffer) : ReportedByClose c e := by
  -- how a `Close` that put an entry back has ended, or that it has taken the buffer
  have ended : ∀ {t : ℕ} {th : Thread (logger cfg)}, c.threads[t]? = some th → th.req = .close →
      ∃ r, th.result = some r ∧ (∀ e, Requeued th.past e → r = .error) ∧
        (⟨.closeDone, ()⟩ ∈ th.past → Took th.past) := by
    intro t th hth hreq
    obtain ⟨r, hres⟩ := isSome_iff_exists.mp (hdone th (mem_of_getElem? hth))
    have h : Ended th.req th.past r := hc.ends_history hth (program_conduct cfg th.req) hres
    rw [hreq] at h
    exact ⟨r, hres, h.2⟩
  obtain ⟨t, th, hth, hreq, hmem⟩ := closeDone_of_closed hc hclosed
  obtain ⟨-, -, -, htook⟩ := ended hth hreq
  obtain ⟨u, tu, htu, hreq', hback⟩ := (sealed_of_took hc hth hreq (htook hmem)).buffered e he
  obtain ⟨r, hres, herror, -⟩ := ended htu hreq'
  rw [herror e hback] at hres
  exact ⟨tu, mem_of_getElem? htu, hreq', hres, hback⟩

/-- **Audit entries are conserved.** No entry is ever stored twice. And in every run in which nobody
is caught between two steps when a `Close` takes the buffer, once every call has ended, each `Log`
has reported an error or its entry is accounted for, and a closed logger has nothing in its buffer
that `Close` did not report. -/
theorem audit_entries_conserved (cfg : Settings) :
    (∀ c : Config (logger cfg), Reachable Fresh anyStep c → c.world.stored.Nodup) ∧
    ∀ c : Config (logger cfg), Reachable Fresh Quiet c →
      (∀ th ∈ c.threads, th.result.isSome) →
      (∀ th ∈ c.threads, ∀ eventType, th.req = .log eventType → th.result = some .error ∨
        ∃ id, ⟨.randomUUID, .ok id⟩ ∈ th.past ∧ Accounted c ⟨id, eventType⟩) ∧
      (c.world.closed → ∀ e ∈ c.world.buffer, ReportedByClose c e) := by
  constructor
  · intro c hc
    have hnodup := (ledger_nodup hc).1
    unfold ledger at hnodup
    rw [add_assoc] at hnodup
    exact Multiset.coe_nodup.mp (Multiset.nodup_of_le (Multiset.le_add_right _ _) hnodup)
  · intro c hc hdone
    refine ⟨?_, fun hclosed _ => reported_of_buffered hc hdone hclosed⟩
    intro th hmem eventType hreq
    obtain ⟨t, hth⟩ := List.mem_iff_getElem?.mp hmem
    obtain ⟨r, hres⟩ := Option.isSome_iff_exists.mp (hdone th hmem)
    cases r with
    | error => exact .inl hres
    | ok =>
      obtain ⟨id, hid, hsome⟩ := somewhere_of_logged hc hth hreq hres
      refine .inr ⟨id, hid, ?_⟩
      rcases hsome with h | h | h | h | ⟨u, tu, htu, hflush, h⟩
      · exact .inl h
      · exact .inr (.inl h)
      · exact .inr (.inr (.inl h))
      · cases hclosed : c.world.closed with
        | true => exact .inr (.inr (.inr (.inl (reported_of_buffered hc hdone hclosed h))))
        | false => exact .inr (.inr (.inr (.inr ⟨hclosed, h⟩)))
      · obtain ⟨r, hr⟩ := Option.isSome_iff_exists.mp (hdone tu (List.mem_of_getElem? htu))
        rw [carried_of_result hc htu hflush hr] at h
        cases h

end Sealing

namespace Sample

/-- A logger with room for two entries. -/
def settings : Settings := ⟨1000000000, 2⟩

def world : LoggerWorld := ⟨0, [], false, .idle, [], [], [], []⟩

theorem world_fresh : Fresh world := ⟨rfl, rfl, nodup_nil, nofun⟩

/-- A `Close` that is about to take the buffer is alone. -/
def quietTest (c : Config (logger settings)) : Label (logger settings) → Bool
  | .act t =>
    match c.pending t with
    | some .take => c.threads.zipIdx.all fun p => p.2 == t || p.1.pending.isNone
    | _ => true
  | _ => true

theorem quiet_of_test (c : Config (logger settings)) (l : Label (logger settings))
    (h : quietTest c l) : Quiet c l := by
  intro t th hl hth _ hpend u tu htu hut
  subst hl
  have hp := (Config.pending_eq hth).trans hpend
  simp only [quietTest, hp] at h
  have hmem : (tu, u) ∈ c.threads.zipIdx := mem_zipIdx_iff_getElem?.mpr htu
  have hall := all_eq_true.mp h _ hmem
  simp only [Bool.or_eq_true, beq_iff_eq, hut, false_or, isNone_iff_eq_none] at hall
  exact .inl hall

/-- Three entries meet the two places of the buffer, and the logger is closed. -/
def drained : Config (logger settings) :=
  (execAll quietTest ⟨world, []⟩
    ([.spawn (LoggerReq.log "login_success")] ++ .replicate 3 (.act 0) ++
      [.spawn (LoggerReq.log "login_failure")] ++ .replicate 3 (.act 1) ++
      [.spawn (LoggerReq.log "token_refresh")] ++ .replicate 4 (.act 2) ++
      [.spawn LoggerReq.close] ++ .replicate 5 (.act 3))).getD ⟨world, []⟩

theorem drained_accounted :
    drained.world.stored = [⟨0, "login_success"⟩, ⟨1, "login_failure"⟩] ∧
    drained.world.dropped = [⟨2, "token_refresh"⟩] ∧ drained.world.stored.Nodup ∧
    ∀ th ∈ drained.threads, ∀ eventType, th.req = .log eventType → th.result = some .error ∨
      ∃ id, ⟨.randomUUID, .ok id⟩ ∈ th.past ∧ Accounted drained ⟨id, eventType⟩ := by
  have hc : Reachable Fresh Quiet drained := ⟨world, world_fresh, run_execAll quiet_of_test _ _⟩
  have hdone : ∀ th ∈ drained.threads, th.result.isSome := by
    have h : (drained.threads.all fun th => th.result.isSome) := by decide +kernel
    exact List.all_eq_true.mp h
  exact ⟨by decide +kernel, by decide +kernel, (audit_entries_conserved settings).1 _ hc.unguarded,
    ((audit_entries_conserved settings).2 _ hc hdone).1⟩

/-- A `Log` has found the logger open; then `Close` runs from beginning to end; then the `Log` goes
on. -/
def stranded : Config (logger settings) :=
  (execAll (fun _ _ => true) ⟨world, []⟩
    ([.spawn (LoggerReq.log "login_success")] ++ .replicate 2 (.act 0) ++
      [.spawn LoggerReq.close] ++ .replicate 4 (.act 1) ++ [.act 0])).getD ⟨world, []⟩

/-- **An entry is stranded.** Both calls have reported success, and the entry is in the buffer of a
closed logger: not stored, not counted, not reported. -/
theorem entry_stranded :
    Reachable Fresh anyStep stranded ∧
    stranded.threads.map Thread.result = [some .ok, some .ok] ∧
    stranded.threads.map Thread.req = [.log "login_success", .close] ∧
    (stranded.world.closed ∧ stranded.world.buffer = [⟨0, "login_success"⟩]) ∧
    ¬ Accounted stranded ⟨0, "login_success"⟩ := by
  have hresults : stranded.threads.map Thread.result = [some .ok, some .ok] := rfl
  refine ⟨⟨world, world_fresh, run_execAll (fun _ _ _ => trivial) _ _⟩, hresults, rfl,
    by decide +kernel, ?_⟩
  rintro (h | h | h | ⟨th, hth, -, hres, -⟩ | ⟨h, -⟩)
  · exact absurd h (by decide +kernel)
  · exact absurd h (by decide +kernel)
  · exact absurd h (by decide +kernel)
  · have hmem := List.mem_map_of_mem (f := Thread.result) hth
    rw [hresults, hres] at hmem
    rcases List.mem_pair.mp hmem with h | h <;> cases h
  · exact absurd h (by decide +kernel)

end Sample

end Vault42.Audit
