import Vault42.Service.Requests

/-!
# The password history

`updatePassword` compares the new password with the last five entries of the history before it
stores it. It drops the errors it meets on the way: a history that could not be read is an empty
one, and an entry that could not be verified, because the hasher was overloaded, is one that does
not match.

* `password_history_enforced`: when neither the read nor a verification fails, whatever else does, a
  password that verifies against one of the five is refused and the stored one is left alone.
* `exec_of_unread`, `Sample.overloaded_reuse`: with the read lost, or an overload in the loop, the
  old password is stored again.
-/

namespace Vault42.PasswordHandler

open Framework Program

/-- The user's five most recently stored history entries. -/
def lastFive (w : World) (u : UserID) : List PasswordHash :=
  ((w.passwordHistory.filter fun e => e.1 == u).map Prod.snd).take 5

/-- The new password verifies against one of them. -/
def Reuses (w : World) (u : UserID) (newPassword : String) : Prop :=
  ∃ h ∈ lastFive w u, verifyPassword newPassword h = .verified true

/-- The calls the history check is made of. -/
def HistoryCheck : Call → Prop
  | .recentPasswords _ _ => True
  | .verifyPassword _ _ => True
  | _ => False

/-- The failures that spare the history check. -/
def Spared (c : Call) (r : c.Reply) : Prop := Fault c r ∧ ¬ HistoryCheck c

section Exec

variable {cfg : Settings} {t : ℕ} {w w' : World} {u : UserID} {newPassword : String}

/-- The loop finds a match if there is one, and changes nothing. -/
theorem reused_exec {hashes : List PasswordHash} {b : Bool}
    (h : Exec (answer t) Spared (reused newPassword hashes) w b w') :
    w' = w ∧ ((∃ x ∈ hashes, verifyPassword newPassword x = .verified true) → b) := by
  induction hashes with
  | nil =>
    obtain ⟨rfl, rfl⟩ := exec_ret.mp h
    exact ⟨rfl, fun ⟨x, hx, _⟩ => nomatch hx⟩
  | cons x hashes ih =>
    rcases exec_call.mp h with h | ⟨r, hr, -⟩
    swap
    · exact absurd trivial hr.2
    have hreply : answer t (.verifyPassword newPassword x) w = (verifyPassword newPassword x, w) :=
      rfl
    rw [hreply] at h
    -- the entry is the match, or the loop goes on
    by_cases hx : verifyPassword newPassword x = .verified true
    · rw [hx] at h
      obtain ⟨rfl, rfl⟩ := exec_ret.mp h
      exact ⟨rfl, fun _ => rfl⟩
    · have hnext : Exec (answer t) Spared (reused newPassword hashes) w b w' := by
        generalize verifyPassword newPassword x = o at h hx
        rcases o with valid | _ | _
        · cases valid with
          | true => exact absurd rfl hx
          | false => exact h
        · exact h
        · exact h
      obtain ⟨rfl, hrest⟩ := ih hnext
      refine ⟨rfl, fun ⟨y, hy, hmatch⟩ => ?_⟩
      rcases List.mem_cons.mp hy with rfl | hy
      · exact absurd hmatch hx
      · exact hrest ⟨y, hy, hmatch⟩

theorem breached_exec {Fault : (c : Call) → c.Reply → Prop} {b : Bool}
    (h : Exec (answer t) Fault (breached cfg newPassword) w b w') : w' = w := by
  unfold breached at h
  split at h
  · rcases exec_call.mp h with h | ⟨r, -, h⟩
    · exact (exec_ret.mp h).2
    · exact (exec_ret.mp h).2
  · exact (exec_ret.mp h).2

/-- **The password history is enforced where it can be read.** However else the calls of
`updatePassword` fail, a password that verifies against one of the user's five last entries is
refused, and the stored passwords stay as they are. -/
theorem password_history_enforced {r : Except AuthError Unit} (hreuse : Reuses w u newPassword)
    (h : Exec (answer t) Spared (updatePassword cfg u newPassword) w r w') :
    w' = w ∧ ∃ e, r = .error e := by
  obtain ⟨b, v, hb, hpast⟩ := exec_bind.mp h
  obtain rfl := breached_exec hb
  cases b with
  | true =>
    obtain ⟨rfl, rfl⟩ := exec_ret.mp hpast
    exact ⟨rfl, _, rfl⟩
  | false =>
    rcases exec_call.mp hpast with hloop | ⟨r, hr, -⟩
    swap
    · exact absurd trivial hr.2
    change Exec (answer t) Spared (reused newPassword (lastFive v u) >>= _) v r w' at hloop
    obtain ⟨found, v', hfound, hend⟩ := exec_bind.mp hloop
    obtain ⟨rfl, hmatch⟩ := reused_exec hfound
    rw [hmatch hreuse] at hend
    obtain ⟨rfl, rfl⟩ := exec_ret.mp hend
    exact ⟨rfl, _, rfl⟩

/-- **The read is needed**: where it fails, the password is stored as if there were no history. A
verification is needed where it would have matched; one that fails at an entry that does not match
is as good as one that does not. -/
theorem exec_of_unread {r : Except AuthError Unit} (hbreach : cfg.hibpEnabled = false)
    (h : Exec (answer t) Fault (do
      match ← ask (.hashPassword newPassword) with
      | none => pure (.error .argon2Overloaded)
      | some hash => replacePassword cfg u hash) w r w') :
    Exec (answer t) Fault (updatePassword cfg u newPassword) w r w' := by
  unfold updatePassword breached
  rw [hbreach]
  exact exec_call.mpr (.inr ⟨.error .backend, ⟨_, rfl⟩, h⟩)

end Exec

namespace Sample

open Vault42.Sample

/-- The password is that of the first entry of the history. -/
def remembered : World := { world with passwordHistory := [("u", .argon2id "pw" 0)] }

theorem password_history_enforced_alice :
    Reuses remembered "u" "pw" ∧
      ((updatePassword settings "u" "pw").run (answer 0) remembered).2 = remembered := by
  have hreuse : Reuses remembered "u" "pw" := ⟨.argon2id "pw" 0, List.mem_singleton_self _, rfl⟩
  exact ⟨hreuse,
    (password_history_enforced hreuse (exec_run (updatePassword settings "u" "pw") _)).1⟩

/-- **The hasher is overloaded in the loop**: the call goes through, and stores a password that
verifies against the latest entry. -/
theorem overloaded_reuse :
    Reuses remembered "u" "pw" ∧
      ∃ w', Exec (answer 0) Fault (updatePassword settings "u" "pw") remembered (.ok ()) w' ∧
        (w'.users.map User.passwordHash, remembered.users.map User.passwordHash) =
          ([.argon2id "pw" 1], [.argon2id "pw" 0]) := by
  refine ⟨⟨.argon2id "pw" 0, List.mem_singleton_self _, rfl⟩, _,
    .act (.fault rfl (.act (.act (.act (.act
    (.act (.act (.act (.act (.act (.ret _ _)))))))))) ), ?_⟩
  decide +kernel

end Sample

end Vault42.PasswordHandler
