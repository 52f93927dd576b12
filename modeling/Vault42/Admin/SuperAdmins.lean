import Vault42.Model
import Vault42.Framework.System

/-!
# The last super_admin

`RevokeAdmin` of `internal/adminapi` over `auth.admin_users`. A request is past `SessionAuth` up to
its read of the admin who sends it. It refuses to revoke that admin, and whether another super_admin
remains is nowhere asked: two of them who revoke one another at once leave none.

The id to revoke is a text of the request's path. The handler compares texts, and the database reads
the text as a UUID, which has more than one spelling: who spells their own id in capitals revokes
themselves.

`super_admin_remains`: one remains, as long as whoever revokes is still a super_admin when the row
goes, and has not written their own id in another way.
-/

namespace Vault42.SuperAdmins

open Framework Program

/-! ### Ids and their spellings -/

/-- A value of the type `uuid`: 32 hexadecimal digits. -/
abbrev AdminID := { digits : List (Fin 16) // digits.length = 32 }

def hexDigits : List Char := "0123456789abcdef".toList

/-- The value of a digit, in either case. -/
def hexValue (c : Char) : Option (Fin 16) :=
  (hexDigits.idxOf? c.toLower).bind fun n => if h : n < 16 then some ⟨n, h⟩ else none

/-- Groups of four digits, each but the last perhaps followed by a hyphen. -/
def readGroups : ℕ → List Char → Option (List (Fin 16))
  | 0, [] => some []
  | n + 1, a :: b :: c :: d :: text => do
    let group ← [a, b, c, d].mapM hexValue
    let rest ← readGroups n (if n ≠ 0 ∧ text.head? = some '-' then text.tail else text)
    some (group ++ rest)
  | _, _ => none

namespace AdminID

/-- The input function of the type: the groups, or the groups in braces. -/
def read (text : String) : Option AdminID :=
  let body := text.toList
  let groups :=
    if body.head? = some '\x7b' ∧ body.getLast? = some '\x7d' then body.tail.dropLast else body
  (readGroups 8 groups).bind fun ds => if h : ds.length = 32 then some ⟨ds, h⟩ else none

def digit (d : Fin 16) : Char := hexDigits.getD d '0'

/-- The text that the database gives out for an id. -/
def text (id : AdminID) : String :=
  let digits := id.1.map digit
  let groups := [(0, 8), (8, 4), (12, 4), (16, 4), (20, 12)].map fun (i, n) =>
    (digits.drop i).take n
  String.ofList (List.intercalate ['-'] groups)

theorem hexValue_digit : ∀ d, hexValue (digit d) = some d := by decide

theorem digit_ne_hyphen : ∀ d, digit d ≠ '-' := by decide

theorem digit_ne_brace : ∀ d, digit d ≠ '\x7b' := by decide

theorem read_text (id : AdminID) : read id.text = some id := by
  obtain ⟨ds, hds⟩ := id
  match ds, hds with
  | [d₀, d₁, d₂, d₃, d₄, d₅, d₆, d₇, d₈, d₉, e₀, e₁, e₂, e₃, e₄, e₅, e₆, e₇, e₈, e₉,
      f₀, f₁, f₂, f₃, f₄, f₅, f₆, f₇, f₈, f₉, g₀, g₁], _ =>
    simp [read, text, readGroups, hexValue_digit, digit_ne_brace, digit_ne_hyphen,
      List.intercalate]

end AdminID

/-! ### The handler -/

/-- `auth.admin_roles`. -/
inductive Role where
  | viewer
  | operator
  | superAdmin
deriving DecidableEq, Repr

/-- What is read of `auth.admin_users`. -/
structure AdminUser where
  id : AdminID
  username : String
  role : Role
  createdBy : Option AdminID
deriving DecidableEq

/-- The calls, with ids as texts; the two last are the audit entries of a revocation. -/
inductive Call where
  | adminByID (id : String)
  | revoke (id : String)
  | auditFailed (actor target : String)
  | auditRevoked (actor target : String) (createdBy : Option AdminID)

/-- What a call that succeeds answers. -/
abbrev Call.Value : Call → Type
  | .adminByID _ => Option AdminUser
  | _ => Unit

/-- Every call returns an error beside its value. -/
abbrev plane : Signature := ⟨Call, fun c => Except Unit c.Value⟩

abbrev Prog := Program plane

def ask (c : Call) : Prog (Except Unit c.Value) := Program.perform (S := plane) c

/-- The status a request is answered with, or its error. -/
abbrev Outcome := Except String String

/-- `SessionAuth`, from its read of the admin of the session on, and `RBACCheck` for a permission
that only super_admins hold. -/
def withPerm (actor : AdminID) (k : AdminUser → Prog Outcome) : Prog Outcome := do
  match ← ask (.adminByID actor.text) with
  | .ok (some admin) =>
    if admin.role = .superAdmin then k admin else pure (.error "insufficient_permissions")
  | _ => pure (.error "admin_not_found")

/-- **`RevokeAdmin`**, with the id of the request's path. -/
def revokeAdmin (id : String) (actor : AdminUser) : Prog Outcome :=
  if id = "" then pure (.error "missing_id")
  else if actor.id.text = id then pure (.error "cannot_revoke_self")
  else do
    -- a failed read leaves the field of the audit entry empty
    let revokedCreatedBy := match ← ask (.adminByID id) with
      | .ok (some target) => target.createdBy
      | _ => none
    match ← ask (.revoke id) with
    | .error _ =>
      let _ ← ask (.auditFailed actor.id.text id)
      pure (.error "internal_error")
    | .ok _ =>
      let _ ← ask (.auditRevoked actor.id.text id revokedCreatedBy)
      pure (.ok "revoked")

/-- `DELETE FROM auth.admin_users WHERE id = $1`; the rows it created lose their creator
(`ON DELETE SET NULL`). -/
def deleteAdmin (id : AdminID) (admins : List AdminUser) : List AdminUser :=
  (admins.filter fun x => x.id ≠ id).map fun x =>
    if x.createdBy = some id then { x with createdBy := none } else x

/-- How a call is answered, over the rows of the table. A statement whose parameter is no UUID
fails. -/
def answer (c : Call) (admins : List AdminUser) : Except Unit c.Value × List AdminUser :=
  match c with
  | .adminByID id =>
    match AdminID.read id with
    | none => (.error (), admins)
    | some id => (.ok (admins.find? fun x => x.id = id), admins)
  | .revoke id =>
    match AdminID.read id with
    | none => (.error (), admins)
    | some id => (.ok (), deleteAdmin id admins)
  | .auditFailed _ _ => (.ok (), admins)
  | .auditRevoked _ _ _ => (.ok (), admins)

/-- **The table and the requests of admins**: `(actor, id)` is a revocation with the id of its path.
Any call can fail, and admins are added at any time. -/
def adminPlane : System plane where
  World := List AdminUser
  Req := AdminID × String
  Result := Outcome
  program r := withPerm r.1 (revokeAdmin r.2)
  answer _ := answer
  blocked _ _ _ := false
  Fault _ r := r = .error ()
  Nudge := AdminUser
  nudge a admins := a :: admins

abbrev rows (c : Config adminPlane) : List AdminUser := c.world

/-! ### A super_admin remains -/

/-- A row is deleted for an admin that was read, and the path is not the text of that admin's id. -/
def Conduct (req : AdminID × String) (past : List (Event plane)) : Call → Prop
  | .revoke id =>
    id = req.2 ∧ ∃ admin, ⟨.adminByID req.1.text, .ok (some admin)⟩ ∈ past ∧ admin.id.text ≠ id
  | _ => True

theorem conduct (req : AdminID × String) :
    (withPerm req.1 (revokeAdmin req.2)).Obeys (.history (Conduct req)) (fun _ _ => True) [] := by
  refine .call trivial fun r _ => ?_
  rcases r with e | _ | admin
  · trivial
  · trivial
  refine .ite ?_ trivial
  unfold revokeAdmin
  split
  · trivial
  split
  · trivial
  next hne =>
    refine .call trivial fun read _ => ?_
    refine .call ⟨rfl, admin, by simp [Discipline.history], hne⟩ fun r _ => ?_
    cases r <;> exact .call trivial fun _ _ => trivial

/-- The path is not another spelling of the sender's own id. -/
def SpelledOnce (req : AdminID × String) : Prop :=
  AdminID.read req.2 = some req.1 → req.2 = req.1.text

instance (req : AdminID × String) : Decidable (SpelledOnce req) :=
  inferInstanceAs (Decidable (_ → _))

/-- Whoever revokes an admin is still a super_admin when the row goes, and has not spelled their own
id in another way. -/
def actorRemains (c : Config adminPlane) : Label adminPlane → Bool
  | .act t => c.threads[t]?.all fun th => match th.pending with
    | some (.revoke _) =>
      ((rows c).any fun x => x.id = th.req.1 && x.role = .superAdmin) &&
        decide (SpelledOnce (th.req.1, th.req.2))
    | _ => true
  | _ => true

def Governed (admins : List AdminUser) : Prop := ∃ x ∈ admins, x.role = .superAdmin

theorem kept_of_ne {admins : List AdminUser} {x : AdminUser} (hx : x ∈ admins) {id : AdminID}
    (hne : x.id ≠ id) : ∃ y ∈ deleteAdmin id admins, y.role = x.role := by
  refine ⟨_, List.mem_map.mpr ⟨x, List.mem_filter.mpr ⟨hx, by simpa using hne⟩, rfl⟩, ?_⟩
  split <;> rfl

/-- The admin that a request finds for its session is the session's. -/
theorem id_of_read {c : Config adminPlane} {Init : List AdminUser → Prop}
    {ok : Config adminPlane → Label adminPlane → Prop} {t : ℕ} {th : Thread adminPlane}
    {id : AdminID} {admin : AdminUser} (hc : Reachable Init ok c) (hth : c.threads[t]? = some th)
    (hread : ⟨.adminByID id.text, .ok (some admin)⟩ ∈ th.past) : admin.id = id := by
  obtain ⟨d, -, -, -, -, -, -, ⟨-, hr⟩ | ⟨-, hr⟩⟩ := hc.told hth hread
  · have hanswer : (answer (.adminByID id.text) d.world).1 =
        .ok (List.find? (fun x => x.id = id) d.world) := by
      simp only [answer, AdminID.read_text]
    simpa using List.find?_some (Except.ok.inj (hr.trans hanswer)).symm
  · cases hr

/-- **A super_admin remains**, in every run in which whoever revokes is still one and has not
written their own id in another way. -/
theorem super_admin_remains {c : Config adminPlane}
    (hc : Reachable Governed (fun c l => actorRemains c l) c) : Governed (rows c) := by
  refine hc.induct (M := adminPlane) (P := fun c => Governed (rows c)) (fun _ hw => hw) ?_
  rintro c l c' hreach ⟨x, hx, hrole⟩ hok hs
  cases l with
  | act =>
    obtain ⟨th, cl, k, hth, hrest, hworld, -⟩ := hs.of_act
    have hpend := Thread.pending_of_call hrest
    rw [rows, hworld]
    cases cl with
    | revoke id =>
      obtain ⟨rfl, admin, hread, hne⟩ := hreach.allows_history hth (conduct th.req) hpend
      obtain ⟨⟨y, hy, hyid, hyrole⟩, hspell⟩ :
          (∃ y ∈ rows c, y.id = th.req.1 ∧ y.role = .superAdmin) ∧
            SpelledOnce (th.req.1, th.req.2) := by
        simpa [actorRemains, hth, hpend] using hok
      rw [id_of_read hreach hth hread] at hne
      show Governed (answer (.revoke th.req.2) (rows c)).2
      cases hid : AdminID.read th.req.2 with
      | none =>
        simp only [answer, hid]
        exact ⟨x, hx, hrole⟩
      | some id =>
        -- the row of the admin who revokes is not the one that goes
        have hother : y.id ≠ id := by
          rintro rfl
          exact hne (hspell (hyid ▸ hid)).symm
        obtain ⟨z, hz, hzrole⟩ := kept_of_ne hy hother
        simp only [answer, hid]
        exact ⟨z, hz, hzrole.trans hyrole⟩
    | adminByID id =>
      show Governed (answer (.adminByID id) (rows c)).2
      simp only [answer]
      split <;> exact ⟨x, hx, hrole⟩
    | _ => exact ⟨x, hx, hrole⟩
  | nudge =>
    cases hs
    exact ⟨x, List.mem_cons_of_mem _ hx, hrole⟩
  | _ =>
    cases hs
    exact ⟨x, hx, hrole⟩

namespace Sample

/-- The id whose last digit is `d`. -/
def idOf (d : Fin 16) : AdminID := ⟨List.replicate 31 0 ++ [d], rfl⟩

def chief (d : Fin 16) (username : String) : AdminUser := ⟨idOf d, username, .superAdmin, none⟩

def pair : List AdminUser := [chief 10 "ada", chief 11 "bea"]

def demoted : Config adminPlane :=
  (execAll actorRemains ⟨pair, []⟩
    (.spawn (idOf 10, (idOf 11).text) :: .replicate 4 (.act 0))).getD ⟨pair, []⟩

theorem pair_governed : Governed pair := ⟨chief 10 "ada", by decide, rfl⟩

theorem super_admin_remains_demoted :
    rows demoted = [chief 10 "ada"] ∧ Governed (rows demoted) :=
  ⟨by decide +kernel, super_admin_remains ⟨pair, pair_governed, run_execAll (fun _ _ h => h) _ _⟩⟩

/-- They revoke one another; both have passed their reads when the first row goes. -/
def deserted : Config adminPlane :=
  (execAll (fun _ _ => true) ⟨pair, []⟩
    ([.spawn (idOf 10, (idOf 11).text), .spawn (idOf 11, (idOf 10).text)] ++
      [.act 0, .act 0, .act 1, .act 1, .act 0, .act 1])).getD ⟨pair, []⟩

/-- The only super_admin, who writes the last digit of their own id as a capital. -/
def respelled : Config adminPlane :=
  (execAll (fun _ _ => true) ⟨[chief 10 "ada"], []⟩
    (.spawn (idOf 10, "00000000-0000-0000-0000-00000000000A") :: .replicate 4 (.act 0))).getD
    ⟨[chief 10 "ada"], []⟩

/-- **Without it none may remain**: two who revoke one another, or one who is told apart from
themselves by the spelling of their id. -/
theorem mutual_revocation :
    (Reachable Governed anyStep deserted ∧ rows deserted = []) ∧
      Reachable Governed anyStep respelled ∧ rows respelled = [] :=
  ⟨⟨⟨pair, pair_governed, run_execAll (fun _ _ _ => trivial) _ _⟩, by decide +kernel⟩,
    ⟨[chief 10 "ada"], ⟨_, List.mem_cons_self, rfl⟩, run_execAll (fun _ _ _ => trivial) _ _⟩,
    by decide +kernel⟩

end Sample

end Vault42.SuperAdmins
