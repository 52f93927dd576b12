import Mathlib.Data.List.Basic

/-!
# Signing out in the browser

One tab: `VaultClient` with its bearer, and the session state that every `useAuth()` shares.
JavaScript runs from one `await` to the next without interruption, so a call is the `await` it is at
(`Point`), and an event moves one call, or settles the refresh they all share.

A logout clears both copies of the token when it settles. A refresh that is in flight then, or any
call that signs in, writes them again when its answer arrives, and a passkey check that fails puts
back the bearer it found. `sign_out_final`: the user stays signed out as long as none of these is
pending when the logout has settled, or none of them is granted.

Whether `init` has run is not recorded: it only starts fewer of them.
-/

namespace Vault42.Client

abbrev Token := String

structure LoginResult where
  accessToken : Option Token := none
  requires2FA : Bool := false
  challengeToken : Option Token := none
deriving DecidableEq, Repr

/-- The answer to a request; `failed` is any other status, or no answer at all. -/
inductive Answer where
  | ok (body : LoginResult)
  | unauthorized
  | failed
deriving DecidableEq, Repr

/-- The calls of the composables, `loadProfile`, and every other method of the client. -/
inductive Call where
  | login
  /-- `complete2FAVerification`. -/
  | verify2FA
  /-- `exchangeCode` of `useOAuth`. -/
  | exchangeCode
  /-- The first request of `verify` of `useWebAuthn`: the challenge it was given, and the bearer
  before it. -/
  | webauthnBegin (given prev : Option Token)
  | webauthnFinish (given prev : Option Token)
  /-- What `useAuth` does after `verify`. -/
  | verify2FAWebAuthn
  | cancel2FA
  | refresh
  | init
  | logout
  | loadProfile
  | request
deriving DecidableEq, Repr

/-- What a tab holds: the bearer of the client, `accessToken`, `user` and `challengeToken` of the
shared state, and whether `_refreshing` is a promise. -/
structure Tab where
  bearer : Option Token
  accessToken : Option Token
  user : Bool
  challenge : Option Token
  refreshing : Bool
deriving DecidableEq, Repr

/-- The `await` a call is at. -/
inductive Point where
  /-- The first `fetch` of `dispatch`. -/
  | sent (c : Call)
  /-- `refresh()`, which has not settled. -/
  | awaiting (c : Call)
  /-- `refresh()`, which has. -/
  | woken (c : Call) (token : Option Token)
  /-- The `fetch` after a refresh. -/
  | retried (c : Call)
  | prompted (given prev : Option Token)
  | settled
deriving DecidableEq, Repr

def Tab.cleared (tab : Tab) : Tab := { tab with bearer := none, accessToken := none, user := false }

/-- The token of a new session is installed, and its profile is loaded. -/
def adopt (token : Option Token) (tab : Tab) : Tab × Point :=
  ({ tab with bearer := token, accessToken := token }, .sent .loadProfile)

/-- `verify` has failed: with a challenge it puts back the bearer it found. -/
def restore (given prev : Option Token) (tab : Tab) : Tab × Point :=
  ({ tab with bearer := if given.isSome then prev else tab.bearer }, .settled)

/-- What a call does with the answer it gets from `dispatch`. -/
def finish (c : Call) (r : Answer) (tab : Tab) : Tab × Point :=
  match c, r with
  | .login, .ok b =>
    if b.requires2FA then ({ tab.cleared with challenge := b.challengeToken }, .settled)
    else adopt b.accessToken tab
  | .verify2FA, .ok b =>
    if b.accessToken.isSome then adopt b.accessToken { tab with challenge := none }
    else ({ tab with bearer := tab.accessToken }, .settled)
  | .exchangeCode, .ok b => ({ tab with bearer := b.accessToken.or tab.bearer }, .settled)
  | .webauthnBegin given prev, .ok _ => (tab, .prompted given prev)
  | .webauthnFinish _ _, .ok b => ({ tab with bearer := b.accessToken.or tab.bearer }, .settled)
  | .webauthnBegin given prev, _ | .webauthnFinish given prev, _ => restore given prev tab
  | .loadProfile, .ok _ => ({ tab with user := true }, .settled)
  -- the client has dropped its token, and the shared state follows it
  | .loadProfile, _ =>
    (if tab.bearer.isSome then tab else { tab with accessToken := none, user := false }, .settled)
  | .logout, _ => ({ tab.cleared with challenge := none }, .settled)
  | _, _ => (tab, .settled)

/-- The argument `retry`: a second factor is not sent twice. -/
def Call.retry : Call → Bool
  | .verify2FA | .webauthnBegin _ _ | .webauthnFinish _ _ => false
  | _ => true

/-- **`dispatch`**: a 401 is answered with a refresh while there is a bearer, once. -/
def dispatch (p : Point) (r : Answer) (tab : Tab) : Tab × Point :=
  match p with
  | .sent c =>
    if r = .unauthorized ∧ c.retry ∧ tab.bearer.isSome then
      ({ tab with refreshing := true }, .awaiting c)
    else finish c r tab
  | .retried c => finish c r (if r = .unauthorized then { tab with bearer := none } else tab)
  | .prompted given prev =>
    match r with
    | .ok _ => (tab, .sent (.webauthnFinish given prev))
    | _ => restore given prev tab
  | p => (tab, p)

/-- What follows `await refresh()`; without a token it has thrown. -/
def resume (c : Call) (token : Option Token) (tab : Tab) : Tab × Point :=
  match c, token with
  | .refresh, some t => ({ tab with bearer := some t, accessToken := some t }, .settled)
  | .init, some t => adopt (some t) tab
  | .refresh, none | .init, none => (tab.cleared, .settled)
  | c, some _ => (tab, .retried c)
  | c, none => finish c .failed { tab with bearer := none }

def wakeUp : Point → Tab → Tab × Point
  | .woken c token, tab => resume c token tab
  | p, tab => (tab, p)

def begin (c : Call) (tab : Tab) : Tab × Point :=
  match c with
  | .refresh | .init => ({ tab with refreshing := true }, .awaiting c)
  | .login => ({ tab with challenge := none }, .sent c)
  | .verify2FA => ({ tab with bearer := tab.challenge.or tab.bearer }, .sent c)
  | .webauthnBegin given _ =>
    ({ tab with bearer := given.or tab.bearer }, .sent (.webauthnBegin given tab.bearer))
  | .verify2FAWebAuthn =>
    if tab.bearer = none ∨ tab.bearer = tab.challenge then
      ({ tab with bearer := tab.accessToken }, .settled)
    else ({ tab with accessToken := tab.bearer, challenge := none }, .sent .loadProfile)
  | .cancel2FA => ({ tab with challenge := none, bearer := tab.accessToken }, .settled)
  | _ => (tab, .sent c)

structure State where
  tab : Tab
  points : List Point
deriving DecidableEq, Repr

inductive Event where
  | start (c : Call)
  /-- The answer to the `fetch` of the `i`-th call, or of the authenticator. -/
  | answer (i : ℕ) (r : Answer)
  /-- The answer to the refresh in flight: `refreshOnce`. -/
  | refreshed (r : Answer)
  /-- The `i`-th call goes on after the refresh. -/
  | wake (i : ℕ)
  /-- The message that another tab has signed out. -/
  | message

def State.move (s : State) (i : ℕ) (f : Point → Tab → Tab × Point) : State :=
  match s.points[i]? with
  | none => s
  | some p => ⟨(f p s.tab).1, s.points.set i (f p s.tab).2⟩

/-- **What an event does.** -/
def step (s : State) : Event → State
  | .start c => ⟨(begin c s.tab).1, s.points ++ [(begin c s.tab).2]⟩
  | .answer i r => s.move i fun p => dispatch p r
  | .wake i => s.move i wakeUp
  | .message => { s with tab := s.tab.cleared }
  | .refreshed r =>
    if s.tab.refreshing then
      let tab := { s.tab with refreshing := false }
      let wake token := s.points.map fun
        | .awaiting c => Point.woken c token
        | p => p
      match r with
      | .ok b => ⟨{ tab with bearer := b.accessToken }, wake b.accessToken⟩
      | _ => ⟨tab, wake none⟩
    else s

/-! ### Signing out -/

/-- No token is held, and the user is signed out. -/
structure SignedOut (tab : Tab) : Prop where
  bearer : tab.bearer = none
  accessToken : tab.accessToken = none
  user : tab.user = false
  challenge : tab.challenge = none

/-- The answer lets the call write a token or a user. -/
def Call.granted (c : Call) (r : Answer) : Bool :=
  match c, r with
  | .login, .ok b => b.accessToken.isSome || b.requires2FA
  | .verify2FA, .ok b | .exchangeCode, .ok b | .webauthnFinish _ _, .ok b => b.accessToken.isSome
  | .webauthnBegin _ _, .ok _ => false
  | .webauthnBegin given prev, _ | .webauthnFinish given prev, _ => given.isSome && prev.isSome
  | .loadProfile, .ok _ => true
  | _, _ => false

/-- What a call at this point writes with the answer it gets. -/
def Point.granted : Point → Answer → Bool
  | .sent c, r | .retried c, r => c.granted r
  | .prompted given prev, r => Call.granted (.webauthnBegin given prev) r
  | _, _ => false

/-- What it writes after a refresh. -/
def Point.resumes : Point → Bool
  | .woken .refresh token | .woken .init token => token.isSome
  | .woken c none => c.granted .failed
  | _ => false

/-- The event lets a call write a token or a user. -/
def grants (s : State) : Event → Bool
  | .start (.webauthnBegin given _) => given.isSome
  | .refreshed (.ok b) => s.tab.refreshing && b.accessToken.isSome
  | .answer i r => s.points[i]?.any fun p => p.granted r
  | .wake i => s.points[i]?.any Point.resumes
  | _ => false

def Denied : State → List Event → Prop
  | _, [] => True
  | s, e :: es => grants s e = false ∧ Denied (step s e) es

section

variable {s : State} {tab : Tab} {c : Call} {p : Point} {r : Answer} (hout : SignedOut tab)
include hout

theorem signedOut_finish (h : c.granted r = false) : SignedOut (finish c r tab).1 := by
  obtain ⟨hb, ha, hu, hch⟩ := hout
  unfold finish
  split <;> constructor <;> simp_all [Call.granted, adopt, restore, Tab.cleared]

theorem signedOut_dispatch (h : p.granted r = false) : SignedOut (dispatch p r tab).1 := by
  cases p with
  | sent =>
    -- without a bearer nothing is refreshed
    rw [dispatch, if_neg (by simp [hout.bearer])]
    exact signedOut_finish hout h
  | retried =>
    have hsame : (if r = .unauthorized then { tab with bearer := none } else tab) = tab := by
      rw [← hout.bearer, ite_self]
    rw [dispatch, hsame]
    exact signedOut_finish hout h
  | prompted given prev =>
    -- a failure is that of the first request
    cases r with
    | ok => exact hout
    | unauthorized => exact signedOut_finish (c := .webauthnBegin given prev) (r := .failed) hout h
    | failed => exact signedOut_finish (c := .webauthnBegin given prev) (r := .failed) hout h
  | _ => exact hout

theorem signedOut_wakeUp (h : p.resumes = false) : SignedOut (wakeUp p tab).1 := by
  have hdropped : SignedOut { tab with bearer := none } :=
    ⟨rfl, hout.accessToken, hout.user, hout.challenge⟩
  cases p with
  | woken c token =>
    cases token with
    | some =>
      cases c with
      | refresh | init => cases h
      | _ => exact hout
    | none =>
      cases c with
      | refresh | init => exact ⟨rfl, rfl, rfl, hout.challenge⟩
      | _ => exact signedOut_finish hdropped h
  | _ => exact hout

end

section

variable {s : State} {e : Event} {es : List Event}

/-- **A step that grants nothing keeps a tab signed out.** -/
theorem signedOut_step (hout : SignedOut s.tab) (h : grants s e = false) :
    SignedOut (step s e).tab := by
  have moved : ∀ (i : ℕ) {f : Point → Tab → Tab × Point},
      (∀ p ∈ s.points[i]?, SignedOut (f p s.tab).1) → SignedOut (s.move i f).tab := by
    intro i f hf
    unfold State.move
    split
    · exact hout
    next p hp => exact hf p hp
  cases e with
  | start c =>
    obtain ⟨hb, ha, hu, hch⟩ := hout
    cases c <;> constructor <;> simp_all [step, begin, grants]
  | answer i r =>
    refine moved i fun p hp => signedOut_dispatch hout ?_
    rw [grants, hp] at h
    exact h
  | wake i =>
    refine moved i fun p hp => signedOut_wakeUp hout ?_
    rw [grants, hp] at h
    exact h
  | message => exact ⟨rfl, rfl, rfl, hout.challenge⟩
  | refreshed r =>
    rw [step]
    split
    next href =>
      cases r with
      | ok b =>
        have hnone : b.accessToken = none := by simpa [grants, href] using h
        exact ⟨hnone, hout.accessToken, hout.user, hout.challenge⟩
      | unauthorized | failed => exact ⟨hout.bearer, hout.accessToken, hout.user, hout.challenge⟩
    next => exact hout

/-- **A run that grants nothing keeps a tab signed out.** -/
theorem signedOut_of_denied (hout : SignedOut s.tab) (h : Denied s es) :
    SignedOut (es.foldl step s).tab := by
  induction es generalizing s with
  | nil => exact hout
  | cons e es ih => exact ih (signedOut_step hout h.1) h.2

/-! ### Nothing pending -/

/-- A call that installs no session, in a tab that is signed out. -/
def Call.plain : Call → Bool
  | .logout | .request | .cancel2FA | .verify2FAWebAuthn => true
  | _ => false

def Point.plain : Point → Bool
  | .sent c | .awaiting c | .woken c _ | .retried c => c.plain
  | .prompted _ _ => false
  | .settled => true

def Event.plain : Event → Bool
  | .start c => c.plain
  | _ => true

/-- No refresh is in flight, and no call is pending that installs a session. -/
structure Quiet (s : State) : Prop where
  refreshing : s.tab.refreshing = false
  plain : ∀ p ∈ s.points, p.plain

/-- Where a plain call gets to, in a tab without a bearer. -/
theorem plain_dispatch {tab : Tab} (hb : tab.bearer = none) {p : Point} (hp : p.plain)
    (r : Answer) :
    p.granted r = false ∧ (dispatch p r tab).1.refreshing = tab.refreshing ∧
      (dispatch p r tab).2.plain := by
  cases p with
  | sent c =>
    rw [dispatch, if_neg (by simp [hb])]
    cases c with
    | logout | request | cancel2FA | verify2FAWebAuthn => exact ⟨rfl, rfl, rfl⟩
    | _ => cases hp
  | retried c =>
    cases c with
    | logout | request | cancel2FA | verify2FAWebAuthn => cases r <;> exact ⟨rfl, rfl, rfl⟩
    | _ => cases hp
  | prompted => cases hp
  | _ => exact ⟨rfl, rfl, hp⟩

theorem plain_wakeUp {tab : Tab} {p : Point} (hp : p.plain) :
    p.resumes = false ∧ (wakeUp p tab).1.refreshing = tab.refreshing ∧ (wakeUp p tab).2.plain := by
  cases p with
  | woken c token =>
    cases c with
    | logout | request | cancel2FA | verify2FAWebAuthn => cases token <;> exact ⟨rfl, rfl, rfl⟩
    | _ => cases hp
  | _ => exact ⟨rfl, rfl, hp⟩

/-- A quiet tab stays quiet, and nothing is granted. -/
theorem quiet_step (hq : Quiet s) (hout : SignedOut s.tab) (he : e.plain) :
    grants s e = false ∧ Quiet (step s e) := by
  have moved : ∀ (i : ℕ) {q : Point → Bool} {f : Point → Tab → Tab × Point},
      (∀ p, p.plain → q p = false ∧ (f p s.tab).1.refreshing = s.tab.refreshing ∧
        (f p s.tab).2.plain) → s.points[i]?.any q = false ∧ Quiet (s.move i f) := by
    intro i q f hf
    unfold State.move
    cases hp : s.points[i]? with
    | none => exact ⟨rfl, hq⟩
    | some p =>
      obtain ⟨hno, href, hplain⟩ := hf p (hq.plain p (List.mem_of_getElem? hp))
      refine ⟨hno, href.trans hq.refreshing, fun q hmem => ?_⟩
      rcases List.mem_or_eq_of_mem_set hmem with hmem | rfl
      · exact hq.plain q hmem
      · exact hplain
  cases e with
  | start c =>
    have hbegin : grants s (.start c) = false ∧ (begin c s.tab).1.refreshing = s.tab.refreshing ∧
        (begin c s.tab).2.plain := by
      cases c with
      | verify2FAWebAuthn => simp [grants, begin, hout.bearer, Point.plain]
      | logout | request | cancel2FA => exact ⟨rfl, rfl, rfl⟩
      | _ => cases he
    refine ⟨hbegin.1, hbegin.2.1.trans hq.refreshing, fun p hp => ?_⟩
    rcases List.mem_append.mp hp with hp | hp
    · exact hq.plain p hp
    · rw [List.mem_singleton.mp hp]
      exact hbegin.2.2
  | answer i r => exact moved i fun p hp => plain_dispatch hout.bearer hp r
  | wake i => exact moved i fun p hp => plain_wakeUp hp
  | message => exact ⟨rfl, hq.refreshing, hq.plain⟩
  | refreshed r =>
    rw [step, if_neg (by simp [hq.refreshing])]
    refine ⟨?_, hq⟩
    cases r with
    | ok => simp [grants, hq.refreshing]
    | unauthorized | failed => rfl

theorem denied_of_quiet (hq : Quiet s) (hout : SignedOut s.tab) (hes : ∀ e ∈ es, e.plain) :
    Denied s es := by
  induction es generalizing s with
  | nil => trivial
  | cons e es ih =>
    obtain ⟨he, hes⟩ := List.forall_mem_cons.mp hes
    obtain ⟨hnot, hq'⟩ := quiet_step hq hout he
    exact ⟨hnot, ih hq' (signedOut_step hout hnot) hes⟩

end

/-- **Signing out is final.** A logout has finished, whatever it was answered with and whatever
calls are at other points. If no refresh is in flight and no pending call installs a session, and
none that does is started, or if those that are there are not granted one, the tab holds no token
and the user is signed out, in whatever order the rest arrives. -/
theorem sign_out_final {r : Answer} {tab : Tab} {points : List Point} {es : List Event}
    (h : Quiet ⟨(finish .logout r tab).1, points⟩ ∧ (∀ e ∈ es, e.plain) ∨
      Denied ⟨(finish .logout r tab).1, points⟩ es) :
    SignedOut (es.foldl step ⟨(finish .logout r tab).1, points⟩).tab := by
  have hout : SignedOut (finish .logout r tab).1 := by cases r <;> exact ⟨rfl, rfl, rfl, rfl⟩
  rcases h with ⟨hq, hes⟩ | h
  · exact signedOut_of_denied hout (denied_of_quiet hq hout hes)
  · exact signedOut_of_denied hout h

namespace Sample

def signedIn : State := ⟨⟨some "a", some "a", true, none, false⟩, []⟩

/-- The user signs out while a request is pending. -/
def loggedOut : State := ⟨(finish .logout (.ok {}) signedIn.tab).1, [.settled, .sent .request]⟩

theorem sign_out_final_request :
    [.start .logout, .start .request, .answer 0 (.ok {})].foldl step signedIn = loggedOut ∧
      SignedOut ([.answer 1 .unauthorized].foldl step loggedOut).tab :=
  ⟨by decide, sign_out_final (.inl ⟨⟨rfl, by decide⟩, by decide⟩)⟩

/-- The user signs out while another call is on its way. -/
def outstripped (c : Call) : State :=
  [.start c, .start .logout, .answer 1 (.ok {})].foldl step signedIn

/-- **A refresh that is answered later signs the user in again**, when every call has settled; and a
passkey check that fails later puts back the bearer. -/
theorem signed_in_again :
    SignedOut (outstripped .refresh).tab ∧
      [.refreshed (.ok ⟨some "b", false, none⟩), .wake 0].foldl step (outstripped .refresh) =
        ⟨⟨some "b", some "b", false, none, false⟩, [.settled, .settled]⟩ ∧
      SignedOut (outstripped (.webauthnBegin (some "c") none)).tab ∧
      [.answer 0 .failed].foldl step (outstripped (.webauthnBegin (some "c") none)) =
        ⟨⟨some "a", none, false, none, false⟩, [.settled, .settled]⟩ :=
  ⟨⟨rfl, rfl, rfl, rfl⟩, by decide, ⟨rfl, rfl, rfl, rfl⟩, by decide⟩

end Sample

end Vault42.Client
