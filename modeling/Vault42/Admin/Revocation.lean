import Vault42.Framework.Machine
import Vault42.Model

/-!
# Revoked client certificates

`clientIdentityPolicy` of `cmd/admin-gateway/clientauth.go`: on every handshake the revocation lists
are read from disk again, and a high-water mark per issuer keeps anyone who can write the files from
putting an older list in place of a newer one.

A list is *authenticated* by its signature, which any CA of the bundle may have made, but it is
*attributed* by the name it carries. And a name that no list carries any more is not looked up. So
the mark protects the revocations of an issuer exactly as long as a list under its name stays among
the files and lists under its name are signed by its key; `revocation_stands` says so for every
sequence of handshakes. `Sample.revocation_undone` has the two ways around it: another CA's list in
the place of the issuer's own, and another CA's list under the issuer's name.

The allow-list of `checkIdentity` is a predicate of the leaf. A signature verifies under the key
that made it and under no other.
-/

namespace Vault42.ClientAuth

open Framework List

/-! ### Certificates and lists -/

/-- A certificate of a chain. `N` is the type of distinguished names. -/
structure Certificate (N : Type) where
  rawIssuer : N
  serialNumber : ℤ
deriving DecidableEq, Repr

/-- A CA of the bundle. `K` is the type of keys. -/
structure Authority (N K : Type) where
  rawSubject : N
  key : K
  /-- It is a CA with the `cRLSign` key usage. -/
  signsLists : Bool
deriving DecidableEq, Repr

/-- A revocation list. The number and `nextUpdate` may be absent. -/
structure RevocationList (N K : Type) where
  rawIssuer : N
  number : Option ℤ
  thisUpdate : Time
  nextUpdate : Option Time
  revoked : List ℤ
  /-- The key that signed it. -/
  signer : K
deriving DecidableEq, Repr

/-- What a path holds. -/
inductive File (N K : Type) where
  | unreadable
  | malformed
  | list (crl : RevocationList N K)
deriving DecidableEq, Repr

/-- Why one list is not believed. -/
inductive ListError where
  | read
  | parse
  | noAuthority
  | notSigned
  | inTheFuture
  | noNextUpdate
  | expired
  | duplicate (other : String)
  | olderNumber
  | olderDate
deriving DecidableEq, Repr

/-- Why a handshake is refused. -/
inductive Refusal (N K : Type) where
  | noCertificate
  | identity
  | list (path : String) (e : ListError)
  /-- The certificate is on the list. -/
  | revoked (crl : RevocationList N K) (cert : Certificate N)
deriving DecidableEq, Repr

/-! ### The high-water mark -/

structure Mark where
  number : Option ℤ
  thisUpdate : Time
deriving DecidableEq, Repr

/-- The zero `crlMark`: no number, and the zero time. -/
def Mark.zero : Mark := ⟨none, -62135596800 * Duration.second⟩

/-- The marks by issuer (`crlHighWater`). -/
abbrev HighWater (N : Type) := N → Option Mark

section Mark

variable {N K : Type} {crl : RevocationList N K} {n k : ℤ}

def Mark.refuseRollback (m : Mark) (crl : RevocationList N K) : Option ListError :=
  let older := match crl.number, m.number with
    | some n, some k => decide (n < k)
    | _, _ => false
  if older then some .olderNumber
  else if crl.thisUpdate < m.thisUpdate then some .olderDate
  else none

/-- The mark once a list has been accepted. -/
def Mark.raise (m : Mark) (crl : RevocationList N K) : Mark where
  number := match crl.number, m.number with
    | some n, some k => if k < n then some n else some k
    | some n, none => some n
    | none, k => k
  thisUpdate := if m.thisUpdate < crl.thisUpdate then crl.thisUpdate else m.thisUpdate

theorem Mark.le_of_refuseRollback {m : Mark} (hnone : m.refuseRollback crl = none)
    (hn : crl.number = some n) (hk : m.number = some k) : k ≤ n := by
  rw [Mark.refuseRollback, hn, hk] at hnone
  by_contra hlt
  simp only [decide_eq_true (not_le.mp hlt), if_true] at hnone
  cases hnone

theorem Mark.raise_number (m : Mark) (crl : RevocationList N K) (hk : m.number = some k) :
    ∃ k', (m.raise crl).number = some k' ∧ k ≤ k' := by
  unfold Mark.raise
  cases hn : crl.number with
  | none => exact ⟨k, hk, le_rfl⟩
  | some n =>
    simp only [hk]
    split_ifs with hlt
    · exact ⟨n, rfl, le_of_lt hlt⟩
    · exact ⟨k, rfl, le_rfl⟩

theorem Mark.raise_covers (m : Mark) (hn : crl.number = some n) :
    ∃ k, (m.raise crl).number = some k ∧ n ≤ k := by
  unfold Mark.raise
  cases hk : m.number with
  | none =>
    simp only [hn]
    exact ⟨n, rfl, le_rfl⟩
  | some k =>
    simp only [hn]
    split_ifs with hlt
    · exact ⟨n, rfl, le_rfl⟩
    · exact ⟨k, rfl, not_lt.mp hlt⟩

end Mark

section

variable {N K : Type} [DecidableEq N] [DecidableEq K]

/-- `crlHighWater.admit`. -/
def HighWater.accept (h : HighWater N) (crl : RevocationList N K) :
    Except ListError (HighWater N) :=
  match (h crl.rawIssuer).bind fun m => m.refuseRollback crl with
  | some e => .error e
  | none =>
    .ok (Function.update h crl.rawIssuer (some (((h crl.rawIssuer).getD .zero).raise crl)))

/-! ### Loading the lists -/

def crlClockSkew : Duration := 5 * Duration.minute

/-- `CheckSignatureFrom`: the name of the CA is not compared. -/
def RevocationList.checkSignatureFrom (crl : RevocationList N K) (ca : Authority N K) : Bool :=
  ca.signsLists && crl.signer = ca.key

def signedByAny (crl : RevocationList N K) (issuers : List (Authority N K)) : Bool :=
  issuers.any crl.checkSignatureFrom

def checkCRLWindow (now : Time) (crl : RevocationList N K) : Option ListError :=
  if now + crlClockSkew < crl.thisUpdate then some .inTheFuture
  else match crl.nextUpdate with
    | none => some .noNextUpdate
    | some next => if next < now then some .expired else none

def loadCRL (now : Time) (issuers : List (Authority N K)) : File N K →
    Except ListError (RevocationList N K)
  | .unreadable => .error .read
  | .malformed => .error .parse
  | .list crl =>
    if issuers = [] then .error .noAuthority
    else if !signedByAny crl issuers then .error .notSigned
    else match checkCRLWindow now crl with
      | some e => .error e
      | none => .ok crl

structure Policy (N K : Type) where
  identity : Certificate N → Bool
  crlFiles : List String
  issuers : List (Authority N K)

abbrev Disk (N K : Type) := String → File N K

/-- The loop of `loadCRLs`: the paths in turn, with where each issuer's list came from. The marks
that were raised before a failure stay raised. -/
def loadFrom (issuers : List (Authority N K)) (disk : Disk N K) (now : Time) :
    List String → List (N × String) → HighWater N →
    HighWater N × Except (Refusal N K) (List (RevocationList N K))
  | [], _, seen => (seen, .ok [])
  | path :: paths, origin, seen =>
    match loadCRL now issuers (disk path) with
    | .error e => (seen, .error (.list path e))
    | .ok crl =>
      match origin.lookup crl.rawIssuer with
      | some other => (seen, .error (.list path (.duplicate other)))
      | none =>
        match seen.accept crl with
        | .error e => (seen, .error (.list path e))
        | .ok seen =>
          let (seen, rest) := loadFrom issuers disk now paths ((crl.rawIssuer, path) :: origin) seen
          (seen, rest.map (crl :: ·))

def Policy.loadCRLs (p : Policy N K) (disk : Disk N K) (now : Time) (seen : HighWater N) :
    HighWater N × Except (Refusal N K) (List (RevocationList N K)) :=
  loadFrom p.issuers disk now p.crlFiles [] seen

/-- The list that revokes a certificate, if one does. -/
def revokedBy (crls : List (RevocationList N K)) (cert : Certificate N) :
    Option (RevocationList N K) :=
  crls.find? fun crl => crl.rawIssuer = cert.rawIssuer && crl.revoked.contains cert.serialNumber

def screenChain (crls : List (RevocationList N K)) (chain : List (Certificate N)) :
    Except (Refusal N K) Unit :=
  match chain.findSome? fun cert => (revokedBy crls cert).map fun crl => (crl, cert) with
  | some (crl, cert) => .error (.revoked crl cert)
  | none => .ok ()

def Policy.checkRevocation (p : Policy N K) (disk : Disk N K) (now : Time) (seen : HighWater N)
    (chain : List (Certificate N)) : HighWater N × Except (Refusal N K) Unit :=
  if p.crlFiles = [] then (seen, .ok ())
  else match p.loadCRLs disk now seen with
    | (seen, .error e) => (seen, .error e)
    | (seen, .ok crls) => (seen, screenChain crls chain)

def Policy.verifyConnection (p : Policy N K) (disk : Disk N K) (now : Time) (seen : HighWater N)
    (chain : List (Certificate N)) : HighWater N × Except (Refusal N K) Unit :=
  match chain with
  | [] => (seen, .error .noCertificate)
  | leaf :: _ =>
    if !p.identity leaf then (seen, .error .identity)
    else p.checkRevocation disk now seen chain

/-- What happens to the gateway: it starts, or a client connects. -/
inductive Event (N K : Type) where
  | boot (disk : Disk N K) (now : Time)
  | handshake (chain : List (Certificate N)) (disk : Disk N K) (now : Time)

/-- What the files hold when it happens. -/
def Event.disk : Event N K → Disk N K
  | .boot disk _ => disk
  | .handshake _ disk _ => disk

def gateway (p : Policy N K) : Machine (HighWater N) (Event N K) (Except (Refusal N K) Unit) where
  step seen e := match e with
    | .boot disk now =>
      let (seen, r) := p.loadCRLs disk now seen
      (seen, r.map fun _ => ())
    | .handshake chain disk now => p.verifyConnection disk now seen chain

/-! ### What a mark says -/

/-- The mark of an issuer has come to a number. -/
def HighWater.Reached (h : HighWater N) (name : N) (n : ℤ) : Prop :=
  ∃ m k, h name = some m ∧ m.number = some k ∧ n ≤ k

variable {h h' seen seen' : HighWater N} {crl : RevocationList N K} {name : N} {n : ℤ}

omit [DecidableEq K] in
/-- **A list that is accepted** is no older than the mark, and the mark comes up to it; no mark goes
back. -/
theorem accept_eq_ok (hok : h.accept crl = .ok h') :
    (∀ name n, h.Reached name n → h'.Reached name n) ∧
    (∀ n, crl.number = some n → h'.Reached crl.rawIssuer n) ∧
    ∀ n k, crl.number = some n → h.Reached crl.rawIssuer k → k ≤ n := by
  unfold HighWater.accept at hok
  split at hok
  · cases hok
  next hnone =>
    cases hok
    refine ⟨fun name n => ?_, fun n hn => ?_, fun n k hn hreached => ?_⟩
    · rintro ⟨m, k, hm, hk, hle⟩
      by_cases hname : name = crl.rawIssuer
      · subst hname
        obtain ⟨k', hk', hkk⟩ := m.raise_number crl hk
        refine ⟨m.raise crl, k', ?_, hk', le_trans hle hkk⟩
        rw [Function.update_self, hm, Option.getD_some]
      · exact ⟨m, k, by rw [Function.update_of_ne hname, hm], hk, hle⟩
    · obtain ⟨k, hk, hle⟩ := Mark.raise_covers ((h crl.rawIssuer).getD .zero) hn
      exact ⟨_, k, Function.update_self .., hk, hle⟩
    · obtain ⟨m, k', hm, hk', hle⟩ := hreached
      rw [hm, Option.bind_some] at hnone
      exact le_trans hle (Mark.le_of_refuseRollback hnone hn hk')

/-! ### What is loaded -/

variable {issuers : List (Authority N K)} {disk : Disk N K} {now : Time} {paths : List String}
  {origin : List (N × String)} {crls : List (RevocationList N K)}

omit [DecidableEq N] in
theorem loadCRL_eq_ok {file : File N K} (hok : loadCRL now issuers file = .ok crl) :
    file = .list crl := by
  unfold loadCRL at hok
  split at hok
  · cases hok
  · cases hok
  next l =>
    split_ifs at hok
    split at hok
    · cases hok
    · cases hok
      rfl

/-- Loading never lowers a mark, even when it fails halfway. -/
theorem reached_loadFrom (issuers : List (Authority N K)) (disk : Disk N K) (now : Time)
    (paths : List String) (origin : List (N × String)) (hreached : seen.Reached name n) :
    (loadFrom issuers disk now paths origin seen).1.Reached name n := by
  induction paths generalizing origin seen with
  | nil => exact hreached
  | cons path paths ih =>
    rw [loadFrom]
    split
    · exact hreached
    next crl _ =>
      split
      · exact hreached
      split
      · exact hreached
      next seen₁ haccept => exact ih _ ((accept_eq_ok haccept).1 _ _ hreached)

/-- What one loaded list has to do with the files and with the marks before and after. -/
structure Loaded (disk : Disk N K) (paths : List String) (seen seen' : HighWater N)
    (crl : RevocationList N K) : Prop where
  onDisk : ∃ path ∈ paths, disk path = .list crl
  reached : ∀ n, crl.number = some n → seen'.Reached crl.rawIssuer n
  notOlder : ∀ n k, crl.number = some n → seen.Reached crl.rawIssuer k → k ≤ n

/-- **Lists that are loaded**: every one is on disk and not older than its mark, and every file has
been read. -/
theorem loadFrom_eq_ok (hok : loadFrom issuers disk now paths origin seen = (seen', .ok crls)) :
    (∀ crl ∈ crls, Loaded disk paths seen seen' crl) ∧
      ∀ path ∈ paths, ∃ crl ∈ crls, disk path = .list crl := by
  induction paths generalizing origin seen crls with
  | nil =>
    cases hok
    exact ⟨fun _ hmem => absurd hmem not_mem_nil, fun _ hmem => absurd hmem not_mem_nil⟩
  | cons path paths ih =>
    rw [loadFrom] at hok
    split at hok
    · cases hok
    next first hfirst =>
      split at hok
      · cases hok
      split at hok
      · cases hok
      next seen₁ haccept =>
        -- the rest is loaded from the marks that the first list has raised
        cases hrest : loadFrom issuers disk now paths ((first.rawIssuer, path) :: origin) seen₁ with
        | mk seen₂ r =>
          rw [hrest] at hok
          cases r with
          | error => cases hok
          | ok =>
            cases hok
            obtain ⟨hgrow, hreached, hnotOlder⟩ := accept_eq_ok haccept
            obtain ⟨hloaded, hall⟩ := ih hrest
            have hkeep : ∀ {name n}, seen₁.Reached name n → seen'.Reached name n := by
              intro name n h
              have hstay :=
                reached_loadFrom issuers disk now paths ((first.rawIssuer, path) :: origin) h
              rwa [hrest] at hstay
            constructor
            · intro crl hcrl
              rcases mem_cons.mp hcrl with rfl | hcrl
              · exact ⟨⟨path, mem_cons_self, loadCRL_eq_ok hfirst⟩,
                  fun n hn => hkeep (hreached n hn), hnotOlder⟩
              · obtain ⟨⟨q, hq, hdisk⟩, hr, ho⟩ := hloaded crl hcrl
                exact ⟨⟨q, mem_cons_of_mem _ hq, hdisk⟩, hr,
                  fun n k hn hk => ho n k hn (hgrow _ _ hk)⟩
            · intro q hq
              rcases mem_cons.mp hq with rfl | hq
              · exact ⟨first, mem_cons_self, loadCRL_eq_ok hfirst⟩
              · obtain ⟨crl, hcrl, hdisk⟩ := hall q hq
                exact ⟨crl, mem_cons_of_mem _ hcrl, hdisk⟩

/-! ### One handshake -/

variable {p : Policy N K} {e : Event N K} {cert : Certificate N} {chain : List (Certificate N)}

omit [DecidableEq K] in
theorem revokedBy_eq_some (hrevoked : revokedBy crls cert = some crl) :
    crl ∈ crls ∧ crl.rawIssuer = cert.rawIssuer ∧ cert.serialNumber ∈ crl.revoked := by
  have htest := find?_some hrevoked
  rw [Bool.and_eq_true, decide_eq_true_eq, contains_iff_mem] at htest
  exact ⟨mem_of_find?_eq_some hrevoked, htest⟩

omit [DecidableEq K] in
theorem screenChain_revoked (hscreen : screenChain crls chain = .error (.revoked crl cert)) :
    cert ∈ chain ∧ revokedBy crls cert = some crl := by
  unfold screenChain at hscreen
  split at hscreen
  next crl' cert' hfind =>
    cases hscreen
    obtain ⟨c, hc, hmap⟩ := exists_of_findSome?_eq_some hfind
    obtain ⟨l, hl, heq⟩ := Option.map_eq_some_iff.mp hmap
    cases heq
    exact ⟨hc, hl⟩
  · cases hscreen

omit [DecidableEq K] in
theorem screenChain_ok (hscreen : screenChain crls chain = .ok ()) (hcert : cert ∈ chain) :
    revokedBy crls cert = none := by
  unfold screenChain at hscreen
  split at hscreen
  · cases hscreen
  next hfind => exact Option.map_eq_none_iff.mp (findSome?_eq_none_iff.mp hfind cert hcert)

/-- What is wrong with a list is wrong with its file. -/
theorem loadFrom_error {r : Refusal N K}
    (herr : loadFrom issuers disk now paths origin seen = (seen', .error r)) :
    ∃ path e, r = .list path e := by
  induction paths generalizing origin seen with
  | nil => cases herr
  | cons path paths ih =>
    rw [loadFrom] at herr
    split at herr
    · cases herr
      exact ⟨_, _, rfl⟩
    next first _ =>
      split at herr
      · cases herr
        exact ⟨_, _, rfl⟩
      split at herr
      · cases herr
        exact ⟨_, _, rfl⟩
      next seen₁ _ =>
        cases hrest : loadFrom issuers disk now paths ((first.rawIssuer, path) :: origin) seen₁ with
        | mk seen₂ rest =>
          rw [hrest] at herr
          cases rest with
          | ok => cases herr
          | error =>
            cases herr
            exact ih hrest

/-- What a handshake answers when the lists are read: their failure, or what they say about the
chain. -/
theorem handshake_cases {answer : Except (Refusal N K) Unit}
    (hstep : (gateway p).step seen (.handshake chain disk now) = (seen', answer)) :
    (seen' = seen ∧ (answer = .error .noCertificate ∨ answer = .error .identity ∨
      p.crlFiles = [] ∧ answer = .ok ())) ∨
    (∃ path e, p.loadCRLs disk now seen = (seen', .error (.list path e)) ∧
      answer = .error (.list path e)) ∨
    ∃ crls, p.loadCRLs disk now seen = (seen', .ok crls) ∧ answer = screenChain crls chain := by
  simp only [gateway, Policy.verifyConnection] at hstep
  split at hstep
  · cases hstep
    exact .inl ⟨rfl, .inl rfl⟩
  split_ifs at hstep
  · cases hstep
    exact .inl ⟨rfl, .inr (.inl rfl)⟩
  unfold Policy.checkRevocation at hstep
  split_ifs at hstep with hfiles
  · cases hstep
    exact .inl ⟨rfl, .inr (.inr ⟨hfiles, rfl⟩)⟩
  split at hstep
  next seen₁ r hload =>
    cases hstep
    obtain ⟨path, e, rfl⟩ := loadFrom_error hload
    exact .inr (.inl ⟨path, e, hload, rfl⟩)
  next seen₁ crls hload =>
    cases hstep
    exact .inr (.inr ⟨crls, hload, rfl⟩)

/-- **A decision**: the certificate is of the chain, and on a list that was loaded. -/
theorem step_revoked (hstep : (gateway p).step seen e = (seen', .error (.revoked crl cert))) :
    Loaded e.disk p.crlFiles seen seen' crl ∧ crl.rawIssuer = cert.rawIssuer ∧
      cert.serialNumber ∈ crl.revoked := by
  cases e with
  | boot disk now =>
    cases hload : p.loadCRLs disk now seen with
    | mk seen₁ r =>
      simp only [gateway, hload] at hstep
      cases r with
      | ok => cases hstep
      | error =>
        obtain ⟨path, e, rfl⟩ := loadFrom_error hload
        cases hstep
  | handshake =>
    rcases handshake_cases hstep with ⟨-, h | h | ⟨-, h⟩⟩ | ⟨path, e, -, h⟩ | ⟨crls, hload, h⟩
    · cases h
    · cases h
    · cases h
    · cases h
    · obtain ⟨hmem, hissuer, hserial⟩ := revokedBy_eq_some (screenChain_revoked h.symm).2
      exact ⟨(loadFrom_eq_ok hload).1 crl hmem, hissuer, hserial⟩

/-- A handshake that is accepted has read every file, and no list revokes a certificate of the
chain. -/
theorem step_accepted (hfiles : p.crlFiles ≠ [])
    (hstep : (gateway p).step seen (.handshake chain disk now) = (seen', .ok ())) :
    ∃ crls, p.loadCRLs disk now seen = (seen', .ok crls) ∧
      ∀ cert ∈ chain, revokedBy crls cert = none := by
  rcases handshake_cases hstep with ⟨-, h | h | ⟨hnil, -⟩⟩ | ⟨path, e, -, h⟩ | ⟨crls, hload, h⟩
  · cases h
  · cases h
  · exact absurd hnil hfiles
  · cases h
  · exact ⟨crls, hload, fun _ => screenChain_ok h.symm⟩

theorem reached_step (hreached : seen.Reached name n) :
    ((gateway p).step seen e).1.Reached name n := by
  cases e with
  | boot disk now => exact reached_loadFrom p.issuers disk now p.crlFiles [] hreached
  | handshake chain disk now =>
    have hrise := reached_loadFrom p.issuers disk now p.crlFiles [] hreached
    cases hstep : (gateway p).step seen (.handshake chain disk now) with
    | mk =>
      rcases handshake_cases hstep with ⟨rfl, -⟩ | ⟨path, e, hload, -⟩ | ⟨crls, hload, -⟩
      · exact hreached
      · rw [Policy.loadCRLs] at hload
        rwa [hload] at hrise
      · rw [Policy.loadCRLs] at hload
        rwa [hload] at hrise

/-! ### Every sequence of handshakes -/

/-- The lists that a key has signed are numbered, and a list with a higher number has all the
entries of one with a lower number. -/
def Orderly (published : List (RevocationList N K)) (key : K) : Prop :=
  ∀ l ∈ published, ∀ l' ∈ published, l.signer = key → l'.signer = key →
    ∃ n n', l.number = some n ∧ l'.number = some n' ∧ (n ≤ n' → l.revoked ⊆ l'.revoked)

/-- The files hold lists that were published. -/
def FromPublished (p : Policy N K) (published : List (RevocationList N K)) (disk : Disk N K) :
    Prop :=
  ∀ path ∈ p.crlFiles, ∀ crl, disk path = .list crl → crl ∈ published

/-- The files hold a list under the name of the authority, and lists under its name are signed by
its key. -/
structure Kept (p : Policy N K) (ca : Authority N K) (disk : Disk N K) : Prop where
  own : ∀ path ∈ p.crlFiles, ∀ crl, disk path = .list crl → crl.rawIssuer = ca.rawSubject →
    crl.signer = ca.key
  covered : ∃ path ∈ p.crlFiles, ∃ crl, disk path = .list crl ∧ crl.rawIssuer = ca.rawSubject

def Unread (seen : HighWater N) : Prop := ∀ name, seen name = none

section Journal

variable {ok : HighWater N → Event N K → Prop}
  {j newer older : List (Event N K × Except (Refusal N K) Unit)}

/-- The mark of an issuer has come to every list that has decided about one of its certificates. -/
theorem reached_of_revoked (h : (gateway p).Journal Unread ok seen j)
    (hmem : (e, .error (.revoked crl cert)) ∈ j) (hn : crl.number = some n) :
    seen.Reached cert.rawIssuer n := by
  induction h with
  | start => cases hmem
  | @next seen j e' hprev hok ih =>
    rcases mem_cons.mp hmem with heq | hmem
    · -- the list was loaded just now
      obtain ⟨rfl, hanswer⟩ := Prod.mk.inj heq
      obtain ⟨hloaded, hissuer, -⟩ := step_revoked (Prod.ext rfl hanswer.symm)
      exact hissuer ▸ hloaded.reached n hn
    · exact reached_step (ih hmem)

/-- A list that has decided was on the disk, among the lists under the name of the issuer. -/
theorem onDisk_of_revoked (h : (gateway p).Journal Unread ok seen j)
    (hmem : (e, .error (.revoked crl cert)) ∈ j) :
    ∃ seen, ok seen e ∧ (∃ path ∈ p.crlFiles, e.disk path = .list crl) ∧
      crl.rawIssuer = cert.rawIssuer ∧ cert.serialNumber ∈ crl.revoked := by
  obtain ⟨seen', older, -, hok, hanswer⟩ := h.of_mem hmem
  obtain ⟨hloaded, hissuer, hserial⟩ := step_revoked (Prod.ext rfl hanswer.symm)
  exact ⟨seen', hok, hloaded.onDisk, hissuer, hserial⟩

end Journal

/-- **Revocation stands.** In every sequence of handshakes during which the files hold a list under
the authority's name, and only such as its key has signed: once a chain has been refused for a
certificate of the authority, every later handshake with that certificate is refused; and only lists
signed by the authority's key decide about its certificates. -/
theorem revocation_stands (p : Policy N K) (ca : Authority N K)
    {published : List (RevocationList N K)} (horderly : Orderly published ca.key)
    {seen : HighWater N} {j : List (Event N K × Except (Refusal N K) Unit)}
    (h : (gateway p).Journal Unread (fun _ e => FromPublished p published e.disk ∧ Kept p ca e.disk)
      seen j) :
    (∀ newer older e crl cert, j = newer ++ (e, .error (.revoked crl cert)) :: older →
      cert.rawIssuer = ca.rawSubject → ∀ chain disk now answer,
      (.handshake chain disk now, answer) ∈ newer → cert ∈ chain → answer ≠ .ok ()) ∧
    ∀ e crl cert, (e, .error (.revoked crl cert)) ∈ j → cert.rawIssuer = ca.rawSubject →
      crl.signer = ca.key := by
  have hown : ∀ e crl cert, (e, .error (.revoked crl cert)) ∈ j → cert.rawIssuer = ca.rawSubject →
      crl.signer = ca.key := by
    intro e crl cert hmem hissuer
    obtain ⟨-, ⟨-, hkept⟩, ⟨path, hpath, hdisk⟩, hname, -⟩ := onDisk_of_revoked h hmem
    exact hkept.own path hpath crl hdisk (hname.trans hissuer)
  refine ⟨?_, hown⟩
  rintro newer older e crl cert hj hissuer chain disk now answer hlater hcert rfl
  -- the later handshake, and the state it was answered in
  obtain ⟨newest, between, rfl⟩ := List.append_of_mem hlater
  rw [List.append_assoc, List.cons_append] at hj
  obtain ⟨seen', hprev, ⟨hpublished', hkept'⟩, hanswer⟩ := h.before hj
  have hmem : (e, .error (.revoked crl cert)) ∈ between ++
      (e, .error (.revoked crl cert)) :: older :=
    List.mem_append_right _ List.mem_cons_self
  -- the list that decided, with its number and the mark it left behind
  obtain ⟨-, ⟨hpublished, -⟩, ⟨path, hpath, hdisk⟩, -, hserial⟩ := onDisk_of_revoked hprev hmem
  have hsigner : crl.signer = ca.key :=
    hown e crl cert (hj ▸ List.mem_append_right _ (List.mem_cons_of_mem _ hmem)) hissuer
  have hcrl := hpublished path hpath crl hdisk
  -- the authority's list that is in place now
  obtain ⟨path', hpath', crl', hdisk', hname'⟩ := hkept'.covered
  have hsigner' := hkept'.own path' hpath' crl' hdisk' hname'
  obtain ⟨n, n', hn, hn', hgrow⟩ :=
    horderly crl hcrl crl' (hpublished' path' hpath' crl' hdisk') hsigner hsigner'
  have hreached := reached_of_revoked hprev hmem hn
  rw [hissuer, ← hname'] at hreached
  -- it was loaded, so it is not older than the mark, and revokes what the older one revoked
  obtain ⟨crls, hload, hnone⟩ :=
    step_accepted (List.ne_nil_of_mem hpath') (Prod.ext rfl hanswer.symm)
  obtain ⟨hloaded, hall⟩ := loadFrom_eq_ok hload
  obtain ⟨crl'', hcrl'', hdisk''⟩ := hall path' hpath'
  obtain rfl : crl' = crl'' := File.list.inj (hdisk'.symm.trans hdisk'')
  have hle := (hloaded crl' hcrl'').notOlder n' n hn' hreached
  have hclean := List.find?_eq_none.mp (hnone cert hcert) crl' hcrl''
  rw [Bool.and_eq_true, decide_eq_true_eq, List.contains_iff_mem] at hclean
  exact hclean ⟨hname'.trans hissuer.symm, hgrow hle hserial⟩

end

/-! ### Two authorities and one file -/

namespace Sample

def authorityA : Authority String ℕ := ⟨"A", 1, true⟩

def authorityB : Authority String ℕ := ⟨"B", 2, true⟩

def policy : Policy String ℕ where
  identity _ := true
  crlFiles := ["client.crl"]
  issuers := [authorityA, authorityB]

/-- The lists of `A`: the second one has one more entry. -/
def firstA : RevocationList String ℕ := ⟨"A", some 1, 0, some 1000, [5], 1⟩

def secondA : RevocationList String ℕ := ⟨"A", some 2, 10, some 1000, [5, 6], 1⟩

/-- A list of `B` about its own certificates. -/
def ownB : RevocationList String ℕ := ⟨"B", some 1, 0, some 1000, [], 2⟩

/-- A list of `B` under the name of `A`. -/
def strayB : RevocationList String ℕ := ⟨"A", some 2, 0, some 1000, [7], 2⟩

/-- The one file holds a list. -/
def holding (crl : RevocationList String ℕ) : Disk String ℕ := fun _ => .list crl

theorem fromPublished_holding {published : List (RevocationList String ℕ)}
    {crl : RevocationList String ℕ}
    (h : crl ∈ published) : FromPublished policy published (holding crl) :=
  fun _ _ _ heq => File.list.inj heq ▸ h

theorem kept_holding {crl : RevocationList String ℕ} (hname : crl.rawIssuer = "A")
    (hsigner : crl.signer = 1) : Kept policy authorityA (holding crl) where
  own := fun _ _ _ heq _ => File.list.inj heq ▸ hsigner
  covered := ⟨"client.crl", mem_cons_self, crl, rfl, hname⟩

/-- A handshake of an operator whose certificate has the serial number 5. -/
def knock (crl : RevocationList String ℕ) (now : Time) : Event String ℕ :=
  .handshake [⟨"A", 5⟩] (holding crl) now

theorem orderlyA : Orderly [firstA, secondA] authorityA.key := by
  unfold Orderly
  simp only [forall_mem_cons, not_mem_nil, false_imp_iff, implies_true, and_true]
  refine ⟨⟨fun _ _ => ⟨1, 1, rfl, rfl, by decide⟩, fun _ _ => ⟨1, 2, rfl, rfl, by decide⟩⟩,
    fun _ _ => ⟨2, 1, rfl, rfl, by decide⟩, fun _ _ => ⟨2, 2, rfl, rfl, by decide⟩⟩

theorem refused_again : ∃ seen j answer,
    (gateway policy).Journal Unread
      (fun _ e => FromPublished policy [firstA, secondA] e.disk ∧
        Kept policy authorityA e.disk) seen
      ((knock secondA 20, answer) :: (knock firstA 5, .error (.revoked firstA ⟨"A", 5⟩)) :: j) ∧
      answer ≠ .ok () := by
  have hfirst : FromPublished policy [firstA, secondA] (holding firstA) ∧
      Kept policy authorityA (holding firstA) :=
    ⟨fromPublished_holding (by decide), kept_holding rfl rfl⟩
  have hsecond : FromPublished policy [firstA, secondA] (holding secondA) ∧
      Kept policy authorityA (holding secondA) :=
    ⟨fromPublished_holding (by decide), kept_holding rfl rfl⟩
  have hstart : (gateway policy).Journal Unread
      (fun _ e => FromPublished policy [firstA, secondA] e.disk ∧ Kept policy authorityA e.disk)
      (fun _ => none) [] := .start fun _ => rfl
  have hmeets : (gateway policy).Meets
      (fun _ e => FromPublished policy [firstA, secondA] e.disk ∧ Kept policy authorityA e.disk)
      (fun _ => none) [.boot (holding firstA) 0, knock firstA 5, knock secondA 20] :=
    ⟨hfirst, hfirst, hsecond, trivial⟩
  have hjournal := Machine.journal_feed hstart hmeets
  exact ⟨_, _, _, hjournal,
    (revocation_stands policy authorityA orderlyA hjournal).1 [_] _ _ firstA ⟨"A", 5⟩
      rfl rfl _ _ _ _
      List.mem_cons_self List.mem_cons_self⟩

/-- **A revocation is undone.** The operator is refused by the list of `A`; then the file is
replaced by the list that `B` has signed about its own certificates, and the operator is let in. In
a second run `B`'s list under the name of `A` decides about a certificate of `A`. -/
theorem revocation_undone :
    ((gateway policy).feed (fun _ => none) []
      [.boot (holding firstA) 0, knock firstA 5, knock ownB 20]).2.map Prod.snd =
      [.ok (), .error (.revoked firstA ⟨"A", 5⟩), .ok ()] ∧
    ((gateway policy).feed (fun _ => none) []
      [.boot (holding firstA) 0, knock firstA 5, knock strayB 20,
        .handshake [⟨"A", 7⟩] (holding strayB) 30]).2.map Prod.snd =
      [.error (.revoked strayB ⟨"A", 7⟩), .ok (), .error (.revoked firstA ⟨"A", 5⟩), .ok ()] ∧
    strayB.signer ≠ authorityA.key ∧ Orderly [firstA] authorityA.key ∧
    Orderly [ownB] authorityB.key ∧ Orderly [strayB] authorityB.key := by
  refine ⟨by decide, by decide, by decide, ?_, ?_, ?_⟩
  all_goals
    unfold Orderly
    simp only [List.forall_mem_singleton]
  · exact fun _ _ => ⟨1, 1, rfl, rfl, fun _ => List.Subset.refl _⟩
  · exact fun _ _ => ⟨1, 1, rfl, rfl, fun _ => List.Subset.refl _⟩
  · exact fun _ _ => ⟨2, 2, rfl, rfl, fun _ => List.Subset.refl _⟩

end Sample

end Vault42.ClientAuth
