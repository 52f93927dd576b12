import Vault42.Go.Header

/-!
# The address of a client

`ClientIP` of `internal/middleware/ratelimit.go`. The headers are read only when the peer is a
trusted proxy; then the forwarded list is walked from the right, over at most `maxXFFHops` elements,
to the first address that is not a trusted proxy. An element that is no address is skipped.

Proxies append on the right, so a client decides about what is left of their part. The walk does not
get there when one of the addresses the proxies appended is not a trusted proxy
(`rightmost_of_append`); when they are all trusted it does, and the client's own text is the answer
(`Sample.client_chooses`).
-/

namespace Vault42.Middleware

open Go

variable {a : Bytes} {appended : List Bytes}

open Strconv (Bytes)

/-- The trusted networks and the name of the real-IP header, empty when there is none. -/
structure ProxyConfig where
  trusted : List IPNet
  realIPHeader : Bytes

def maxXFFHops : ℕ := 32

/-- `normalizeIP`; the empty text is no address. -/
def normalizeIP (v : Bytes) : Bytes :=
  let v := trimSpace v
  if v = [] then []
  else
    let v := ((splitHostPort v).map fun p => trimSpace p.1).getD v
    ((parseIP (trimByteRight 93 (trimByteLeft 91 v))).map IP.string).getD []

def isTrustedProxy (trusted : List IPNet) (ip : Bytes) : Bool :=
  match parseIP ip with
  | none => false
  | some ip => trusted.any fun cidr => cidr.contains ip

def stripPort (addr : Bytes) : Bytes := ((splitHostPort addr).map Prod.fst).getD addr

/-- The last elements of a list, as many as the walk looks at. -/
def lastHops (parts : List Bytes) : List Bytes :=
  if maxXFFHops < parts.length then parts.drop (parts.length - maxXFFHops) else parts

def lastRealIP (value : Bytes) : Bytes :=
  match (lastHops (splitComma value)).reverse.find? fun p => trimSpace p ≠ [] with
  | some part => normalizeIP part
  | none => []

/-- The loop of `ClientIP`, over the elements from the right. -/
def rightmost (trusted : List IPNet) : List Bytes → Option Bytes
  | [] => none
  | part :: parts =>
    let ip := normalizeIP part
    if ip = [] then rightmost trusted parts
    else if !isTrustedProxy trusted ip then some ip
    else rightmost trusted parts

/-- What the forwarded list says, for a peer that may say it. -/
def forwardedIP (trusted : List IPNet) (remoteIP xff : Bytes) : Bytes :=
  if xff = [] then remoteIP
  else
    let parts := splitComma xff
    match rightmost trusted (lastHops parts).reverse with
    | some ip => ip
    | none =>
      -- every element is a trusted proxy or no address
      if maxXFFHops < parts.length then remoteIP
      else
        let first := normalizeIP (parts.headD [])
        if first ≠ [] then first else remoteIP

def clientIP (cfg : ProxyConfig) (r : Request) : Bytes :=
  let remoteIP := stripPort r.remoteAddr
  if cfg.trusted = [] then remoteIP
  else if !isTrustedProxy cfg.trusted remoteIP then remoteIP
  else
    let real :=
      if cfg.realIPHeader = [] then []
      else
        match (r.header.values cfg.realIPHeader).getLast? with
        | some value => lastRealIP value
        | none => []
    if real ≠ [] then real
    else forwardedIP cfg.trusted remoteIP (joinComma (r.header.values (text "X-Forwarded-For")))

/-! ### The walk over what proxies appended -/

section Walk

variable {trusted : List IPNet}

/-- An address that is not a trusted proxy ends the walk. -/
theorem rightmost_append (newer older : List Bytes) :
    rightmost trusted (newer ++ older) =
      (rightmost trusted newer).or (rightmost trusted older) := by
  induction newer with
  | nil => rfl
  | cons part newer ih =>
    rw [List.cons_append, rightmost, rightmost]
    by_cases hip : normalizeIP part = []
    · rw [if_pos hip, if_pos hip, ih]
    · rw [if_neg hip, if_neg hip]
      by_cases ht : (!isTrustedProxy trusted (normalizeIP part))
      · rw [if_pos ht, if_pos ht, Option.some_or]
      · rw [if_neg ht, if_neg ht, ih]

/-- The walk ends inside a list that holds an address which is not a trusted proxy. -/
theorem rightmost_isSome (trusted : List IPNet) {parts : List Bytes} (ha : a ∈ parts)
    (hip : normalizeIP a ≠ [])
    (ht : isTrustedProxy trusted (normalizeIP a) = false) : (rightmost trusted parts).isSome := by
  induction parts with
  | nil => cases ha
  | cons part parts ih =>
    rw [rightmost]
    rcases List.mem_cons.mp ha with rfl | ha
    · rw [if_neg hip, ht, Bool.not_false, if_pos rfl]
      rfl
    · split
      · exact ih ha
      · split
        · rfl
        · exact ih ha

theorem lastHops_append (lead : List Bytes) (h : appended.length ≤ maxXFFHops) :
    ∃ lead', lastHops (lead ++ appended) = lead' ++ appended := by
  unfold lastHops
  split
  · refine ⟨lead.drop ((lead ++ appended).length - maxXFFHops), ?_⟩
    rw [List.drop_append_of_le_length]
    rw [List.length_append]
    lia
  · exact ⟨lead, rfl⟩

/-- Whatever stands before what the proxies appended, the walk ends where it ends without it. -/
theorem rightmost_of_append (lead : List Bytes) (h : appended.length ≤ maxXFFHops)
    (ha : a ∈ appended) (hip : normalizeIP a ≠ [])
    (ht : isTrustedProxy trusted (normalizeIP a) = false) :
    rightmost trusted (lastHops (lead ++ appended)).reverse =
      rightmost trusted appended.reverse := by
  obtain ⟨lead', hlast⟩ := lastHops_append lead h
  have hsome := rightmost_isSome trusted (List.mem_reverse.mpr ha) hip ht
  obtain ⟨ip, hsome⟩ := Option.isSome_iff_exists.mp hsome
  rw [hlast, List.reverse_append, rightmost_append, hsome, Option.some_or]

end Walk

/-- The forwarded list of a request, over its lines, is any text of the client's followed by what
the proxies appended. -/
def Carries (r : Request) (appended : List Bytes) : Prop :=
  joinComma (r.header.values (text "X-Forwarded-For")) = joinComma appended ∨
    ∃ lead, joinComma (r.header.values (text "X-Forwarded-For")) =
      lead ++ comma :: joinComma appended

theorem Carries.parts {r : Request} (h : Carries r appended)
    (hcomma : ∀ a ∈ appended, comma ∉ a) (hne : appended ≠ []) :
    ∃ lead, splitComma (joinComma (r.header.values (text "X-Forwarded-For"))) =
      lead ++ appended := by
  rcases h with h | ⟨lead, h⟩
  · exact ⟨[], by rw [h, splitComma_join hcomma hne, List.nil_append]⟩
  · exact ⟨splitComma lead, by rw [h, splitComma_append, splitComma_join hcomma hne]⟩

theorem isTrustedProxy_nil (ip : Bytes) : isTrustedProxy [] ip = false := by
  unfold isTrustedProxy
  split
  · rfl
  · rfl

/-- The address of a request is what the walk finds among the appended addresses. -/
theorem clientIP_eq_rightmost {cfg : ProxyConfig} {r : Request}
    (hreal : cfg.realIPHeader = []) (hpeer : isTrustedProxy cfg.trusted (stripPort r.remoteAddr))
    (hlen : appended.length ≤ maxXFFHops) (hcomma : ∀ b ∈ appended, comma ∉ b) (ha : a ∈ appended)
    (hip : normalizeIP a ≠ []) (hunt : isTrustedProxy cfg.trusted (normalizeIP a) = false)
    (hcarries : Carries r appended) :
    some (clientIP cfg r) = rightmost cfg.trusted appended.reverse := by
  have hcfg : cfg.trusted ≠ [] := by
    intro hnil
    rw [hnil, isTrustedProxy_nil] at hpeer
    cases hpeer
  obtain ⟨lead, hparts⟩ := hcarries.parts hcomma (List.ne_nil_of_mem ha)
  have hxff : joinComma (r.header.values (text "X-Forwarded-For")) ≠ [] := by
    -- an empty list has one element, the empty one, and that is no address
    intro hnil
    rw [hnil] at hparts
    have hmem : a ∈ splitComma [] := hparts ▸ List.mem_append_right lead ha
    obtain rfl : a = [] := List.mem_singleton.mp hmem
    exact hip rfl
  have hwalk := rightmost_of_append lead hlen ha hip hunt
  obtain ⟨ip, hsome⟩ :=
    Option.isSome_iff_exists.mp (rightmost_isSome cfg.trusted (List.mem_reverse.mpr ha) hip hunt)
  rw [hsome] at hwalk ⊢
  simp only [clientIP, if_neg hcfg, hpeer, Bool.not_true, Bool.false_eq_true, if_false,
    hreal, if_true, ne_eq, not_true_eq_false, forwardedIP, if_neg hxff, hparts, hwalk]

/-- **A client does not choose its address.** Without a real-IP header, two requests from one
trusted peer whose forwarded lists end in the same addresses appended by the proxies, fewer of them
than the walk looks at and one of them not a trusted proxy, have the same address. A request from a
peer that is not trusted has the peer's, whatever its headers and the configuration. -/
theorem clientIP_not_chosen (cfg : ProxyConfig) :
    (cfg.realIPHeader = [] → ∀ r r' appended,
      r.remoteAddr = r'.remoteAddr →
      isTrustedProxy cfg.trusted (stripPort r.remoteAddr) →
      appended ≠ [] → appended.length < maxXFFHops →
      (∀ a ∈ appended, comma ∉ a ∧ normalizeIP a ≠ []) →
      (∃ a ∈ appended, isTrustedProxy cfg.trusted (normalizeIP a) = false) →
      Carries r appended → Carries r' appended → clientIP cfg r = clientIP cfg r') ∧
    ∀ r, isTrustedProxy cfg.trusted (stripPort r.remoteAddr) = false →
      clientIP cfg r = stripPort r.remoteAddr := by
  constructor
  · intro hreal r r' appended hpeer htrusted _ hlen hvalid ⟨a, ha, hunt⟩ hr hr'
    have hcomma : ∀ b ∈ appended, comma ∉ b := fun b hb => (hvalid b hb).1
    have hleft := clientIP_eq_rightmost hreal htrusted hlen.le hcomma ha (hvalid a ha).2 hunt hr
    rw [hpeer] at htrusted
    have hright := clientIP_eq_rightmost hreal htrusted hlen.le hcomma ha (hvalid a ha).2 hunt hr'
    exact Option.some.inj (hleft.trans hright.symm)
  · intro r hr
    unfold clientIP
    by_cases hcfg : cfg.trusted = []
    · rw [if_pos hcfg]
    · rw [if_neg hcfg, hr, Bool.not_false, if_pos rfl]

namespace Sample

/-- Trusts `10.0.0.0/8`. -/
def inside : ProxyConfig := ⟨[⟨[10, 0, 0, 0], [255, 0, 0, 0]⟩], []⟩

/-- A request of the proxy `10.0.0.9` with the given forwarded lines. -/
def forwarded (lines : List String) : Request where
  remoteAddr := text "10.0.0.9:443"
  header := Header.ofLines (lines.map fun l => (text "x-forwarded-for", text l))

/-- Both requests end in the address that the outer proxy saw, and have it; the proxy's own address
on the right is skipped. -/
theorem same_address :
    clientIP inside (forwarded ["6.6.6.6", "203.0.113.7, 10.0.0.1"]) =
      clientIP inside (forwarded ["7.7.7.7, nonsense,203.0.113.7, 10.0.0.1"]) := by
  refine (clientIP_not_chosen inside).1 rfl _ _ [text "203.0.113.7", text " 10.0.0.1"] rfl
    ?_ ?_ ?_ ?_ ?_
    (.inr ⟨text "6.6.6.6", ?_⟩) (.inr ⟨text "7.7.7.7, nonsense", ?_⟩)
  all_goals decide +kernel

/-- When the proxies appended trusted addresses only, what the client wrote before them is its
address. -/
theorem client_chooses :
    isTrustedProxy inside.trusted (stripPort (text "10.0.0.9:443")) ∧
      Carries (forwarded ["6.6.6.6", "10.0.0.1"]) [text "10.0.0.1"] ∧
      Carries (forwarded ["7.7.7.7", "10.0.0.1"]) [text "10.0.0.1"] ∧
      normalizeIP (text "10.0.0.1") ≠ [] ∧
      clientIP inside (forwarded ["6.6.6.6", "10.0.0.1"]) = text "6.6.6.6" ∧
      clientIP inside (forwarded ["7.7.7.7", "10.0.0.1"]) = text "7.7.7.7" := by
  refine ⟨by decide +kernel, .inr ⟨text "6.6.6.6", by decide +kernel⟩,
    .inr ⟨text "7.7.7.7", by decide +kernel⟩, by decide +kernel, by decide +kernel,
    by decide +kernel⟩

end Sample

end Vault42.Middleware
