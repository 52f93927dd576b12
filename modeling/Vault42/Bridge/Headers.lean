import Vault42.Bridge.Proxy

/-!
# Who writes the headers the vault trusts

The vault believes some headers because of who its peer is, and its peer is the bridge. This module
says what goes out under each of them: `outbound_stamped` for the three that the bridge stamps, and
`outbound_stripped` for those it deletes.

The stamps have to survive the tokens of `Connection`: the standard library deletes what they name
after the bridge has stamped its headers. What `stripConnectionTokens` keeps names none of the
stamped headers, although it trims and folds differently from the library that reads the tokens
afterwards (`stamped_not_named`).
-/

namespace Vault42.Bridge

open Go List Header
open Strconv (Bytes)

/-! ### The tokens of `Connection` -/

variable {t : Bytes}

theorem trimBytes_of_ends {p : UInt8 → Bool} (hhead : ∀ b, t.head? = some b → p b = false)
    (hlast : ∀ b, t.getLast? = some b → p b = false) : trimBytes p t = t := by
  have hleft : t.dropWhile p = t := by
    cases t with
    | nil => rfl
    | cons b => rw [dropWhile_cons_of_neg (by rw [hhead b rfl]; decide)]
  have hright : t.reverse.dropWhile p = t.reverse := by
    cases hr : t.reverse with
    | nil => rfl
    | cons b =>
      have hb : t.getLast? = some b := by rw [← head?_reverse, hr]; rfl
      rw [dropWhile_cons_of_neg (by rw [hlast b hb]; decide)]
  rw [trimBytes, hleft, hright, reverse_reverse]

/-- `TrimString` has nothing left to do on what `TrimSpace` trimmed. -/
theorem trimString_trimSpace (s : Bytes) : trimString (trimSpace s) = trimSpace s := by
  have hsub : ∀ b, asciiSpace b = false → (b == 32 || b == 9 || b == 10 || b == 13) = false := by
    intro b hb
    simp only [asciiSpace, Bool.or_eq_false_iff, beq_eq_false_iff_ne, ne_eq, Bool.and_eq_false_iff,
      decide_eq_false_iff_not, UInt8.le_iff_toNat_le, ← UInt8.toNat_inj, UInt8.reduceToNat] at hb ⊢
    lia
  exact trimBytes_of_ends (fun b h => hsub b (head_trimSpace h)) fun b h =>
    hsub b (getLast_trimSpace h)

theorem trimString_space (t : Bytes) : trimString (32 :: t) = trimString t := by
  rw [trimString, trimBytes, dropWhile_cons_of_pos rfl, trimString, trimBytes]

theorem joinSpaced_eq (t : Bytes) (ts : List Bytes) :
    joinSpaced (t :: ts) = joinComma (t :: ts.map (32 :: ·)) := by
  induction ts generalizing t with
  | nil => rfl
  | cons u ts ih =>
    have hspaced : joinSpaced (t :: u :: ts) = t ++ [comma, 32] ++ joinSpaced (u :: ts) := by
      simp [joinSpaced, intercalate, intersperse]
    have hcomma : ∀ v vs, joinComma (t :: v :: vs) = t ++ [comma] ++ joinComma (v :: vs) := by
      intro v vs
      simp [joinComma, intercalate]
    have hhead : joinComma ((32 :: u) :: ts.map (32 :: ·)) =
        32 :: joinComma (u :: ts.map (32 :: ·)) := by
      cases ts with
      | nil => rfl
      | cons => simp [joinComma, intercalate]
    rw [hspaced, ih, map_cons, hcomma, hhead]
    simp

theorem splitComma_joinSpaced {ts : List Bytes} (h : ∀ u ∈ t :: ts, comma ∉ u) :
    splitComma (joinSpaced (t :: ts)) = t :: ts.map (32 :: ·) := by
  rw [joinSpaced_eq]
  refine splitComma_join ?_ (cons_ne_nil _ _)
  intro u hu
  rcases mem_cons.mp hu with rfl | hu
  · exact h u (mem_cons_self ..)
  · obtain ⟨v, hv, rfl⟩ := mem_map.mp hu
    have hcomma := h v (mem_cons_of_mem t hv)
    exact fun hmem => (mem_cons.mp hmem).elim nofun hcomma

variable {unicode : Bytes → Bytes}

/-- What `stripConnectionTokens` keeps of a token. -/
theorem mem_keptTokens {protect values : List Bytes} (h : t ∈ keptTokens unicode protect values) :
    t ≠ [] ∧ toLower unicode t ∉ protect.map (toLower unicode) ∧ comma ∉ t ∧ trimString t = t := by
  obtain ⟨tok, htok, heq⟩ := mem_filterMap.mp h
  simp only at heq
  split at heq
  · cases heq
  · next hcond =>
    obtain rfl : trimSpace tok = t := Option.some.inj heq
    rw [not_or] at hcond
    refine ⟨hcond.1, hcond.2, fun hc => ?_, trimString_trimSpace tok⟩
    obtain ⟨v, _, hv⟩ := mem_flatMap.mp htok
    exact comma_notMem_splitComma hv (mem_of_mem_trimSpace hc)

/-- What is kept is read back by the standard library as it was kept. -/
theorem tokens_joinSpaced {protect values : List Bytes}
    (hne : keptTokens unicode protect values ≠ []) :
    ((splitComma (joinSpaced (keptTokens unicode protect values))).filterMap fun tok =>
      if trimString tok = [] then none else some (trimString tok)) =
          keptTokens unicode protect values := by
  have hkept := fun t (ht : t ∈ keptTokens unicode protect values) => mem_keptTokens ht
  generalize keptTokens unicode protect values = kept at hne hkept
  cases kept with
  | nil => exact absurd rfl hne
  | cons t ts =>
    rw [splitComma_joinSpaced fun u hu => (hkept u hu).2.2.1]
    have hself : ∀ u ∈ t :: ts, (if trimString u = [] then none else some (trimString u)) =
        some u := by
      intro u hu
      rw [(hkept u hu).2.2.2, if_neg (hkept u hu).1]
    have hspaced : (ts.map (32 :: ·)).filterMap (fun tok =>
        if trimString tok = [] then none else some (trimString tok)) = ts.filterMap some := by
      rw [filterMap_map]
      refine filterMap_congr fun u hu => ?_
      show (if trimString (32 :: u) = [] then none else some (trimString (32 :: u))) = some u
      rw [trimString_space]
      exact hself u (mem_cons_of_mem t hu)
    rw [filterMap_cons, hself t (mem_cons_self ..), hspaced, filterMap_some]

/-! ### Names -/

theorem map_lower_capitalise (upper : Bool) (s : Bytes) :
    (capitalise upper s).map lowerByte = s.map lowerByte := by
  induction s generalizing upper with
  | nil => rfl
  | cons b s ih =>
    rw [capitalise, map_cons, ih, map_cons]
    congr 1
    rw [← UInt8.toNat_inj, toNat_lowerByte, toNat_lowerByte]
    split
    · next h =>
      simp only [Bool.and_eq_true, decide_eq_true_eq, UInt8.le_iff_toNat_le, UInt8.reduceToNat] at h
      rw [UInt8.toNat_sub_of_le _ _ (by rw [UInt8.le_iff_toNat_le, toNat_32]; lia), toNat_32]
      lia
    · split
      · next h =>
        simp only [Bool.and_eq_true, decide_eq_true_eq, UInt8.le_iff_toNat_le,
          UInt8.reduceToNat] at h
        rw [UInt8.toNat_add, toNat_32, Nat.mod_eq_of_lt (by lia)]
        lia
      · rfl

theorem tokenByte_ascii {b : UInt8} (h : tokenByte b) : b < 128 := by
  have hchars : ∀ c ∈ text "!#$%&'*+-.^_|~", c < 128 := by decide +kernel
  simp only [tokenByte, Bool.or_eq_true, Bool.and_eq_true, decide_eq_true_eq, contains_iff_mem,
    beq_iff_eq, UInt8.le_iff_toNat_le, UInt8.reduceToNat] at h
  have hlt : b.toNat < 128 → b < 128 := fun hb => UInt8.lt_iff_toNat_lt.mpr hb
  rcases h with (((h | h) | h) | h) | rfl
  · exact hlt (by lia)
  · exact hlt (by lia)
  · exact hlt (by lia)
  · exact hchars b h
  · decide

/-- A token that canonicalises to a name of token bytes folds to it. -/
theorem toLower_of_canonicalKey {n : Bytes} (hn : (canonicalKey n).all tokenByte)
    (hascii : n.all (· < 128)) (h : canonicalKey t = canonicalKey n) :
    toLower unicode t = toLower unicode n := by
  have hfold : ∀ s, (canonicalKey s).map lowerByte = s.map lowerByte := by
    intro s
    unfold canonicalKey
    split
    · exact map_lower_capitalise true s
    · rfl
  have ht : t.all tokenByte := by
    by_contra htok
    rw [canonicalKey, if_neg htok] at h
    exact htok (h ▸ hn)
  have htascii : t.all (· < 128) := by
    rw [all_eq_true] at ht ⊢
    exact fun b hb => decide_eq_true (tokenByte_ascii (ht b hb))
  rw [toLower, if_pos htascii, toLower, if_pos hascii, ← hfold t, h, hfold n]

/-! ### The headers that go out -/

section Outbound

variable {unicode : Bytes → Bytes} {cfg : Config} {r : Request} {ip : Bytes}

variable (cfg) in
def strippedNames : List Bytes :=
  defaultStrippedHeaders ++ (if cfg.realIPHeader ≠ [] then [cfg.realIPHeader] else []) ++
    cfg.stripHeaders

/-- The key of a name that the bridge stamps. -/
def stampedKeys : List Bytes := stamped.map canonicalKey

variable {k : Bytes} {h : Header}

theorem stripHeaders_apply :
    stripHeaders cfg h k = if k ∈ (strippedNames cfg).map canonicalKey then none else h k := by
  unfold stripHeaders strippedNames
  rw [foldl_del_apply, map_append, map_append]
  by_cases hlast : k ∈ cfg.stripHeaders.map canonicalKey
  · rw [if_pos hlast, if_pos (mem_append_right _ hlast)]
  · rw [if_neg hlast]
    by_cases hreal : cfg.realIPHeader ≠ []
    · rw [if_pos hreal, if_pos hreal, del_apply, foldl_del_apply]
      by_cases hk : k = canonicalKey cfg.realIPHeader
      · rw [if_pos hk, if_pos]
        exact mem_append_left _ (mem_append_right _ (by simp [hk]))
      · rw [if_neg hk]
        by_cases hdef : k ∈ defaultStrippedHeaders.map canonicalKey
        · rw [if_pos hdef, if_pos (mem_append_left _ (mem_append_left _ hdef))]
        · rw [if_neg hdef, if_neg]
          simp only [mem_append, map_cons, map_nil, mem_singleton]
          tauto
    · rw [if_neg hreal, if_neg hreal, foldl_del_apply]
      by_cases hdef : k ∈ defaultStrippedHeaders.map canonicalKey
      · rw [if_pos hdef, if_pos (mem_append_left _ (mem_append_left _ hdef))]
      · rw [if_neg hdef, if_neg]
        simp only [mem_append, map_nil, not_mem_nil]
        tauto

theorem stripConnectionTokens_apply {protect : List Bytes}
    (hk : k ≠ canonicalKey (text "Connection")) :
    stripConnectionTokens unicode h protect k = h k := by
  unfold stripConnectionTokens
  split
  · rfl
  · simp only
    split
    · rw [Header.set_apply, if_neg hk, del_apply, if_neg hk]
    · rw [del_apply, if_neg hk]

variable (cfg r) in
/-- The forwarded list that the bridge extends: the first line of the client's, unless the
configuration strips the header. -/
def priorLine : Bytes :=
  if canonicalKey (text "X-Forwarded-For") ∈ (strippedNames cfg).map canonicalKey then []
  else r.header.get (text "X-Forwarded-For")

/-- What `setProxyHeaders` leaves under the keys it stamps. -/
theorem setProxyHeaders_stamped (unicode : Bytes → Bytes) (cfg : Config) (r : Request)
    (ip : Bytes) :
    (setProxyHeaders unicode cfg r ip).header (canonicalKey (text "X-Real-IP")) = some [ip] ∧
    (setProxyHeaders unicode cfg r ip).header (canonicalKey (text "X-Forwarded-Proto")) =
      some [text "https"] ∧
    (setProxyHeaders unicode cfg r ip).header (canonicalKey (text "X-Forwarded-For")) =
      some [forwardedFor cfg r.remoteAddr (priorLine cfg r) ip] := by
  have hreal : canonicalKey (text "X-Real-IP") ≠ canonicalKey (text "X-Forwarded-For") := by decide
  have hproto : canonicalKey (text "X-Real-IP") ≠ canonicalKey (text "X-Forwarded-Proto") := by
    decide
  have hfor : canonicalKey (text "X-Forwarded-Proto") ≠ canonicalKey (text "X-Forwarded-For") := by
    decide
  have hconn : canonicalKey (text "X-Forwarded-For") ≠ canonicalKey (text "Connection") := by decide
  refine ⟨?_, ?_, ?_⟩
  · simp only [setProxyHeaders, Header.set_apply, if_neg hreal, if_neg hproto, if_true]
  · simp only [setProxyHeaders, Header.set_apply, if_neg hfor, if_true]
  · simp only [setProxyHeaders, Header.set_apply, if_true, Option.some.injEq, cons.injEq, and_true]
    congr 1
    simp only [Header.get, Header.values, Header.set_apply, if_neg hreal.symm, if_neg hfor.symm,
      stripHeaders_apply, stripConnectionTokens_apply hconn, priorLine]
    split
    · rfl
    · rfl

/-- Under every other key it leaves what was not stripped. -/
theorem setProxyHeaders_other (hk : k ∉ stampedKeys) :
    (setProxyHeaders unicode cfg r ip).header k =
      if k ∈ (strippedNames cfg).map canonicalKey then none
      else stripConnectionTokens unicode r.header stamped k := by
  simp only [stampedKeys, stamped, map_cons, map_nil, mem_cons, not_mem_nil, or_false,
    not_or] at hk
  obtain ⟨hreal, hproto, hfor⟩ := hk
  simp only [setProxyHeaders, Header.set_apply, if_neg hreal, if_neg hproto, if_neg hfor,
    stripHeaders_apply]

/-- The library finds no token that folds to the name of a stamped header. -/
theorem connectionTokens_kept
    (ht : t ∈ connectionTokens (setProxyHeaders unicode cfg r ip).header) :
    toLower unicode t ∉ stamped.map (toLower unicode) := by
  have hconn : text "Connection" ∉ stampedKeys := by decide
  have hkey : canonicalKey (text "Connection") = text "Connection" := by decide
  rw [connectionTokens, setProxyHeaders_other hconn] at ht
  split at ht
  · cases ht
  · -- what is under the key is what `stripConnectionTokens` wrote there
    unfold stripConnectionTokens at ht
    split at ht
    · next hvalues =>
      rw [Header.values, hkey] at hvalues
      rw [hvalues] at ht
      cases ht
    · simp only at ht
      split at ht
      · next hkept =>
        rw [Header.set_apply, hkey, if_pos rfl, Option.getD_some, flatMap_singleton,
          tokens_joinSpaced hkept] at ht
        exact (mem_keptTokens ht).2.1
      · rw [del_apply, hkey, if_pos rfl] at ht
        cases ht

/-- No stamped header is declared hop-by-hop. -/
theorem stamped_not_named (unicode : Bytes → Bytes) (cfg : Config) (r : Request)
    (ip : Bytes) {n : Bytes} (hn : n ∈ stamped) :
    canonicalKey n ∉ connectionNamed (setProxyHeaders unicode cfg r ip).header := by
  intro hnamed
  obtain ⟨t, ht, heq⟩ := mem_map.mp hnamed
  have htoken : ∀ n ∈ stamped, (canonicalKey n).all tokenByte := by decide
  have hascii : ∀ n ∈ stamped, n.all (· < 128) := by decide
  have hfold : toLower unicode t = toLower unicode n :=
    toLower_of_canonicalKey (htoken n hn) (hascii n hn) heq
  exact connectionTokens_kept ht (hfold ▸ mem_map_of_mem hn)

theorem removeHopByHopHeaders_apply :
    removeHopByHopHeaders h k =
      if k ∈ hopHeaders.map canonicalKey ∨ k ∈ connectionNamed h then none else h k := by
  rw [removeHopByHopHeaders, foldl_del_apply, foldl_del_apply, ← connectionNamed]
  by_cases hhop : k ∈ hopHeaders.map canonicalKey
  · rw [if_pos hhop, if_pos (.inl hhop)]
  · rw [if_neg hhop]
    by_cases hnamed : k ∈ connectionNamed h
    · rw [if_pos hnamed, if_pos (.inr hnamed)]
    · rw [if_neg hnamed, if_neg fun h => h.elim hhop hnamed]

/-- A header that is not there is not there after the library has cloned the request. -/
theorem cloneHeaders_none (hk : h k = none) : cloneHeaders h k = none := by
  have hconn : canonicalKey (text "Connection") = text "Connection" := by decide
  have hupg : canonicalKey (text "Upgrade") = text "Upgrade" := by decide
  have hte : canonicalKey (text "Te") = text "Te" := by decide
  have hremoved : removeHopByHopHeaders h k = none := by
    rw [removeHopByHopHeaders_apply]
    split
    · rfl
    · exact hk
  have htrailers : (if containsToken ((h (text "Te")).getD []) (text "trailers") then
      (removeHopByHopHeaders h).set (text "Te") (text "trailers") else removeHopByHopHeaders h) k =
          none := by
    split
    · next htok =>
      rw [Header.set_apply, hte]
      split
      · next heq =>
        rw [heq] at hk
        rw [hk] at htok
        cases htok
      · exact hremoved
    · exact hremoved
  rw [cloneHeaders, foldl_del_apply]
  split
  · rfl
  · split
    · next hne =>
      -- an upgrade is asked for by both headers, so neither of them is the one that is not there
      have hkconn : k ≠ text "Connection" := by
        rintro rfl
        rw [upgradeType, hk] at hne
        exact hne rfl
      have hkupg : k ≠ text "Upgrade" := by
        rintro rfl
        refine hne ?_
        rw [upgradeType]
        split
        · rw [Header.get, Header.values, hupg, hk]
          rfl
        · rfl
      rw [Header.set_apply, hupg, if_neg hkupg, Header.set_apply, hconn, if_neg hkconn]
      exact htrailers
    · exact htrailers

/-- A header the library has no reason to touch comes through. -/
theorem cloneHeaders_keep (hhop : k ∉ hopHeaders.map canonicalKey) (hnamed : k ∉ connectionNamed h)
    (hforward : k ∉ forwardingHeaders.map canonicalKey) : cloneHeaders h k = h k := by
  have hne : ∀ n ∈ hopHeaders, k ≠ canonicalKey n := fun n hn heq => hhop (heq ▸ mem_map_of_mem hn)
  have hremoved : removeHopByHopHeaders h k = h k := by
    rw [removeHopByHopHeaders_apply, if_neg fun h => h.elim hhop hnamed]
  have htrailers : (if containsToken ((h (text "Te")).getD []) (text "trailers") then
      (removeHopByHopHeaders h).set (text "Te") (text "trailers") else removeHopByHopHeaders h) k =
          h k := by
    split
    · rw [Header.set_apply, if_neg (hne _ (by decide)), hremoved]
    · exact hremoved
  rw [cloneHeaders, foldl_del_apply, if_neg hforward]
  split
  · rw [Header.set_apply, if_neg (hne _ (by decide)), Header.set_apply, if_neg (hne _ (by decide))]
    exact htrailers
  · exact htrailers

theorem appendPeer_other {remoteAddr : Bytes} (hk : k ≠ canonicalKey (text "X-Forwarded-For")) :
    appendPeer remoteAddr h k = h k := by
  cases hpeer : splitHostPort remoteAddr with
  | none => simp only [appendPeer, hpeer]
  | some =>
    cases hfor : h (text "X-Forwarded-For") with
    | none => simp only [appendPeer, hpeer, hfor, Header.set_apply, if_neg hk]
    | some lines =>
      cases lines with
      | nil => simp only [appendPeer, hpeer, hfor]
      | cons => simp only [appendPeer, hpeer, hfor, Header.set_apply, if_neg hk]

/-- The forwarded list as it is sent. -/
def sentFor (remoteAddr line : Bytes) : Bytes :=
  match splitHostPort remoteAddr with
  | none => line
  | some (host, _) => joinSpaced [line, host]

/-- A line that the bridge sent goes out with the peer appended. -/
theorem appendPeer_line {remoteAddr line : Bytes}
    (hfor : h (canonicalKey (text "X-Forwarded-For")) = some [line]) :
    appendPeer remoteAddr h (canonicalKey (text "X-Forwarded-For")) =
      some [sentFor remoteAddr line] := by
  have hkey : canonicalKey (text "X-Forwarded-For") = text "X-Forwarded-For" := by decide
  rw [hkey] at hfor
  cases hpeer : splitHostPort remoteAddr with
  | none =>
    rw [hkey]
    simp only [appendPeer, sentFor, hpeer, hfor]
  | some =>
    simp only [appendPeer, sentFor, hpeer, hfor, Header.set_apply, if_true, cons_append,
      nil_append]

/-- The agent that the library puts in is on a key of its own. -/
theorem reverseProxy_apply {inbound : Request} (hk : k ≠ canonicalKey (text "User-Agent")) :
    (reverseProxy inbound).header k =
      rewriteToUpstream inbound (cloneHeaders inbound.header) k := by
  simp only [reverseProxy]
  split
  · rfl
  · rw [Header.set_apply, if_neg hk]

theorem outbound_stamped (unicode : Bytes → Bytes) (cfg : Config) (r : Request) :
    (outbound unicode cfg r).header (canonicalKey (text "X-Real-IP")) = some [clientIP cfg r] ∧
    (outbound unicode cfg r).header (canonicalKey (text "X-Forwarded-Proto")) =
      some [text "https"] ∧
    (outbound unicode cfg r).header (canonicalKey (text "X-Forwarded-For")) =
      some [sentFor r.remoteAddr
        (forwardedFor cfg r.remoteAddr (priorLine cfg r) (clientIP cfg r))] := by
  obtain ⟨hreal, hproto, hfor⟩ := setProxyHeaders_stamped unicode cfg r (clientIP cfg r)
  have hnamed := fun {n} (hn : n ∈ stamped) => stamped_not_named unicode cfg r (clientIP cfg r) hn
  refine ⟨?_, ?_, ?_⟩
  · rw [outbound, reverseProxy_apply (by decide), rewriteToUpstream, appendPeer_other (by decide),
      copyForwarding, if_neg fun h => absurd h.1 (by decide),
      cloneHeaders_keep (by decide) (hnamed (by decide)) (by decide), hreal]
  · rw [outbound, reverseProxy_apply (by decide), rewriteToUpstream, appendPeer_other (by decide),
      copyForwarding, if_pos ⟨by decide, by rw [hproto]; rfl, hnamed (by decide)⟩, hproto]
  · rw [outbound, reverseProxy_apply (by decide), rewriteToUpstream]
    refine appendPeer_line ?_
    rw [copyForwarding, if_pos ⟨by decide, by rw [hfor]; rfl, hnamed (by decide)⟩, hfor]

/-- What goes out under the other keys the vault trusts: nothing, or an empty agent. -/
theorem outbound_stripped (hk : k ∉ stampedKeys)
    (hstrip : k ∈ (strippedNames cfg).map canonicalKey) :
    (outbound unicode cfg r).header k =
      if k = canonicalKey (text "User-Agent") then some [[]] else none := by
  have hin : (setProxyHeaders unicode cfg r (clientIP cfg r)).header k = none := by
    rw [setProxyHeaders_other hk, if_pos hstrip]
  have hfor : k ≠ canonicalKey (text "X-Forwarded-For") := fun h => hk (h ▸ by decide)
  have hout : rewriteToUpstream (setProxyHeaders unicode cfg r (clientIP cfg r))
      (cloneHeaders (setProxyHeaders unicode cfg r (clientIP cfg r)).header) k = none := by
    rw [rewriteToUpstream, appendPeer_other hfor, copyForwarding,
      if_neg fun h => by simp [hin] at h, cloneHeaders_none hin]
  split
  · next hagent =>
    have hkey : canonicalKey (text "User-Agent") = text "User-Agent" := by decide
    rw [hagent, hkey] at hout
    simp only [outbound, reverseProxy, hout, Option.isSome_none, Bool.false_eq_true,
      if_false, hagent, Header.set_apply, if_true]
  · next hagent => rw [outbound, reverseProxy_apply hagent, hout]

end Outbound

end Vault42.Bridge
