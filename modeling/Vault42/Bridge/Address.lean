import Vault42.Bridge.Headers

/-!
# The address a request goes by

The bridge works out the address of a request twice: when it comes in, to score and route it, and
when the answer to a login comes back, from the request that went out. The second reading starts
from the headers the bridge wrote, so it mostly repeats the first: a walk from the right skips the
peer and meets the address that was stamped (`walk_sentFor`).

It does not when the first reading found nothing and fell back to the peer. The peer is trusted
then, so the walk goes on into the list that the bridge extended. `clientIP` reads every line of
that list, and `setProxyHeaders` extends the first line only, so what the second reading finds there
may be an address the first one did not get to (`Sample.charged_elsewhere`). `FirstLineAgrees` is
exactly when it is not.
-/

namespace Vault42.Bridge

open Go List Header

variable {part v : Bytes}

open Strconv (Bytes)

variable {unicode : Bytes → Bytes} {cfg : Config} {r : Request}

/-! ### The walk -/

variable {ip : Bytes}

theorem parseIP_of_trusted (h : isTrustedProxy cfg ip) : (parseIP ip).isSome := by
  unfold isTrustedProxy at h
  split at h
  · cases h
  · split at h
    · cases h
    · next hip => rw [hip]; rfl

theorem trimSpace_of_parseIP (h : (parseIP ip).isSome) :
    trimSpace ip = ip ∧ trimSpace (32 :: ip) = ip ∧ comma ∉ ip := by
  obtain ⟨a, ha⟩ := Option.isSome_iff_exists.mp h
  have hbytes := parseIP_bytes ha
  exact ⟨trimSpace_address hbytes, by rw [trimSpace_space, trimSpace_address hbytes],
    comma_notMem_address hbytes⟩

variable {parts : List Bytes}

theorem walk_trusted (h : isTrustedProxy cfg (trimSpace part)) :
    walk cfg (part :: parts) = walk cfg parts := by
  rw [walk, if_pos h]

theorem walk_untrusted (h : isTrustedProxy cfg (trimSpace part) = false)
    (hip : (parseIP (trimSpace part)).isSome) : walk cfg (part :: parts) = trimSpace part := by
  rw [walk, h, if_neg Bool.false_ne_true, if_pos hip]

theorem walk_unparsed (h : parseIP (trimSpace part) = none) : walk cfg (part :: parts) = [] := by
  have ht : ¬ isTrustedProxy cfg (trimSpace part) := fun ht => by
    simpa [h] using parseIP_of_trusted ht
  rw [walk, if_neg ht, if_neg (by simp [h])]

/-- What the walk finds is an address that is not a trusted proxy. -/
theorem walk_found (h : walk cfg parts ≠ []) :
    isTrustedProxy cfg (walk cfg parts) = false ∧ (parseIP (walk cfg parts)).isSome := by
  induction parts with
  | nil => exact absurd rfl h
  | cons part parts ih =>
    by_cases ht : isTrustedProxy cfg (trimSpace part)
    · rw [walk_trusted ht] at h ⊢
      exact ih h
    · by_cases hip : (parseIP (trimSpace part)).isSome
      · rw [walk_untrusted (Bool.eq_false_iff.mpr ht) hip]
        exact ⟨Bool.eq_false_iff.mpr ht, hip⟩
      · exact absurd (by rw [walk, if_neg ht, if_neg hip]) h

/-- A walk that finds nothing finds nothing when it is cut short. -/
theorem walk_take (h : walk cfg parts = []) (n : ℕ) : walk cfg (parts.take n) = [] := by
  induction parts generalizing n with
  | nil => rw [take_nil, h]
  | cons part parts ih =>
    cases n with
    | zero => rfl
    | succ n =>
      rw [take_succ_cons]
      by_cases ht : isTrustedProxy cfg (trimSpace part)
      · rw [walk_trusted ht] at h ⊢
        exact ih h n
      · rw [walk, if_neg ht] at h ⊢
        split at h
        · next hip => rw [if_pos hip]; exact h
        · next hip => rw [if_neg hip]

theorem rightmostUntrusted_single (h : comma ∉ v) : rightmostUntrusted cfg v = walk cfg [v] := by
  rw [rightmostUntrusted, splitComma_single h]
  rfl

theorem rightmostUntrusted_nil : rightmostUntrusted cfg [] = [] := by
  rw [rightmostUntrusted_single not_mem_nil, walk_unparsed (by decide)]

theorem splitComma_spaced {line : Bytes} (h : comma ∉ v) :
    (splitComma (joinSpaced [line, v])).reverse = (32 :: v) :: (splitComma line).reverse := by
  have hjoin : joinSpaced [line, v] = line ++ comma :: 32 :: v := by
    simp [joinSpaced, intercalate]
  have hspace : comma ∉ 32 :: v := fun hmem =>
    (mem_cons.mp hmem).elim (by decide) h
  rw [hjoin, splitComma_append, splitComma_single hspace, reverse_append]
  rfl

theorem rightmostUntrusted_spaced {line : Bytes} (h : comma ∉ v) :
    rightmostUntrusted cfg (joinSpaced [line, v]) =
      walk cfg ((32 :: v) :: (splitComma line).reverse.take (maxXFFHops - 1)) := by
  rw [rightmostUntrusted, splitComma_spaced h]
  rfl

/-- The elements of the list that the bridge extends, from the right. -/
def priorParts (prior : Bytes) : List Bytes := if prior = [] then [] else (splitComma prior).reverse

theorem walk_priorParts (prior : Bytes) :
    walk cfg ((priorParts prior).take maxXFFHops) = rightmostUntrusted cfg prior := by
  unfold priorParts
  split
  · next h =>
    rw [h, rightmostUntrusted_nil]
    rfl
  · rfl

/-! ### What the second reading finds -/

section Stamped

variable (prior : Bytes) (hpeer : isTrustedProxy cfg (extractIP r.remoteAddr))
include hpeer

/-- The elements of the line that the bridge stamps, from the right. -/
theorem splitComma_forwardedFor (hip : (parseIP ip).isSome) :
    ∃ own, trimSpace own = ip ∧
      (splitComma (forwardedFor cfg r.remoteAddr prior ip)).reverse = own :: priorParts prior := by
  obtain ⟨htrim, hspaced, hcomma⟩ := trimSpace_of_parseIP hip
  unfold forwardedFor priorParts
  by_cases hprior : prior = []
  · rw [if_neg fun h => h.1 hprior, if_pos hprior, splitComma_single hcomma]
    exact ⟨ip, htrim, rfl⟩
  · rw [if_pos ⟨hprior, hpeer⟩, if_neg hprior, splitComma_spaced hcomma]
    exact ⟨32 :: ip, hspaced, rfl⟩

/-- The walk over the list that was sent skips the peer and meets the stamped address. -/
theorem walk_sentFor (hip : (parseIP ip).isSome) :
    ∃ own n, trimSpace own = ip ∧ (n ≤ maxXFFHops ∧ maxXFFHops ≤ n + 2) ∧
      rightmostUntrusted cfg (sentFor r.remoteAddr (forwardedFor cfg r.remoteAddr prior ip)) =
        walk cfg (own :: (priorParts prior).take n) := by
  obtain ⟨own, hown, hsplit⟩ := splitComma_forwardedFor prior hpeer hip
  cases hhost : splitHostPort r.remoteAddr with
  | none =>
    refine ⟨own, maxXFFHops - 1, hown, by decide, ?_⟩
    simp only [sentFor, hhost]
    rw [rightmostUntrusted, hsplit]
    rfl
  | some p =>
    have hextract : extractIP r.remoteAddr = p.1 := by rw [extractIP, hhost]; rfl
    rw [hextract] at hpeer
    obtain ⟨-, hspaced, hcomma⟩ := trimSpace_of_parseIP (parseIP_of_trusted hpeer)
    refine ⟨own, maxXFFHops - 2, hown, by decide, ?_⟩
    simp only [sentFor, hhost]
    rw [rightmostUntrusted_spaced hcomma, hsplit, walk_trusted (by rw [hspaced]; exact hpeer)]
    rfl

theorem sentFor_found (hip : (parseIP ip).isSome) (hunt : isTrustedProxy cfg ip = false) :
    rightmostUntrusted cfg (sentFor r.remoteAddr (forwardedFor cfg r.remoteAddr prior ip)) =
      ip := by
  obtain ⟨own, n, hown, -, hwalk⟩ := walk_sentFor prior hpeer hip
  rw [hwalk, walk_untrusted (by rw [hown]; exact hunt) (by rw [hown]; exact hip), hown]

theorem sentFor_skipped (ht : isTrustedProxy cfg ip) :
    ∃ n, (n ≤ maxXFFHops ∧ maxXFFHops ≤ n + 2) ∧
      rightmostUntrusted cfg (sentFor r.remoteAddr (forwardedFor cfg r.remoteAddr prior ip)) =
        walk cfg ((priorParts prior).take n) := by
  obtain ⟨own, n, hown, hn, hwalk⟩ := walk_sentFor prior hpeer (parseIP_of_trusted ht)
  refine ⟨n, hn, ?_⟩
  rw [hwalk, walk_trusted (by rw [hown]; exact ht)]

end Stamped

theorem joinHeader_single {h : Header} {name : Bytes} (hv : h (canonicalKey name) = some [v]) :
    joinHeader h name = v := by
  rw [joinHeader, values, hv]
  simp [joinComma, intercalate]

section Second

variable (unicode) (cfg) (r)

/-- What the forwarded list that went out says. -/
theorem headerIP_sent (hpeer : isTrustedProxy cfg (extractIP r.remoteAddr)) :
    headerIP cfg (outbound unicode cfg r) (text "X-Forwarded-For") =
      rightmostUntrusted cfg (sentFor r.remoteAddr
        (forwardedFor cfg r.remoteAddr (priorLine cfg r) (clientIP cfg r))) := by
  have hjoin := joinHeader_single (outbound_stamped unicode cfg r).2.2
  have hremote : (outbound unicode cfg r).remoteAddr = r.remoteAddr := rfl
  rw [headerIP, hjoin, hremote]
  split
  · rfl
  · next hcond =>
    have hnil : sentFor r.remoteAddr
        (forwardedFor cfg r.remoteAddr (priorLine cfg r) (clientIP cfg r)) = [] := by
      by_contra hne
      exact hcond ⟨hne, hpeer⟩
    rw [hnil, rightmostUntrusted_nil]

/-- What the real-IP header that went out says: nothing, the stamped address, or what the forwarded
list says. -/
theorem headerIP_real (hreal : cfg.realIPHeader ≠ []) :
    headerIP cfg (outbound unicode cfg r) cfg.realIPHeader = [] ∨
      headerIP cfg (outbound unicode cfg r) cfg.realIPHeader =
        rightmostUntrusted cfg (clientIP cfg r) ∨
      headerIP cfg (outbound unicode cfg r) cfg.realIPHeader =
        headerIP cfg (outbound unicode cfg r) (text "X-Forwarded-For") := by
  obtain ⟨hip, hproto, -⟩ := outbound_stamped unicode cfg r
  by_cases hkey : canonicalKey cfg.realIPHeader ∈ stampedKeys
  · simp only [stampedKeys, stamped, map_cons, map_nil, mem_cons, not_mem_nil,
      or_false] at hkey
    rcases hkey with hkey | hkey | hkey
    · -- the address the bridge stamped
      rw [headerIP, joinHeader_single (hkey ▸ hip)]
      split
      · exact .inr (.inl rfl)
      · exact .inl rfl
    · refine .inl ?_
      rw [headerIP, joinHeader_single (hkey ▸ hproto)]
      split
      · rw [rightmostUntrusted_single (by decide), walk_unparsed (by decide)]
      · rfl
    · -- the forwarded list under its own name
      have hjoin : joinHeader (outbound unicode cfg r).header cfg.realIPHeader =
          joinHeader (outbound unicode cfg r).header (text "X-Forwarded-For") := by
        rw [joinHeader, joinHeader, values, values, hkey]
      exact .inr (.inr (by rw [headerIP, headerIP, hjoin]))
  · have hmem : canonicalKey cfg.realIPHeader ∈ (strippedNames cfg).map canonicalKey := by
      refine mem_map_of_mem ?_
      rw [strippedNames, if_pos hreal]
      exact mem_append_left _ (mem_append_right _ (mem_singleton.mpr rfl))
    have hjoin : joinHeader (outbound unicode cfg r).header cfg.realIPHeader = [] := by
      rw [joinHeader, values, outbound_stripped hkey hmem]
      split
      · rfl
      · rfl
    refine .inl ?_
    rw [headerIP, hjoin, if_neg fun h => h.1 rfl]

end Second

/-- Where the address of a request comes from: it is one the walk found, or the peer's. -/
theorem clientIP_cases (cfg : Config) (r : Request) :
    (isTrustedProxy cfg (clientIP cfg r) = false ∧ (parseIP (clientIP cfg r)).isSome) ∨
      (clientIP cfg r = extractIP r.remoteAddr ∧ headerIP cfg r (text "X-Forwarded-For") = []) := by
  have hfound : ∀ name, headerIP cfg r name ≠ [] →
      isTrustedProxy cfg (headerIP cfg r name) = false ∧
        (parseIP (headerIP cfg r name)).isSome := by
    intro name hne
    unfold headerIP at hne ⊢
    split at hne
    · next hcond =>
      rw [if_pos hcond]
      exact walk_found hne
    · exact absurd rfl hne
  have hreal : (if cfg.realIPHeader = [] then [] else headerIP cfg r cfg.realIPHeader) ≠ [] →
      isTrustedProxy cfg (if cfg.realIPHeader = [] then [] else headerIP cfg r cfg.realIPHeader) =
        false ∧
        (parseIP (if cfg.realIPHeader = [] then []
          else headerIP cfg r cfg.realIPHeader)).isSome := by
    split
    · exact fun h => absurd rfl h
    · exact hfound _
  unfold clientIP
  generalize (if cfg.realIPHeader = [] then [] else headerIP cfg r cfg.realIPHeader) = real at hreal
  by_cases hset : real ≠ []
  · rw [if_pos hset]
    exact .inl (hreal hset)
  · rw [if_neg hset]
    by_cases hfor : headerIP cfg r (text "X-Forwarded-For") ≠ []
    · simp only [if_pos hfor]
      exact .inl (hfound _ hfor)
    · simp only [if_neg hfor]
      exact .inr ⟨trivial, not_not.mp hfor⟩

theorem clientIP_untrusted (hpeer : isTrustedProxy cfg (extractIP r.remoteAddr) = false) :
    clientIP cfg r = extractIP r.remoteAddr := by
  have hnone : ∀ name, headerIP cfg r name = [] := by
    intro name
    rw [headerIP, if_neg]
    rw [hpeer]
    exact fun h => Bool.false_ne_true h.2
  simp only [clientIP, hnone, ite_self, ne_eq, not_true_eq_false, if_false]

variable (cfg) (r) in
/-- When a trusted peer's own address is what a request goes by, the line that the bridge extends
holds no other either. -/
def FirstLineAgrees : Prop :=
  isTrustedProxy cfg (extractIP r.remoteAddr) → clientIP cfg r = extractIP r.remoteAddr →
    rightmostUntrusted cfg (priorLine cfg r) = []

/-- The real-IP header that went out changes nothing, when the stamped address says nothing or what
the forwarded list says. -/
theorem clientIP_outbound {x : Bytes}
    (hx : headerIP cfg (outbound unicode cfg r) (text "X-Forwarded-For") = x)
    (h : rightmostUntrusted cfg (clientIP cfg r) = [] ∨
      rightmostUntrusted cfg (clientIP cfg r) = x) :
    clientIP cfg (outbound unicode cfg r) = if x ≠ [] then x else extractIP r.remoteAddr := by
  have hcases : (if cfg.realIPHeader = [] then []
        else headerIP cfg (outbound unicode cfg r) cfg.realIPHeader) ∈ [[], x] := by
    split
    · exact mem_cons_self
    next hreal =>
      rcases headerIP_real unicode cfg r hreal with hread | hread | hread <;> rw [hread]
      · exact mem_cons_self
      · simpa using h
      · simp [hx]
  have hremote : (outbound unicode cfg r).remoteAddr = r.remoteAddr := rfl
  simp only [clientIP, hx, hremote]
  rcases mem_cons.mp hcases with hcase | hcase
  · rw [hcase, if_neg fun h => h rfl]
  · rw [mem_singleton.mp hcase]
    split <;> rfl

/-- What the second reading finds when the first one fell back to a trusted peer. -/
theorem clientIP_outbound_peer (unicode : Bytes → Bytes)
    (hpeer : isTrustedProxy cfg (extractIP r.remoteAddr))
    (hip : clientIP cfg r = extractIP r.remoteAddr) :
    ∃ n, (n ≤ maxXFFHops ∧ maxXFFHops ≤ n + 2) ∧ clientIP cfg (outbound unicode cfg r) =
      if walk cfg ((priorParts (priorLine cfg r)).take n) ≠ [] then
        walk cfg ((priorParts (priorLine cfg r)).take n) else extractIP r.remoteAddr := by
  have ht : isTrustedProxy cfg (clientIP cfg r) := hip ▸ hpeer
  obtain ⟨n, hn, hsent⟩ := sentFor_skipped (priorLine cfg r) hpeer ht
  have hfor := headerIP_sent unicode cfg r hpeer
  rw [hsent] at hfor
  obtain ⟨htrim, -, hcomma⟩ := trimSpace_of_parseIP (parseIP_of_trusted ht)
  have hown : rightmostUntrusted cfg (clientIP cfg r) = [] := by
    rw [rightmostUntrusted_single hcomma, walk_trusted (by rw [htrim]; exact ht)]
    rfl
  exact ⟨n, hn, clientIP_outbound hfor (.inl hown)⟩

/-- When it did not, the second reading finds what the first one found. -/
theorem clientIP_outbound_found (hpeer : isTrustedProxy cfg (extractIP r.remoteAddr))
    (hunt : isTrustedProxy cfg (clientIP cfg r) = false) (hip : (parseIP (clientIP cfg r)).isSome) :
    clientIP cfg (outbound unicode cfg r) = clientIP cfg r := by
  have hfor := headerIP_sent unicode cfg r hpeer
  rw [sentFor_found (priorLine cfg r) hpeer hip hunt] at hfor
  obtain ⟨htrim, -, hcomma⟩ := trimSpace_of_parseIP hip
  have hown : rightmostUntrusted cfg (clientIP cfg r) = clientIP cfg r := by
    rw [rightmostUntrusted_single hcomma,
      walk_untrusted (by rw [htrim]; exact hunt) (by rw [htrim]; exact hip), htrim]
  have hne : clientIP cfg r ≠ [] := by
    intro hnil
    rw [hnil] at hip
    exact absurd hip (by decide)
  rw [clientIP_outbound hfor (.inr hown), if_pos hne]

theorem length_splitComma_get (h : Header) (name : Bytes) :
    (splitComma (h.get name)).length ≤ (splitComma (joinHeader h name)).length := by
  unfold Header.get joinHeader
  cases h.values name with
  | nil => exact le_rfl
  | cons v vs =>
    cases vs with
    | nil => simp [joinComma, intercalate]
    | cons w ws =>
      have hjoin : joinComma (v :: w :: ws) = v ++ comma :: joinComma (w :: ws) := by
        simp [joinComma, intercalate]
      rw [headD_cons, hjoin, splitComma_append, length_append]
      exact Nat.le_add_right _ _

variable (r) in
/-- The forwarded list, with what the bridge and the library append to it, is not cut. -/
def Short : Prop :=
  (splitComma (joinHeader r.header (text "X-Forwarded-For"))).length + 2 ≤ maxXFFHops

theorem priorParts_take (h : Short r) {n : ℕ} (hn : maxXFFHops ≤ n + 2) :
    (priorParts (priorLine cfg r)).take n = priorParts (priorLine cfg r) := by
  refine take_of_length_le ?_
  unfold priorParts
  split
  · exact Nat.zero_le n
  · next hne =>
    have hprior : priorLine cfg r = r.header.get (text "X-Forwarded-For") := by
      unfold priorLine at hne ⊢
      split
      · next hstrip => rw [if_pos hstrip] at hne; exact absurd rfl hne
      · rfl
    rw [length_reverse, hprior]
    have hle := length_splitComma_get r.header (text "X-Forwarded-For")
    unfold Short at h
    lia

/-- With the forwarded list on one line, that line is what the first reading read. -/
theorem firstLineAgrees_of_single (h : (r.header.values (text "X-Forwarded-For")).length ≤ 1) :
    FirstLineAgrees cfg r := by
  intro hpeer hip
  have hnil : headerIP cfg r (text "X-Forwarded-For") = [] := by
    rcases clientIP_cases cfg r with ⟨hunt, -⟩ | ⟨-, hnil⟩
    · rw [hip, hpeer] at hunt
      cases hunt
    · exact hnil
  unfold priorLine
  split
  · exact rightmostUntrusted_nil
  · have hget : joinHeader r.header (text "X-Forwarded-For") =
        r.header.get (text "X-Forwarded-For") := by
      unfold joinHeader Header.get
      match hv : r.header.values (text "X-Forwarded-For") with
      | [] => rfl
      | [v] => simp [joinComma, intercalate]
      | v :: w :: vs =>
        rw [hv] at h
        simp at h
    rw [← hget]
    unfold headerIP at hnil
    split at hnil
    · exact hnil
    · next hcond =>
      have hjoin : joinHeader r.header (text "X-Forwarded-For") = [] := by
        by_contra hne
        exact hcond ⟨hne, hpeer⟩
      rw [hjoin, rightmostUntrusted_nil]

theorem clientIP_outbound_of_agrees (h : FirstLineAgrees cfg r) :
    clientIP cfg (outbound unicode cfg r) = clientIP cfg r := by
  by_cases hpeer : isTrustedProxy cfg (extractIP r.remoteAddr)
  · rcases clientIP_cases cfg r with ⟨hunt, hip⟩ | ⟨hip, -⟩
    · exact clientIP_outbound_found hpeer hunt hip
    · obtain ⟨n, ⟨hn, -⟩, hout⟩ := clientIP_outbound_peer unicode hpeer hip
      have hfull : walk cfg ((priorParts (priorLine cfg r)).take maxXFFHops) = [] := by
        rw [walk_priorParts]
        exact h hpeer hip
      have hcut : walk cfg ((priorParts (priorLine cfg r)).take n) = [] := by
        have := walk_take hfull n
        rwa [take_take, Nat.min_eq_left hn] at this
      rw [hout, hcut, if_neg fun h => h rfl, hip]
  · have hun := Bool.eq_false_iff.mpr hpeer
    rw [clientIP_untrusted hun]
    exact clientIP_untrusted hun

/-- For a list that is not cut, the condition is needed. -/
theorem agrees_of_clientIP_outbound (hshort : Short r)
    (h : clientIP cfg (outbound unicode cfg r) = clientIP cfg r) : FirstLineAgrees cfg r := by
  intro hpeer hip
  obtain ⟨n, ⟨hn, hn'⟩, hout⟩ := clientIP_outbound_peer unicode hpeer hip
  rw [priorParts_take hshort hn'] at hout
  have hwhole : (priorParts (priorLine cfg r)).take maxXFFHops = priorParts (priorLine cfg r) :=
    priorParts_take hshort (Nat.le_add_right _ _)
  rw [← walk_priorParts, hwhole]
  by_contra hne
  -- what the second reading found is not a trusted proxy, and the peer is one
  rw [if_pos hne, h, hip] at hout
  have hunt := (walk_found hne).1
  rw [← hout, hpeer] at hunt
  cases hunt

/-- **The bridge as the author of what the vault trusts.** For a peer that is not trusted, the
headers that reach the vault under the stamped names and under every name the bridge strips (the
defaults, the configured real-IP header and the configured names) depend on the peer's address and
the configuration alone, whatever lines the request has. The address charged with a failed login is
the one the request was scored and routed under exactly when the line that the bridge extends agrees
with the lines together, for a list short enough not to be cut; when it agrees they are the same for
every list, and a list on one line agrees. -/
theorem bridge_authors_headers (unicode : Bytes → Bytes) (cfg : Config) :
    (∀ r r', r.remoteAddr = r'.remoteAddr →
      isTrustedProxy cfg (extractIP r.remoteAddr) = false →
      ∀ n ∈ stamped ++ strippedNames cfg,
        (outbound unicode cfg r).header (canonicalKey n) =
          (outbound unicode cfg r').header (canonicalKey n)) ∧
    (∀ r, Short r →
      (inspectLoginResponse cfg "POST" "/auth/login" 401 (outbound unicode cfg r) =
        some (clientIP cfg r) ↔
        FirstLineAgrees cfg r)) ∧
    (∀ r, FirstLineAgrees cfg r → ∀ method path status ip,
      inspectLoginResponse cfg method path status (outbound unicode cfg r) = some ip →
        ip = clientIP cfg r) ∧
    ∀ r, (r.header.values (text "X-Forwarded-For")).length ≤ 1 → FirstLineAgrees cfg r := by
  refine ⟨?_, ?_, ?_, fun _ => firstLineAgrees_of_single⟩
  · intro r r' hsame hpeer n hn
    have hip := clientIP_untrusted hpeer
    have hip' : clientIP cfg r' = extractIP r.remoteAddr := by
      rw [hsame] at hpeer ⊢
      exact clientIP_untrusted hpeer
    -- the list of such a peer is not extended
    have hfor : ∀ prior ip, forwardedFor cfg r.remoteAddr prior ip = ip := by
      intro prior ip
      rw [forwardedFor, if_neg]
      rw [hpeer]
      exact fun h => Bool.false_ne_true h.2
    obtain ⟨hreal, hproto, hlist⟩ := outbound_stamped unicode cfg r
    obtain ⟨hreal', hproto', hlist'⟩ := outbound_stamped unicode cfg r'
    rw [hip, hfor] at hlist
    rw [hip', ← hsame, hfor] at hlist'
    by_cases hkey : canonicalKey n ∈ stampedKeys
    · simp only [stampedKeys, stamped, List.map_cons, List.map_nil, List.mem_cons, List.not_mem_nil,
        or_false] at hkey
      rcases hkey with hkey | hkey | hkey
      · rw [hkey, hreal, hreal', hip, hip']
      · rw [hkey, hproto, hproto']
      · rw [hkey, hlist, hlist']
    · have hmem : n ∈ strippedNames cfg := by
        rcases List.mem_append.mp hn with hn | hn
        · exact absurd (List.mem_map_of_mem hn) hkey
        · exact hn
      rw [outbound_stripped hkey (List.mem_map_of_mem hmem),
        outbound_stripped hkey (List.mem_map_of_mem hmem)]
  · intro r hshort
    rw [inspectLoginResponse, if_pos ⟨rfl, rfl, rfl⟩, Option.some.injEq]
    exact ⟨agrees_of_clientIP_outbound hshort, clientIP_outbound_of_agrees⟩
  · intro r hagrees method path status ip hcharged
    unfold inspectLoginResponse at hcharged
    split at hcharged
    · cases hcharged
      exact clientIP_outbound_of_agrees hagrees
    · cases hcharged

namespace Sample

/-- Trusts `10.0.0.0/8`, and has no header of its own. -/
def inside : Config := ⟨[⟨[10, 0, 0, 0], [255, 0, 0, 0]⟩], [], []⟩

/-- A request with the given lines. -/
def request (remoteAddr : String) (lines : List (String × String)) : Request :=
  ⟨text remoteAddr, Header.ofLines (lines.map fun l => (text l.1, text l.2))⟩

/-- A client that dresses its request up, and the same client without. -/
def dressedUp : Request :=
  request "203.0.113.7:9000" [("X-Real-IP", "6.6.6.6"), ("Connection", "x-real-ip , close"),
    ("X-Forwarded-Host", "evil.example")]

def plain : Request := request "203.0.113.7:9000" []

/-- A request of a client behind a trusted proxy. -/
def behind : Request := request "10.0.0.9:443" [("X-Forwarded-For", "6.6.6.6, 203.0.113.7")]

/-- The two are the same to the vault, and the third is charged to the address it was scored
under. -/
theorem dressed_up :
    (outbound id inside dressedUp).header (canonicalKey (text "X-Real-IP")) =
      (outbound id inside plain).header (canonicalKey (text "X-Real-IP")) ∧
    inspectLoginResponse inside "POST" "/auth/login" 401 (outbound id inside behind) =
      some (clientIP inside behind) := by
  obtain ⟨hauthor, hcharged, -, hsingle⟩ := bridge_authors_headers id inside
  have hpeer : isTrustedProxy inside (extractIP dressedUp.remoteAddr) = false := by decide +kernel
  have hname : text "X-Real-IP" ∈ stamped ++ strippedNames inside := by decide +kernel
  have hshort : Short behind := by unfold Short; decide +kernel
  have hlines : (behind.header.values (text "X-Forwarded-For")).length ≤ 1 := by decide +kernel
  exact ⟨hauthor dressedUp plain rfl hpeer _ hname,
    (hcharged behind hshort).mpr (hsingle behind hlines)⟩

/-- Two lines of a trusted proxy, the second of them no list of addresses. -/
def twoLines : Request :=
  request "10.0.0.9:443" [("X-Forwarded-For", "6.6.6.6"), ("X-Forwarded-For", "-")]

/-- The request is scored under the proxy, and a failed login is charged to the address on the first
line. -/
theorem charged_elsewhere :
    clientIP inside twoLines = text "10.0.0.9" ∧
      inspectLoginResponse inside "POST" "/auth/login" 401 (outbound id inside twoLines) =
        some (text "6.6.6.6") := by
  have hip : clientIP inside twoLines = text "10.0.0.9" := by decide +kernel
  have hextract : extractIP twoLines.remoteAddr = text "10.0.0.9" := by decide +kernel
  have hshort : Short twoLines := by unfold Short; decide +kernel
  have hwalk : walk inside (priorParts (priorLine inside twoLines)) = text "6.6.6.6" := by
    decide +kernel
  have hpeer : isTrustedProxy inside (extractIP twoLines.remoteAddr) := by decide +kernel
  obtain ⟨n, ⟨-, hn⟩, hout⟩ := clientIP_outbound_peer id hpeer (hip.trans hextract.symm)
  rw [priorParts_take hshort hn, hwalk, if_pos (by decide)] at hout
  refine ⟨hip, ?_⟩
  rw [inspectLoginResponse, if_pos ⟨rfl, rfl, rfl⟩, hout]

end Sample

end Vault42.Bridge
