import ThreatIntel.RateLimit

/-!
# Who the client is

`X-Forwarded-For` grows from left to right, so what a client has put there
stands before all that the proxies add. Reading it from the right, the
first hop that is not trusted comes before anything the client wrote.

A trusted address need not be a hop: the scope of an IPv6 address may have
a comma in it, and at a comma the header is split.
-/

namespace ThreatIntel

namespace ProxyTrust

open PyStr

/-- A text that the header is split into, trimmed and not empty. -/
def IsHop (s : PyStr) : Prop := s ≠ [] ∧ ',' ∉ s ∧ s.strip = s

instance (s : PyStr) : Decidable (IsHop s) := inferInstanceAs (Decidable (_ ∧ _))

/-- The header a client has sent, and what the proxies have added to it. -/
def forwarded (header : PyStr) (added : List PyStr) : PyStr := header ++ ',' :: join ',' added

/-- A request by way of the peer, with the header. -/
def requestOf (path : String) (peer : PyStr) (header : PyStr) : Request where
  path
  peer := some peer
  forwardedFor := some header

theorem splitOn_forwarded (header : PyStr) {added : List PyStr} (hne : added ≠ [])
    (h : ∀ s ∈ added, ',' ∉ s) :
    (forwarded header added).splitOn ',' = header.splitOn ',' ++ added := by
  rw [forwarded, List.splitOn_append_cons_self, join,
    List.splitOn_intercalate _ h hne]

/-- The hops added by the proxies, nearest first, and then those of the
client. -/
theorem hops_forwarded (path : String) (peer header : PyStr) {added : List PyStr} (hne : added ≠ [])
    (h : ∀ s ∈ added, IsHop s) :
    hops (requestOf path peer (forwarded header added)) =
      added.reverse ++ hops (requestOf path peer header) := by
  have hstrip : added.map strip = added := by
    conv_rhs => rw [← List.map_id added]
    exact List.map_congr_left fun s hs => (h s hs).2.2
  have hkept : added.filter (· ≠ []) = added :=
    List.filter_eq_self.mpr fun s hs => decide_eq_true (h s hs).1
  simp only [hops, requestOf, Option.getD_some, splitOn_forwarded header hne fun s hs => (h s hs).2.1,
    List.map_append, List.filter_append, List.reverse_append, hstrip, hkept]

variable {trust : ProxyTrust}

theorem clientIp_of_trusted {request : Request} (h : trust.trusts request.peer = true) :
    trust.clientIp request =
      ((hops request).find? fun hop => !trust.trusts (some hop)).or request.peer := by
  rw [clientIp, if_pos h]
  cases (hops request).find? fun hop => !trust.trusts (some hop) <;> rfl

theorem clientIp_of_untrusted (request : Request) (h : trust.trusts request.peer = false) :
    trust.clientIp request = request.peer := by
  rw [clientIp, h, if_neg Bool.false_ne_true]

/-- The hops behind the client's own are passed over, and the client's are
not reached. -/
theorem clientIp_forwarded {path : String} {peer : PyStr} (hpeer : trust.trusts (some peer) = true)
    (header : PyStr) {a : PyStr} (ha : IsHop a) (huntrusted : trust.trusts (some a) = false)
    {added : List PyStr} (hadded : ∀ p ∈ added, IsHop p ∧ trust.trusts (some p) = true) :
    trust.clientIp (requestOf path peer (forwarded header (a :: added))) = some a := by
  have hhops : ∀ s ∈ a :: added, IsHop s :=
    List.forall_mem_cons.mpr ⟨ha, fun p hp => (hadded p hp).1⟩
  have hnone : added.reverse.find? (fun hop => !trust.trusts (some hop)) = none :=
    List.find?_eq_none.mpr fun p hp => by simp [(hadded p (List.mem_reverse.mp hp)).2]
  rw [clientIp_of_trusted hpeer, hops_forwarded path peer header (List.cons_ne_nil _ _) hhops,
    List.reverse_cons, List.append_assoc, List.find?_append, hnone, Option.none_or,
    List.singleton_append, List.find?_cons_of_pos (by simp [huntrusted])]
  rfl

/-- A header in which every hop is trusted. -/
theorem clientIp_of_all_trusted {path : String} {peer header : PyStr}
    (hpeer : trust.trusts (some peer) = true)
    (h : ∀ hop ∈ hops (requestOf path peer header), trust.trusts (some hop) = true) :
    trust.clientIp (requestOf path peer header) = some peer := by
  have hnone : (hops (requestOf path peer header)).find? (fun hop => !trust.trusts (some hop)) = none :=
    List.find?_eq_none.mpr fun hop hhop => by simp [h hop hhop]
  rw [clientIp_of_trusted hpeer, hnone]
  rfl

/-- **A forged header has no influence.** Behind hops that are trusted, the
last that is not is the client, whatever the header begins with; of trusted
hops alone the peer is left; and from a peer that is not trusted no header
is read. -/
theorem forged_header_ignored (trust : ProxyTrust) (path : String) :
    (∀ peer, trust.trusts (some peer) = true → ∀ header a added,
      IsHop a → trust.trusts (some a) = false →
        (∀ p ∈ added, IsHop p ∧ trust.trusts (some p) = true) →
          trust.clientIp (requestOf path peer (forwarded header (a :: added))) = some a) ∧
    (∀ peer, trust.trusts (some peer) = true → ∀ header,
      (∀ hop ∈ hops (requestOf path peer header), trust.trusts (some hop) = true) →
        trust.clientIp (requestOf path peer header) = some peer) ∧
    ∀ request : Request, trust.trusts request.peer = false → ∀ header,
      trust.clientIp { request with forwardedFor := header } = request.peer :=
  ⟨fun _ hpeer header _ _ ha huntrusted hadded => clientIp_forwarded hpeer header ha huntrusted hadded,
    fun _ hpeer _ h => clientIp_of_all_trusted hpeer h,
    fun request hpeer header => clientIp_of_untrusted { request with forwardedFor := header } hpeer⟩

/-- `fe80::/10` and `10.0.0.0/8`. -/
def sampleTrust : ProxyTrust where
  networks :=
    [{ version := .v6, networkAddress := 0xfe80 * 2 ^ 112, netmask := 0xffc0 * 2 ^ 112 },
      { version := .v4, networkAddress := 10 * 2 ^ 24, netmask := 255 * 2 ^ 24 }]

theorem forged_header_ignored_sample :
    sampleTrust.clientIp (requestOf "/" "10.0.0.1".toList (forwarded "6.6.6.6, 10.9.9.9".toList
        ["192.0.2.7".toList, "10.0.0.2".toList, "fe80::1%eth0".toList])) = some "192.0.2.7".toList ∧
      sampleTrust.clientIp (requestOf "/" "10.0.0.1".toList "10.0.0.2 , ,".toList) =
        some "10.0.0.1".toList ∧
      sampleTrust.clientIp { requestOf "/" "192.0.2.7".toList [] with
        forwardedFor := some "6.6.6.6".toList } = some "192.0.2.7".toList :=
  ⟨(forged_header_ignored sampleTrust "/").1 _ (by decide +kernel) _ _ _ (by decide +kernel)
      (by decide +kernel) (by decide +kernel),
    (forged_header_ignored sampleTrust "/").2.1 _ (by decide +kernel) _ (by decide +kernel),
    (forged_header_ignored sampleTrust "/").2.2 (requestOf "/" "192.0.2.7".toList [])
      (by decide +kernel) _⟩

/-- A trusted address with a comma in its scope is two hops. -/
theorem scope_splits :
    ¬ ∀ (trust : ProxyTrust) (path : String) (peer header a : PyStr) (added : List PyStr),
      trust.trusts (some peer) = true → a ≠ [] → ',' ∉ a → a.strip = a →
        trust.trusts (some a) = false → (∀ p ∈ added, trust.trusts (some p) = true) →
          trust.clientIp (requestOf path peer (forwarded header (a :: added))) = some a := by
  intro h
  have hsample := h sampleTrust "/" "10.0.0.1".toList [] "192.0.2.7".toList
    ["fe80::1%x,6.6.6.6".toList] (by decide +kernel) (by decide) (by decide) (by decide +kernel)
    (by decide +kernel) (by decide +kernel)
  revert hsample
  decide +kernel

end ProxyTrust

end ThreatIntel
