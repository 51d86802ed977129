/-
  TcpFramework.MalformedItems — items of the setting that are not a key and addresses.

  addRemoteService looks at neither of its two failures.  Without a `*` the key text and
  the address list are both the whole item, and a key that `>>` does not read leaves
  iRouteKey as it is.  The item still has its addresses installed, under some key; it
  installs nothing only when there is no text where the addresses are taken from.

  Main results:
    * `addItem_eq_calls` — an item is a list of calls of addSvr.
    * `malformed_ignored_iff` — the settings whose malformed items do nothing.
-/
import TcpFramework.RemoteService

namespace TcpFramework

open Lines Assignment

/-! ## §1. Keys that are written, and the calls that are made. -/

/-- The key written in an item: there is a `*`, and all before it is a number of an int. -/
def writtenKey (strItem : List Char) : Option Int :=
  if '*' ∈ strItem ∧ afterNumber (splitItem strItem).1 = [] then readInt (splitItem strItem).1
  else none

section

variable (inet : List Char → Addr) (failed : List Char → Int) (env : Env)

/-- The calls of addSvr for an item, with their route keys and addresses. -/
def itemCalls (strItem : List Char) : List (Int × Addr) :=
  (lines ',' (splitItem strItem).2).map fun strAddr =>
    ((readInt (splitItem strItem).1).getD (failed (splitItem strItem).1), inet strAddr)

/-- **The body of the outer loop makes these calls**, in order. -/
theorem addItem_eq_calls (strItem : List Char) (w : World) :
    addItem inet failed env strItem w
      = (itemCalls inet failed strItem).foldl
          (fun w p => (ProxyMgr.addSvr env p.1 p.2 w).2) w := by
  unfold itemCalls
  rw [List.foldl_map]
  rfl

/-- There are none exactly when nothing stands where the addresses are taken from. -/
theorem itemCalls_eq_nil_iff {strItem : List Char} :
    itemCalls inet failed strItem = []
      ↔ strItem = [] ∨ ∃ key, '*' ∉ key ∧ strItem = key ++ ['*'] := by
  have hcalls : itemCalls inet failed strItem = [] ↔ (splitItem strItem).2 = [] := by
    unfold itemCalls
    rw [List.map_eq_nil_iff, lines_eq_nil_iff]
  rw [hcalls]
  by_cases hstar : '*' ∈ strItem
  · obtain ⟨key, addrs, rfl, hkey⟩ := List.eq_append_cons_of_mem hstar
    rw [splitItem_render hkey]
    constructor
    · intro haddrs
      obtain rfl : addrs = [] := haddrs
      exact Or.inr ⟨key, hkey, rfl⟩
    · intro h
      rcases h with h | ⟨key', hkey', h⟩
      · exact absurd h (by simp)
      · -- the first `*` is at one place only
        have hsplit := congrArg splitItem h
        rw [splitItem_render hkey, splitItem_render hkey'] at hsplit
        exact congrArg Prod.snd hsplit
  · unfold splitItem
    rw [if_neg hstar]
    constructor
    · exact Or.inl
    · intro h
      rcases h with h | ⟨key, -, rfl⟩
      · exact h
      · exact absurd (by simp) hstar

/-! ## §2. Which servers a call can bring in. -/

/-- addSvr gives a key no server but the one it is called with. -/
theorem ProxyMgr.addSvr_serves {w : World} {key k : Int} {a b : Addr}
    (h : (ProxyMgr.addSvr env k b w).2.Serves key a) :
    w.Serves key a ∨ ((key, a) : Int × Addr) = (k, b) := by
  -- a key that is created has no servers
  have hensure : (ProxyMgr.ensureKey env k w).Serves key a → w.Serves key a := by
    unfold ProxyMgr.ensureKey
    cases hk : w.mapProxy.find k with
    | some p => exact id
    | none =>
        intro hs
        obtain ⟨p, hp, ha⟩ := hs
        by_cases hkey : key = k
        · obtain rfl : p = {} := by simpa [hkey] using hp.symm
          exact absurd ha (UnorderedSet.not_mem_empty a)
        · exact ⟨p, by simpa [hkey] using hp, ha⟩
  obtain ⟨q, hq⟩ := ProxyMgr.ensureKey_find env k w
  unfold ProxyMgr.addSvr at h
  simp only [hq] at h
  split at h
  · exact Or.inl (hensure h)
  · split at h
    · exact Or.inl (hensure h)
    · -- the connect leaves the routing alone
      have hproxy := (World.register_routes env b (ProxyMgr.ensureKey env k w)).1
      obtain ⟨p, hp, ha⟩ := h
      by_cases hkey : key = k
      · obtain rfl : { q with servers := q.servers.insert env.svrPlace b
                              serverList := q.serverList ++ [b] } = p := by
          simpa [hproxy, hkey, hq] using hp
        rcases UnorderedSet.mem_insert.mp ha with rfl | ha
        · exact Or.inr (by rw [hkey])
        · exact Or.inl (hensure ⟨q, by rw [hkey]; exact hq, ha⟩)
      · exact Or.inl (hensure ⟨p, by simpa [hproxy, hkey] using hp, ha⟩)

theorem addCalls_serves {key : Int} {a : Addr} (ps : List (Int × Addr)) :
    ∀ {w : World},
      (ps.foldl (fun w p => (ProxyMgr.addSvr env p.1 p.2 w).2) w).Serves key a →
      w.Serves key a ∨ (key, a) ∈ ps := by
  induction ps with
  | nil => exact fun h => Or.inl h
  | cons p ps ih =>
      intro w h
      rcases ih h with h | h
      · rcases ProxyMgr.addSvr_serves env h with h | h
        · exact Or.inl h
        · exact Or.inr (List.mem_cons.mpr (Or.inl h))
      · exact Or.inr (List.mem_cons_of_mem _ h)

theorem addItems_serves {key : Int} {a : Addr} (items : List (List Char)) :
    ∀ {w : World},
      (items.foldl (fun w strItem => addItem inet failed env strItem w) w).Serves key a →
      w.Serves key a ∨ ∃ strItem ∈ items, (key, a) ∈ itemCalls inet failed strItem := by
  induction items with
  | nil => exact fun h => Or.inl h
  | cons item items ih =>
      intro w h
      rcases ih h with h | ⟨strItem, hmem, hcall⟩
      · have hitem : (addItem inet failed env item w).Serves key a := h
        rw [addItem_eq_calls] at hitem
        rcases addCalls_serves env _ hitem with h | h
        · exact Or.inl h
        · exact Or.inr ⟨item, List.mem_cons_self, h⟩
      · exact Or.inr ⟨strItem, List.mem_cons_of_mem _ hmem, hcall⟩

/-! ## §3. Malformed items. -/

/-- The setting without its malformed items. -/
def wellFormedItems (strRemoteAddrs : List Char) : List Char :=
  [';'].intercalate ((lines ';' strRemoteAddrs).filter fun strItem => (writtenKey strItem).isSome)

/-- Malformed items of the setting install nothing. -/
structure IgnoresMalformed (strRemoteAddrs : List Char) : Prop where
  /-- They cause no call of addSvr. -/
  noCall : ∀ strItem ∈ lines ';' strRemoteAddrs, writtenKey strItem = none →
    itemCalls inet failed strItem = []
  /-- A server that comes in has an item with its address, and with its key written in it. -/
  ownKey : ∀ w key a, (addRemoteService inet failed env strRemoteAddrs w).2.Serves key a →
    w.Serves key a ∨ ∃ strItem ∈ lines ';' strRemoteAddrs, writtenKey strItem = some key
      ∧ ∃ strAddr ∈ lines ',' (splitItem strItem).2, inet strAddr = a
  /-- The other items do what they do without them. -/
  absent : ∀ w, addRemoteService inet failed env strRemoteAddrs w
    = addRemoteService inet failed env (wellFormedItems strRemoteAddrs) w

/-- Items with a written key are read back from their joined text. -/
theorem lines_wellFormedItems (strRemoteAddrs : List Char) :
    lines ';' (wellFormedItems strRemoteAddrs)
      = (lines ';' strRemoteAddrs).filter fun strItem => (writtenKey strItem).isSome := by
  refine lines_intercalate ';' ?_
  intro strItem hmem
  obtain ⟨hline, hkey⟩ := List.mem_filter.mp hmem
  refine ⟨not_mem_of_mem_lines hline, ?_⟩
  intro hnil
  rw [hnil] at hkey
  exact absurd hkey (by decide)

/-- Items that make no calls may go. -/
theorem addItems_filter {keep : List Char → Bool} (items : List (List Char))
    (h : ∀ strItem ∈ items, keep strItem = false → itemCalls inet failed strItem = [])
    (w : World) :
    (items.filter keep).foldl (fun w strItem => addItem inet failed env strItem w) w
      = items.foldl (fun w strItem => addItem inet failed env strItem w) w := by
  rw [List.foldl_filter]
  refine List.foldl_ext _ _ _ ?_
  intro w strItem hmem
  cases hk : keep strItem with
  | true => rfl
  | false =>
      rw [addItem_eq_calls, h strItem hmem hk]
      rfl

/-- **Malformed items are ignored** exactly when each of them is empty or has nothing behind
its first `*`. -/
theorem malformed_ignored_iff (strRemoteAddrs : List Char) :
    IgnoresMalformed inet failed env strRemoteAddrs
      ↔ ∀ strItem ∈ lines ';' strRemoteAddrs, writtenKey strItem = none →
          strItem = [] ∨ ∃ key, '*' ∉ key ∧ strItem = key ++ ['*'] := by
  constructor
  · intro h strItem hmem hkey
    exact (itemCalls_eq_nil_iff inet failed).mp (h.noCall strItem hmem hkey)
  · intro h
    have hnone : ∀ strItem ∈ lines ';' strRemoteAddrs, writtenKey strItem = none →
        itemCalls inet failed strItem = [] := by
      intro strItem hmem hkey
      exact (itemCalls_eq_nil_iff inet failed).mpr (h strItem hmem hkey)
    refine ⟨hnone, ?_, ?_⟩
    · intro w key a hs
      rcases addItems_serves inet failed env _ hs with hs | ⟨strItem, hmem, hcall⟩
      · exact Or.inl hs
      · refine Or.inr ⟨strItem, hmem, ?_⟩
        obtain ⟨strAddr, haddr, heq⟩ := List.mem_map.mp hcall
        obtain ⟨hkey, ha⟩ := Prod.mk.inj heq
        refine ⟨?_, strAddr, haddr, ha⟩
        -- the item makes a call, so its key is written, and it is the one that is read
        cases hw : writtenKey strItem with
        | none =>
            rw [hnone strItem hmem hw] at hcall
            exact absurd hcall List.not_mem_nil
        | some k =>
            have hread : readInt (splitItem strItem).1 = some k := by
              unfold writtenKey at hw
              split at hw
              · exact hw
              · exact absurd hw (by simp)
            rw [hread] at hkey
            exact congrArg some hkey
    · intro w
      unfold addRemoteService
      rw [lines_wellFormedItems, addItems_filter inet failed env _ ?_]
      intro strItem hmem hk
      exact hnone strItem hmem (by simpa using hk)

end

/-- An address without a key: the item has no `*`, its leading number is read as a key, and
the address is installed under it. -/
theorem malformed_installed :
    writtenKey "127.0.0.1:80".toList = none
      ∧ itemCalls twoAddrs (fun _ => 0) "127.0.0.1:80".toList = [(127, (0x7f000001, 80))]
      ∧ ¬ ∀ (inet : List Char → Addr) (failed : List Char → Int) (env : Env)
          (strRemoteAddrs : List Char), IgnoresMalformed inet failed env strRemoteAddrs := by
  have hkey : writtenKey "127.0.0.1:80".toList = none := by decide
  have hline : ∀ d, d ∉ "127.0.0.1:80".toList →
      lines d "127.0.0.1:80".toList = ["127.0.0.1:80".toList] :=
    fun d hd => lines_last hd (by decide)
  have hcalls : itemCalls twoAddrs (fun _ => 0) "127.0.0.1:80".toList
      = [(127, (0x7f000001, 80))] := by
    unfold itemCalls
    rw [show (splitItem "127.0.0.1:80".toList).2 = "127.0.0.1:80".toList by decide,
      hline ',' (by decide)]
    decide
  refine ⟨hkey, hcalls, ?_⟩
  intro h
  have hmem : "127.0.0.1:80".toList ∈ lines ';' "127.0.0.1:80".toList := by
    rw [hline ';' (by decide)]
    exact List.mem_singleton_self _
  have hnone := (h twoAddrs (fun _ => 0) .dial "127.0.0.1:80".toList).noCall _ hmem hkey
  rw [hcalls] at hnone
  exact absurd hnone (by simp)

end TcpFramework
