/-
  TcpFramework.RemoteService — addRemoteService, which reads the svc_addr setting.

  The setting is a list of entries, a route key and the addresses of its servers.  Two
  nested loops over getline take the text apart, and every address goes to
  ProxyMgr::addSvr, which refuses one that any key has already.

  ACE_INET_Addr is not part of the source: `inet` stands for it.  What `>>` leaves in
  iRouteKey when it fails is left open.

  Main results:
    * `addRemoteService_render` — on a rendered list of entries the loops make one call of
      addSvr for each address, in order.
    * `setting_reads_back` — and every server_list is what the entries say.
-/
import TcpFramework.Lib.Lines
import TcpFramework.RoutingTables
import TcpFramework.Stream

namespace TcpFramework

open Lines Assignment

/-! ## §1. The text. -/

/-- An address as ip:port. -/
def dotted (a : Addr) : List Char :=
  let ip := a.1.toNat
  decimal (ip >>> 24) ++ '.' :: decimal (ip >>> 16 % 256) ++ '.' :: decimal (ip >>> 8 % 256)
    ++ '.' :: decimal (ip % 256) ++ ':' :: decimal a.2.toNat

/-- A route key, and the addresses of its servers. -/
abbrev Entry := Int32 × List Addr

/-- An entry of the setting. -/
def Entry.render (e : Entry) : List Char :=
  decimalInt e.1.toInt ++ '*' :: [','].intercalate (e.2.map dotted)

/-- The setting. -/
def render (entries : List Entry) : List Char := [';'].intercalate (entries.map Entry.render)

/-! ## §2. addRemoteService. -/

/-- strKey and strAddrs: what stands before the first `*`, and what stands behind it.
Without one, tpos is npos and both substr are the whole item. -/
def splitItem (strItem : List Char) : List Char × List Char :=
  if '*' ∈ strItem then
    (strItem.takeWhile fun c => c ≠ '*', (strItem.dropWhile fun c => c ≠ '*').tail)
  else (strItem, strItem)

section

variable (inet : List Char → Addr) (failed : List Char → Int) (env : Env)

/-- The inner loop: an address after the other. -/
def addAddrs (iRouteKey : Int) (strAddrs : List Char) (w : World) : World :=
  (lines ',' strAddrs).foldl (fun w strAddr => (ProxyMgr.addSvr env iRouteKey (inet strAddr) w).2) w

/-- The body of the outer loop. -/
def addItem (strItem : List Char) (w : World) : World :=
  let strKey := (splitItem strItem).1
  let strAddrs := (splitItem strItem).2
  -- iRouteKey is not initialised
  let iRouteKey := (readInt strKey).getD (failed strKey)
  addAddrs inet env iRouteKey strAddrs w

/-- `addRemoteService`. -/
def addRemoteService (strRemoteAddrs : List Char) (w : World) : Bool × World :=
  (true, (lines ';' strRemoteAddrs).foldl (fun w strItem => addItem inet failed env strItem w) w)

end

/-! ## §3. The characters of a rendered list. -/

theorem mem_dotted {a : Addr} {c : Char} (h : c ∈ dotted a) :
    c.isDigit = true ∨ c = '.' ∨ c = ':' := by
  unfold dotted at h
  simp only [List.mem_append, List.mem_cons] at h
  have hdigit : ∀ {n : Nat}, c ∈ decimal n → c.isDigit = true := isDigit_of_mem_decimal
  rcases h with (((h | h | h) | h | h) | h | h) | h | h
  · exact Or.inl (hdigit h)
  · exact Or.inr (Or.inl h)
  · exact Or.inl (hdigit h)
  · exact Or.inr (Or.inl h)
  · exact Or.inl (hdigit h)
  · exact Or.inr (Or.inl h)
  · exact Or.inl (hdigit h)
  · exact Or.inr (Or.inr h)
  · exact Or.inl (hdigit h)

theorem dotted_ne_nil (a : Addr) : dotted a ≠ [] := by
  unfold dotted
  simp

theorem not_mem_dotted {a : Addr} {d : Char} (hd : d.isDigit = false) (hdot : d ≠ '.')
    (hcolon : d ≠ ':') : d ∉ dotted a := by
  intro h
  rcases mem_dotted h with h | h | h
  · rw [hd] at h
    exact absurd h (by decide)
  · exact hdot h
  · exact hcolon h

/-- Joining adds delimiters only. -/
theorem mem_intercalate {d c : Char} {pieces : List (List Char)}
    (h : c ∈ [d].intercalate pieces) : c = d ∨ ∃ piece ∈ pieces, c ∈ piece := by
  induction pieces with
  | nil => exact absurd h List.not_mem_nil
  | cons piece pieces ih =>
      -- there is a delimiter before the next piece, and none after the last
      cases pieces with
      | nil =>
          rw [List.intercalate_singleton] at h
          exact Or.inr ⟨piece, List.mem_cons_self, h⟩
      | cons next pieces =>
          rw [List.intercalate_cons_cons, List.mem_append, List.mem_append] at h
          rcases h with (h | h) | h
          · exact Or.inr ⟨piece, List.mem_cons_self, h⟩
          · exact Or.inl (List.mem_singleton.mp h)
          · rcases ih h with h | ⟨p, hp, hc⟩
            · exact Or.inl h
            · exact Or.inr ⟨p, List.mem_cons_of_mem _ hp, hc⟩

/-- No entry holds the delimiter of entries. -/
theorem Entry.semicolon_not_mem (e : Entry) : ';' ∉ e.render := by
  intro h
  unfold Entry.render at h
  rcases List.mem_append.mp h with h | h
  · exact not_mem_decimalInt (by decide) (by decide) h
  · rcases List.mem_cons.mp h with h | h
    · exact absurd h (by decide)
    · rcases mem_intercalate h with h | ⟨piece, hpiece, h⟩
      · exact absurd h (by decide)
      · obtain ⟨a, -, rfl⟩ := List.mem_map.mp hpiece
        exact not_mem_dotted (by decide) (by decide) (by decide) h

theorem Entry.render_ne_nil (e : Entry) : e.render ≠ [] := by
  unfold Entry.render
  simp

/-! ## §4. What is read. -/

theorem splitItem_render {key addrs : List Char} (h : '*' ∉ key) :
    splitItem (key ++ '*' :: addrs) = (key, addrs) := by
  have hkey : ∀ c ∈ key, decide (c ≠ '*') = true := keeps_of_not_mem h
  unfold splitItem
  rw [if_pos (by simp), List.takeWhile_append_of_pos hkey, List.dropWhile_append_of_pos hkey]
  simp

/-- The addresses of the setting, each with its key, in order of appearance. -/
def appearances (entries : List Entry) : List (Int × Addr) :=
  entries.flatMap fun e => e.2.map fun a => (e.1.toInt, a)

section

variable {inet : List Char → Addr} (failed : List Char → Int) (env : Env)

theorem addAddrs_render {addrs : List Addr} (h : ∀ a ∈ addrs, inet (dotted a) = a) (key : Int)
    (w : World) :
    addAddrs inet env key ([','].intercalate (addrs.map dotted)) w
      = addrs.foldl (fun w a => (ProxyMgr.addSvr env key a w).2) w := by
  have hlines : lines ',' ([','].intercalate (addrs.map dotted)) = addrs.map dotted := by
    refine lines_intercalate ',' ?_
    intro piece hpiece
    obtain ⟨a, -, rfl⟩ := List.mem_map.mp hpiece
    exact ⟨not_mem_dotted (by decide) (by decide) (by decide), dotted_ne_nil a⟩
  unfold addAddrs
  rw [hlines, List.foldl_map]
  refine List.foldl_ext _ _ _ ?_
  intro w a ha
  rw [h a ha]

theorem addItem_render {e : Entry} (h : ∀ a ∈ e.2, inet (dotted a) = a) (w : World) :
    addItem inet failed env e.render w
      = e.2.foldl (fun w a => (ProxyMgr.addSvr env e.1.toInt a w).2) w := by
  have hkey : '*' ∉ decimalInt e.1.toInt := not_mem_decimalInt (by decide) (by decide)
  unfold addItem Entry.render
  rw [splitItem_render hkey]
  show addAddrs inet env ((readInt (decimalInt e.1.toInt)).getD _) _ w = _
  rw [readInt_decimalInt]
  exact addAddrs_render env h e.1.toInt w

/-- **The loops make one call of addSvr for each address, in order.** -/
theorem addRemoteService_render {entries : List Entry}
    (h : ∀ e ∈ entries, ∀ a ∈ e.2, inet (dotted a) = a) (w : World) :
    addRemoteService inet failed env (render entries) w
      = (true, (appearances entries).foldl (fun w p => (ProxyMgr.addSvr env p.1 p.2 w).2) w) := by
  have hlines : lines ';' (render entries) = entries.map Entry.render := by
    refine lines_intercalate ';' ?_
    intro piece hpiece
    obtain ⟨e, -, rfl⟩ := List.mem_map.mp hpiece
    exact ⟨e.semicolon_not_mem, e.render_ne_nil⟩
  unfold addRemoteService appearances
  rw [hlines, List.foldl_map, List.foldl_flatMap]
  congr 1
  refine List.foldl_ext _ _ _ ?_
  intro w e he
  rw [addItem_render failed env (h e he), List.foldl_map]

end

/-! ## §5. What the managers have. -/

namespace World

/-- addSvr appends a server that nobody has to the list of its key. -/
theorem addSvr_serversOf {w : World} {r : Assignment Int Addr} (h : w.Routes r) (env : Env)
    (k : Int) (a : Addr) (key : Int) :
    (ProxyMgr.addSvr env k a w).2.serversOf key
      = w.serversOf key ++ if k = key ∧ r a = none then [a] else [] := by
  have hensure : (ProxyMgr.ensureKey env k w).serversOf key = w.serversOf key := by
    unfold ProxyMgr.ensureKey
    cases hk : w.mapProxy.find k with
    | some p => rfl
    | none =>
        unfold serversOf
        by_cases hkey : key = k
        · subst hkey
          simp [hk]
        · simp [hkey]
  rcases ProxyMgr.addSvr_cases env k a h with ⟨hsome, he⟩ | ⟨w₂, hnone, hw₂, he⟩
  · -- refused: at most the key is new, with an empty list
    have hnot : ¬ (k = key ∧ r a = none) := by
      intro hc
      rw [hc.2] at hsome
      exact absurd hsome (by decide)
    rw [he, if_neg hnot, List.append_nil]
    exact hensure
  · -- the connect leaves ProxyMgr alone, whatever its outcome
    have hproxy := (register_routes env a (ProxyMgr.ensureKey env k w)).1
    obtain ⟨p, hp⟩ := ProxyMgr.ensureKey_find env k w
    rw [← hw₂] at hproxy
    rw [he, ← hensure]
    unfold serversOf
    by_cases hkey : key = k
    · subst hkey
      simp [hproxy, hp, hnone]
    · simp [hproxy, hkey, Ne.symm hkey]

end World

/-- The addresses of a key that have no earlier place in the list, in order. -/
def firstListed (key : Int) : (earlier : List Addr) → List (Int × Addr) → List Addr
  | _, [] => []
  | earlier, (k, a) :: ps =>
      if k = key ∧ a ∉ earlier then a :: firstListed key (a :: earlier) ps
      else firstListed key (a :: earlier) ps

/-- A run of addSvr over a list of pairs, when the servers that someone has are those
`earlier`. -/
theorem addAll_serversOf (env : Env) (key : Int) (ps : List (Int × Addr)) :
    ∀ {w : World} {r : Assignment Int Addr} {earlier : List Addr}, w.Routes r →
      (∀ a, r a = none ↔ a ∉ earlier) →
      (ps.foldl (fun w p => (ProxyMgr.addSvr env p.1 p.2 w).2) w).serversOf key
        = w.serversOf key ++ firstListed key earlier ps := by
  induction ps with
  | nil => exact fun _ _ => (List.append_nil _).symm
  | cons p ps ih =>
      intro w r earlier hr hfree
      obtain ⟨k, a⟩ := p
      have hfree' : ∀ b, assign k a r b = none ↔ b ∉ a :: earlier := by
        intro b
        rw [List.mem_cons, not_or, ← hfree b]
        by_cases hb : b = a
        · subst hb
          cases hrb : r b <;> simp [assign, hrb]
        · simp [assign, hb]
      have hcons : firstListed key earlier ((k, a) :: ps)
          = if k = key ∧ a ∉ earlier then a :: firstListed key (a :: earlier) ps
            else firstListed key (a :: earlier) ps := rfl
      -- the first pair, and the rest with its address among the earlier ones
      rw [List.foldl_cons, ih (hr.addSvr env k a) hfree', World.addSvr_serversOf hr, hcons]
      by_cases hnew : k = key ∧ a ∉ earlier
      · rw [if_pos hnew, if_pos ⟨hnew.1, (hfree a).mpr hnew.2⟩, List.append_assoc]
        rfl
      · rw [if_neg hnew, if_neg fun hc => hnew ⟨hc.1, (hfree a).mp hc.2⟩, List.append_nil]

theorem mem_firstListed {key : Int} {a : Addr} (ps : List (Int × Addr)) :
    ∀ {earlier : List Addr}, a ∈ firstListed key earlier ps → (key, a) ∈ ps := by
  induction ps with
  | nil => exact fun h => absurd h List.not_mem_nil
  | cons p ps ih =>
      intro earlier h
      obtain ⟨k, b⟩ := p
      unfold firstListed at h
      split at h
      next hnew =>
        rcases List.mem_cons.mp h with rfl | h
        · rw [hnew.1]
          exact List.mem_cons_self
        · exact List.mem_cons_of_mem _ (ih h)
      next => exact List.mem_cons_of_mem _ (ih h)

/-- The tables of a run of addSvr that starts on empty ones. -/
theorem addAll_routes (env : Env) (ps : List (Int × Addr)) :
    ∀ {w : World} {r : Assignment Int Addr}, w.Routes r → w.ListedExcept none →
      (ps.foldl (fun w p => (ProxyMgr.addSvr env p.1 p.2 w).2) w).ListedExcept none := by
  induction ps with
  | nil => exact fun _ hl => hl
  | cons p ps ih => exact fun hr hl => ih (hr.addSvr env p.1 p.2) (hl.addSvr hr env p.1 p.2)

namespace World

theorem Routes.of_empty {w : World} (hsvr : w.mapSvr = fun _ => none)
    (hproxy : w.mapProxy = .empty) : w.Routes (fun _ => none) where
  serves := fun key a => by simp [Serves, hproxy, UnorderedMap.empty]
  exist := fun a => by simp [SvrMgr.isSvrExist, hsvr]

theorem ListedExcept.of_empty {w : World} (hproxy : w.mapProxy = .empty) :
    w.ListedExcept none := by
  intro key p _ hp
  rw [hproxy] at hp
  exact absurd hp (by simp [UnorderedMap.empty])

/-- The list of a key has the servers of the key. -/
theorem ListedExcept.mem_serversOf {w : World} (h : w.ListedExcept none) {key : Int} {a : Addr}
    (hs : w.Serves key a) : a ∈ w.serversOf key := by
  obtain ⟨p, hp, ha⟩ := hs
  exact World.mem_serversOf.mpr ⟨p, hp, ((h key p (by simp) hp).2 a).mpr ha⟩

end World

/-- **The setting is read back.**  Started on empty managers, every server_list has the
addresses of its key in order of appearance, without those that appeared earlier, and no
other key has a server. -/
theorem setting_reads_back {inet : List Char → Addr} (failed : List Char → Int) (env : Env)
    {entries : List Entry} (h : ∀ e ∈ entries, ∀ a ∈ e.2, inet (dotted a) = a) {w : World}
    (hsvr : w.mapSvr = fun _ => none) (hproxy : w.mapProxy = .empty) :
    (∀ key, (addRemoteService inet failed env (render entries) w).2.serversOf key
        = firstListed key [] (appearances entries))
      ∧ ∀ key a, (addRemoteService inet failed env (render entries) w).2.Serves key a →
          ∃ e ∈ entries, e.1.toInt = key ∧ a ∈ e.2 := by
  have hr := World.Routes.of_empty hsvr hproxy
  have hempty : ∀ key, w.serversOf key = [] := by
    intro key
    unfold World.serversOf
    rw [hproxy]
    rfl
  have hlists : ∀ key, (addRemoteService inet failed env (render entries) w).2.serversOf key
      = firstListed key [] (appearances entries) := by
    intro key
    have hrun := @addAll_serversOf env key (appearances entries) w _ [] hr (fun a => by simp)
    rw [addRemoteService_render failed env h, hrun, hempty]
    rfl
  refine ⟨hlists, ?_⟩
  intro key a hs
  have hl : (addRemoteService inet failed env (render entries) w).2.ListedExcept none := by
    rw [addRemoteService_render failed env h]
    exact addAll_routes env (appearances entries) hr (.of_empty hproxy)
  have hmem := hl.mem_serversOf hs
  rw [hlists key] at hmem
  obtain ⟨e, he, hp⟩ := List.mem_flatMap.mp (mem_firstListed _ hmem)
  obtain ⟨b, hb, heq⟩ := List.mem_map.mp hp
  obtain ⟨hkey, rfl⟩ := Prod.mk.inj heq
  exact ⟨e, he, hkey, hb⟩

/-- ACE_INET_Addr on two texts. -/
def twoAddrs (strAddr : List Char) : Addr :=
  if strAddr = "127.0.0.1:80".toList then (0x7f000001, 80) else (0x0a000002, 8080)

/-- Two keys, and an address that both have: the second key does not get it. -/
theorem setting_reads_back_two_keys :
    (addRemoteService twoAddrs (fun _ => 0) .dial
        "5*127.0.0.1:80,10.0.0.2:8080;-3*127.0.0.1:80".toList World.start).2.serversOf 5
        = [(0x7f000001, 80), (0x0a000002, 8080)]
      ∧ (addRemoteService twoAddrs (fun _ => 0) .dial
        "5*127.0.0.1:80,10.0.0.2:8080;-3*127.0.0.1:80".toList World.start).2.serversOf (-3)
        = [] := by
  have htext : "5*127.0.0.1:80,10.0.0.2:8080;-3*127.0.0.1:80".toList
      = render [(5, [(0x7f000001, 80), (0x0a000002, 8080)]), (-3, [(0x7f000001, 80)])] := by
    decide
  have hfirst : twoAddrs (dotted (0x7f000001, 80)) = (0x7f000001, 80) := by decide
  have hsecond : twoAddrs (dotted (0x0a000002, 8080)) = (0x0a000002, 8080) := by decide
  have hinet : ∀ e ∈ ([(5, [(0x7f000001, 80), (0x0a000002, 8080)]), (-3, [(0x7f000001, 80)])] :
      List Entry), ∀ a ∈ e.2, twoAddrs (dotted a) = a := by
    rw [List.forall_mem_cons, List.forall_mem_cons, List.forall_mem_singleton,
      List.forall_mem_singleton, List.forall_mem_singleton]
    exact ⟨⟨hfirst, hsecond⟩, hfirst⟩
  have hread := (setting_reads_back (fun _ => 0) .dial hinet (w := World.start) rfl rfl).1
  rw [htext]
  exact ⟨hread 5, hread (-3)⟩

end TcpFramework
