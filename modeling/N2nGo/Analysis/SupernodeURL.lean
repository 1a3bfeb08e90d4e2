import N2nGo.Lib.Split
import N2nGo.Model.Edge.Up

/-!
# The URL of the supernode

Two parts of the program read the URL as text. `up` writes the community behind it, without
escaping, unless the text `?community=` is in it already. `setupNetworkComponents` takes what
stands before the first `/` for the address. `hostToResolve_iff` and `community_agrees_iff`
say for which URLs each of them is right.
-/

set_option autoImplicit false

namespace N2nGo.EdgeUp

open N2nGo.Lib

/-! ## What `up` does to the settings -/

section Up

section

variable (cfg : Config)

theorem enableTransports_keeps (args : Args) :
    (enableTransports cfg args).community = cfg.community ∧
      (enableTransports cfg args).supernodeURL = cfg.supernodeURL ∧
      (enableTransports cfg args).supernodeAddr = cfg.supernodeAddr := by
  simp only [enableTransports]
  split
  · split
    · exact ⟨rfl, rfl, rfl⟩
    · split
      · exact ⟨rfl, rfl, rfl⟩
      · exact ⟨rfl, rfl, rfl⟩
  · exact ⟨rfl, rfl, rfl⟩

/-- The part of the settings that the command line merges without reading it. -/
def untouched (cfg : Config) : Bytes × Bool := (cfg.supernodeAddr, cfg.wsEnabled)

theorem untouched_appendCommunity : untouched (appendCommunity cfg) = untouched cfg := by
  simp only [appendCommunity]
  split
  · rfl
  · rfl

theorem untouched_merged (args : Args) : untouched (merged cfg args) = untouched cfg := by
  have hpositional : untouched (withPositional cfg args) = untouched cfg := by
    simp only [withPositional]
    split
    · rfl
    · rfl
  have hcommunity : ∀ c : Config, untouched (withCommunity c args) = untouched c := by
    intro c
    simp only [withCommunity]
    split
    · split
      · rfl
      · rfl
    · rfl
  have hsupernode : ∀ c : Config, untouched (withSupernode c args) = untouched c := by
    intro c
    simp only [withSupernode]
    split
    · rfl
    · rfl
  rw [merged, hsupernode, hcommunity, hpositional]

theorem untouched_prepared (args : Args) :
    untouched (appendCommunity (merged cfg args)) = untouched cfg :=
  (untouched_appendCommunity _).trans (untouched_merged cfg args)

theorem up_supernodeAddr (args : Args) : (up cfg args).supernodeAddr = cfg.supernodeAddr :=
  (enableTransports_keeps _ args).2.2.trans (congrArg Prod.fst (untouched_prepared cfg args))

theorem up_supernodeURL (args : Args) :
    (up cfg args).supernodeURL = (appendCommunity (merged cfg args)).supernodeURL :=
  (enableTransports_keeps _ args).2.1

/-- With a `wss` URL, only the setting and the flag enable `ws`. -/
theorem up_wsEnabled {args : Args} (h : wssScheme.isPrefixOf (up cfg args).supernodeURL = true) :
    (up cfg args).wsEnabled = args.ws.getD cfg.wsEnabled := by
  have hurl := (enableTransports_keeps (appendCommunity (merged cfg args)) args).2.1
  have hne : (appendCommunity (merged cfg args)).supernodeURL ≠ [] := by
    rintro hnil
    rw [up, hurl, hnil] at h
    cases h
  rw [up, hurl] at h
  have hws : (appendCommunity (merged cfg args)).wsEnabled = cfg.wsEnabled :=
    congrArg Prod.snd (untouched_prepared cfg args)
  simp only [up, enableTransports, if_pos hne, if_pos h]
  rw [hws]

theorem up_community (args : Args) :
    (up cfg args).community = (appendCommunity (merged cfg args)).community :=
  (enableTransports_keeps _ args).1

end

/-- The community of the settings, or the default one. -/
def effectiveCommunity (cfg : Config) : Bytes :=
  if cfg.community = [] then defaultCommunity else cfg.community

theorem contains_question {s : Bytes} : Url.contains s (ascii "?") = true ↔ 63 ∈ s :=
  Url.contains_singleton

theorem contains_colon {s : Bytes} : Url.contains s (ascii ":") = true ↔ 58 ∈ s :=
  Url.contains_singleton

theorem appendCommunity_of_contains {cfg : Config}
    (h : Url.contains cfg.supernodeURL communityParam = true) : appendCommunity cfg = cfg :=
  if_neg fun hboth => hboth.2 h

theorem appendCommunity_of_not_contains {cfg : Config} (hurl : cfg.supernodeURL ≠ [])
    (h : ¬ Url.contains cfg.supernodeURL communityParam = true) :
    appendCommunity cfg =
      { cfg with
        supernodeURL := cfg.supernodeURL ++
          (if 63 ∈ cfg.supernodeURL then 38 else 63) ::
            (ascii "community=" ++ effectiveCommunity cfg)
        community := effectiveCommunity cfg } := by
  have hseparator : (if Url.contains cfg.supernodeURL (ascii "?") = true then ascii "&"
      else ascii "?") = [if 63 ∈ cfg.supernodeURL then (38 : UInt8) else 63] := by
    by_cases hmem : 63 ∈ cfg.supernodeURL
    · rw [if_pos hmem, if_pos (contains_question.mpr hmem)]
      rfl
    · rw [if_neg hmem, if_neg fun hsub => hmem (contains_question.mp hsub)]
      rfl
  have hcommunity : (if cfg.community = [] then effectiveCommunity cfg else cfg.community) =
      effectiveCommunity cfg := by
    unfold effectiveCommunity
    split
    · rfl
    · rfl
  have happend : appendCommunity cfg =
      { cfg with
        supernodeURL := cfg.supernodeURL ++
          (if Url.contains cfg.supernodeURL (ascii "?") = true then ascii "&" else ascii "?") ++
          ascii "community=" ++ effectiveCommunity cfg
        community := if cfg.community = [] then effectiveCommunity cfg else cfg.community } :=
    if_pos ⟨hurl, h⟩
  rw [happend, hseparator, hcommunity]
  simp only [List.append_assoc, List.cons_append, List.nil_append]

theorem exists_appendCommunity {cfg : Config} (hurl : cfg.supernodeURL ≠ []) :
    ∃ more, (appendCommunity cfg).supernodeURL = cfg.supernodeURL ++ more ∧
      (63 ∉ cfg.supernodeURL → more.head? = some 63) := by
  by_cases h : Url.contains cfg.supernodeURL communityParam = true
  · refine ⟨[], by rw [appendCommunity_of_contains h, List.append_nil], fun hnot => ?_⟩
    exact absurd ((Url.contains_iff.mp h).subset (by decide)) hnot
  · rw [appendCommunity_of_not_contains hurl h]
    refine ⟨_, rfl, fun hnot => ?_⟩
    rw [if_neg hnot]
    rfl

end Up

/-! ## The address -/

/-- A host, with a port or without. -/
structure Authority where
  host : Bytes
  port : Option Bytes
  slash : 47 ∉ host ∧ ∀ p ∈ port, 47 ∉ p
  question : 63 ∉ host ∧ ∀ p ∈ port, 63 ∉ p
  port_ne_nil : ∀ p ∈ port, p ≠ []

def Authority.bytes (a : Authority) : Bytes :=
  match a.port with
  | some p => a.host ++ 58 :: p
  | none => a.host

/-- A URL of one of the two schemes: an authority, perhaps a path, perhaps a query. -/
structure SupernodeURL where
  secure : Bool
  authority : Authority
  path : Bytes
  query : Bytes
  path_head : path = [] ∨ path.head? = some 47
  path_question : 63 ∉ path
  query_head : query = [] ∨ query.head? = some 63

namespace SupernodeURL

def scheme (u : SupernodeURL) : Bytes := if u.secure then wssScheme else wsScheme

def defaultPort (u : SupernodeURL) : Bytes := if u.secure then ascii ":443" else ascii ":8080"

def bytes (u : SupernodeURL) : Bytes := u.scheme ++ u.authority.bytes ++ u.path ++ u.query

/-- The authority, with the default port of the scheme if it has none. -/
def address (u : SupernodeURL) : Bytes :=
  match u.authority.port with
  | some _ => u.authority.bytes
  | none => u.authority.bytes ++ u.defaultPort

end SupernodeURL

section Address

variable {u : SupernodeURL} {a : Authority}

theorem Authority.not_mem_bytes {b : UInt8} (hb : b ≠ 58) (hhost : b ∉ a.host)
    (hport : ∀ p ∈ a.port, b ∉ p) : b ∉ a.bytes := by
  unfold Authority.bytes
  split
  · next p hp =>
    rw [List.mem_append, List.mem_cons, not_or, not_or]
    exact ⟨hhost, hb, hport p hp⟩
  · exact hhost

theorem Authority.slash_not_mem (a : Authority) : 47 ∉ a.bytes :=
  Authority.not_mem_bytes (by decide) a.slash.1 a.slash.2

theorem address_eq (u : SupernodeURL) : ∃ port, u.address = u.authority.bytes ++ port ∧
    (port = [] ∨ port.head? = some 58) := by
  unfold SupernodeURL.address
  split
  · exact ⟨[], (List.append_nil _).symm, .inl rfl⟩
  · refine ⟨u.defaultPort, rfl, .inr ?_⟩
    unfold SupernodeURL.defaultPort
    split
    · rfl
    · rfl

theorem hostOf_of_scheme (scheme port rest : Bytes) :
    hostOf scheme port (scheme ++ rest) =
      if 58 ∈ Url.before 47 rest then Url.before 47 rest else Url.before 47 rest ++ port := by
  have hscheme : scheme.isPrefixOf (scheme ++ rest) = true :=
    List.isPrefixOf_iff_prefix.mpr (List.prefix_append _ _)
  simp only [hostOf, hscheme, if_true, List.drop_left]
  by_cases hcolon : 58 ∈ Url.before 47 rest
  · rw [if_pos hcolon, if_neg (not_not.mpr (contains_colon.mpr hcolon))]
  · rw [if_neg hcolon, if_pos (mt contains_colon.mp hcolon)]

theorem hostOf_ne_address {rest : Bytes} (hrest : rest.head? = some 63) :
    hostOf u.scheme u.defaultPort (u.scheme ++ (u.authority.bytes ++ rest)) ≠ u.address := by
  intro heq
  obtain ⟨tail, rfl⟩ := List.head?_eq_some_iff.mp hrest
  have hcut : Url.before 47 (63 :: tail) = 63 :: Url.before 47 tail :=
    List.takeWhile_cons_of_pos (by decide)
  obtain ⟨port, haddress, hport⟩ := address_eq u
  rw [hostOf_of_scheme, Url.before_append_of_not_mem u.authority.slash_not_mem, hcut,
    haddress] at heq
  have hsame : ∃ back, 63 :: back = port := by
    split at heq
    · exact ⟨_, List.append_cancel_left heq⟩
    · rw [List.append_assoc] at heq
      exact ⟨_, List.append_cancel_left heq⟩
  obtain ⟨back, rfl⟩ := hsame
  rcases hport with hport | hport
  · cases hport
  · exact absurd (Option.some.inj hport) (by decide)

theorem scheme_ne_nil (u : SupernodeURL) : u.scheme ≠ [] := by
  unfold SupernodeURL.scheme
  split
  · exact List.cons_ne_nil _ _
  · exact List.cons_ne_nil _ _

theorem defaultPort_ne_nil (u : SupernodeURL) : u.defaultPort ≠ [] := by
  unfold SupernodeURL.defaultPort
  split
  · exact List.cons_ne_nil _ _
  · exact List.cons_ne_nil _ _

/-- Where a path ends the authority, only a colon in the host can be taken for a port. -/
theorem hostOf_eq_address_of_path {rest : Bytes} (hrest : rest.head? = some 47) :
    hostOf u.scheme u.defaultPort (u.scheme ++ (u.authority.bytes ++ rest)) = u.address ↔
      u.authority.port.isSome = true ∨ 58 ∉ u.authority.host := by
  obtain ⟨tail, rfl⟩ := List.head?_eq_some_iff.mp hrest
  have hcut : Url.before 47 (47 :: tail) = [] := List.takeWhile_cons_of_neg (by simp)
  rw [hostOf_of_scheme, Url.before_append_of_not_mem u.authority.slash_not_mem, hcut,
    List.append_nil]
  unfold SupernodeURL.address Authority.bytes
  cases hport : u.authority.port with
  | some p => simp
  | none =>
    have hne := defaultPort_ne_nil u
    by_cases hcolon : 58 ∈ u.authority.host
    · simp [hcolon, hne]
    · simp [hcolon]

theorem hostOf_eq_address_iff {more : Bytes}
    (hmore : u.path = [] → u.query = [] → more.head? = some 63) :
    hostOf u.scheme u.defaultPort (u.bytes ++ more) = u.address ↔
      u.path ≠ [] ∧ (u.authority.port.isSome = true ∨ 58 ∉ u.authority.host) := by
  have hbytes : u.bytes ++ more =
      u.scheme ++ (u.authority.bytes ++ (u.path ++ (u.query ++ more))) := by
    simp only [SupernodeURL.bytes, List.append_assoc]
  rw [hbytes]
  by_cases hpath : u.path = []
  · have htail : (u.path ++ (u.query ++ more)).head? = some 63 := by
      rw [hpath, List.nil_append]
      rcases u.query_head with hquery | hquery
      · rw [hquery, List.nil_append]
        exact hmore hpath hquery
      · rw [List.head?_append, hquery]
        rfl
    exact iff_of_false (hostOf_ne_address htail) fun hright => hright.1 hpath
  · have htail : (u.path ++ (u.query ++ more)).head? = some 47 := by
      rw [List.head?_append, u.path_head.resolve_left hpath]
      rfl
    rw [hostOf_eq_address_of_path htail]
    exact ⟨fun h => ⟨hpath, h⟩, And.right⟩

theorem question_not_mem_bytes (hquery : u.query = []) : 63 ∉ u.bytes := by
  have hscheme : 63 ∉ u.scheme := by
    unfold SupernodeURL.scheme
    split
    · decide
    · decide
  have hauthority : 63 ∉ u.authority.bytes :=
    Authority.not_mem_bytes (by decide) u.authority.question.1 u.authority.question.2
  simp only [SupernodeURL.bytes, hquery, List.append_nil, List.mem_append, not_or]
  exact ⟨⟨hscheme, hauthority⟩, u.path_question⟩

theorem address_ne_scheme (u : SupernodeURL) : u.address ≠ ascii "wss:" := by
  unfold SupernodeURL.address Authority.bytes
  cases hport : u.authority.port with
  | some p =>
    intro heq
    have hne := u.authority.port_ne_nil p hport
    -- the only colon is the last byte
    have hlast := congrArg (fun s => (s.dropLast : Bytes)) heq
    simp only [List.dropLast_append_of_ne_nil (List.cons_ne_nil 58 p),
      List.dropLast_cons_of_ne_nil hne] at hlast
    have hmem : (58 : UInt8) ∈ (ascii "wss:").dropLast := by
      rw [← hlast]
      exact List.mem_append_right _ List.mem_cons_self
    exact absurd hmem (by decide)
  | none =>
    intro heq
    have hlast := congrArg List.getLast? heq
    simp only [List.getLast?_append] at hlast
    unfold SupernodeURL.defaultPort at hlast
    split at hlast
    · have hdigit : some (51 : UInt8) = some 58 := hlast
      exact absurd hdigit (by decide)
    · have hdigit : some (48 : UInt8) = some 58 := hlast
      exact absurd hdigit (by decide)

/-- Which branch derives the address; that of `ws` takes the scheme `wss:` for it. -/
theorem hostToResolve_eq {cfg : Config} {rest : Bytes} (haddr : cfg.supernodeAddr = [])
    (hurl : cfg.supernodeURL = u.scheme ++ rest) :
    hostToResolve cfg = if u.secure = true ∧ cfg.wsEnabled = true then ascii "wss:"
      else hostOf u.scheme u.defaultPort (u.scheme ++ rest) := by
  have hbegins : u.scheme.isPrefixOf (u.scheme ++ rest) = true :=
    List.isPrefixOf_iff_prefix.mpr (List.prefix_append _ _)
  have hne : u.scheme ++ rest ≠ [] := List.append_ne_nil_of_left_ne_nil (scheme_ne_nil u) rest
  simp only [hostToResolve, hurl, haddr]
  cases hsecure : u.secure with
  | false =>
    have hscheme : u.scheme = wsScheme := by
      rw [SupernodeURL.scheme, hsecure]
      rfl
    have hport : u.defaultPort = ascii ":8080" := by
      rw [SupernodeURL.defaultPort, hsecure]
      rfl
    rw [if_pos ⟨.inr (hscheme ▸ hbegins), hne⟩, if_neg (not_not.mpr rfl),
      if_neg fun h => Bool.false_ne_true h.1, hscheme, hport]
  | true =>
    have hscheme : u.scheme = wssScheme := by
      rw [SupernodeURL.scheme, hsecure]
      rfl
    have hport : u.defaultPort = ascii ":443" := by
      rw [SupernodeURL.defaultPort, hsecure]
      rfl
    have hws : ¬ wsScheme.isPrefixOf (u.scheme ++ rest) = true := by
      rw [hscheme]
      exact Bool.false_ne_true
    by_cases henabled : cfg.wsEnabled = true
    · have hleft : hostOf wsScheme (ascii ":8080") (u.scheme ++ rest) = ascii "wss:" := by
        rw [hostOf, if_neg hws, hscheme]
        rfl
      rw [if_pos ⟨.inl henabled, hne⟩, if_neg (not_not.mpr rfl), hleft, if_pos ⟨rfl, henabled⟩]
    · rw [if_neg (fun hboth => hboth.1.elim henabled hws), if_pos ⟨.inr (hscheme ▸ hbegins), hne⟩,
        if_neg (not_not.mpr rfl), if_neg fun h => henabled h.2, hscheme, hport]

/-- **The address is derived rightly exactly if the URL has a path**, its host has no colon of its
own unless there is a port, and a `wss` URL does not meet an enabled `ws` transport.
GOLINE: cmd/edge/edge_up.go:150-212, edge/setup.go:29-71, 83-130 -/
theorem hostToResolve_iff (cfg : Config) (args : Args) (u : SupernodeURL)
    (haddr : cfg.supernodeAddr = []) (hurl : (merged cfg args).supernodeURL = u.bytes) :
    hostToResolve (up cfg args) = u.address ↔
      (u.path ≠ [] ∧ (u.authority.port.isSome = true ∨ 58 ∉ u.authority.host)) ∧
        (u.secure = false ∨ args.ws.getD cfg.wsEnabled = false) := by
  have hne : (merged cfg args).supernodeURL ≠ [] := by
    rw [hurl, SupernodeURL.bytes, List.append_assoc, List.append_assoc]
    exact List.append_ne_nil_of_left_ne_nil (scheme_ne_nil u) _
  obtain ⟨more, hmore, hquestion⟩ := exists_appendCommunity hne
  rw [hurl] at hmore hquestion
  have hbytes : u.bytes ++ more =
      u.scheme ++ (u.authority.bytes ++ u.path ++ u.query ++ more) := by
    simp only [SupernodeURL.bytes, List.append_assoc]
  have hup : (up cfg args).supernodeURL =
      u.scheme ++ (u.authority.bytes ++ u.path ++ u.query ++ more) := by
    rw [up_supernodeURL, hmore, hbytes]
  have hhost := hostOf_eq_address_iff (u := u) (fun _ hquery =>
    hquestion (question_not_mem_bytes hquery))
  have hws : u.secure = true → (up cfg args).wsEnabled = args.ws.getD cfg.wsEnabled := by
    intro hsecure
    refine up_wsEnabled cfg ?_
    rw [hup, SupernodeURL.scheme, hsecure]
    exact List.isPrefixOf_iff_prefix.mpr (List.prefix_append _ _)
  rw [hostToResolve_eq ((up_supernodeAddr cfg args).trans haddr) hup, ← hbytes]
  split
  · next hboth =>
    refine iff_of_false (address_ne_scheme u).symm fun hright => ?_
    rw [← hws hboth.1, hboth.1, hboth.2] at hright
    exact hright.2.elim Bool.noConfusion Bool.noConfusion
  · next hboth =>
    rw [hhost]
    refine ⟨fun h => ⟨h, ?_⟩, And.left⟩
    rw [← Bool.not_eq_true, ← Bool.not_eq_true, ← not_and_or]
    exact fun hright => hboth ⟨hright.1, (hws hright.1).trans hright.2⟩

end Address

/-! ## The community -/

section Community

def communityKey : Bytes := ascii "community"

def noArgs : Args := ⟨[], none, none, none, none⟩

/-- The URL has the community of the settings as its only one, and starting again changes
neither. -/
structure Agrees (cfg : Config) : Prop where
  values : Url.queryValues cfg.supernodeURL communityKey = [cfg.community]
  again : (up cfg noArgs).supernodeURL = cfg.supernodeURL ∧
    (up cfg noArgs).community = cfg.community

variable {cfg : Config} {url c : Bytes}

theorem plainKey_communityKey : Url.PlainKey communityKey where
  ampersand := by decide
  hash := by decide
  semicolon := by decide
  percent := by decide
  plus := by decide
  equals := by decide

theorem up_noArgs_iff (hurl : cfg.supernodeURL ≠ []) :
    ((up cfg noArgs).supernodeURL = cfg.supernodeURL ∧
        (up cfg noArgs).community = cfg.community) ↔
      Url.contains cfg.supernodeURL communityParam = true := by
  have hmerged : merged cfg noArgs = cfg := rfl
  rw [up_supernodeURL, up_community, hmerged]
  constructor
  · rintro ⟨hsame, -⟩
    by_contra h
    rw [appendCommunity_of_not_contains hurl h] at hsame
    have hlen := congrArg List.length hsame
    simp only [List.length_append, List.length_cons] at hlen
    omega
  · intro h
    rw [appendCommunity_of_contains h]
    exact ⟨rfl, rfl⟩

theorem agrees_iff (hurl : cfg.supernodeURL ≠ []) :
    Agrees cfg ↔ Url.queryValues cfg.supernodeURL communityKey = [cfg.community] ∧
      Url.contains cfg.supernodeURL communityParam = true := by
  rw [← up_noArgs_iff hurl]
  exact ⟨fun h => ⟨h.values, h.again⟩, fun h => ⟨h.1, h.2⟩⟩

/-- A URL without `?` gets the community as its query, unless a fragment swallows it. -/
theorem queryValues_question (hquestion : 63 ∉ url) :
    Url.queryValues (url ++ 63 :: (ascii "community=" ++ c)) communityKey = [c] ↔
      35 ∉ url ∧ Url.Plain c := by
  by_cases hhash : 35 ∈ url
  · have hempty : Url.rawQuery (url ++ 63 :: (ascii "community=" ++ c)) = [] := by
      rw [Url.rawQuery, Url.before_append_of_mem hhash]
      refine Url.after_eq_nil fun hmem => hquestion ?_
      exact (List.takeWhile_prefix _).subset hmem
    rw [Url.queryValues_eq, hempty]
    refine ⟨fun hnone => ?_, fun hright => absurd hhash hright.1⟩
    have hnil : Url.valuesIn [] communityKey = [] := by decide
    rw [hnil] at hnone
    cases hnone
  · have hquery : Url.rawQuery (url ++ 63 :: (ascii "community=" ++ c)) =
        Url.rawQuery (63 :: (communityKey ++ 61 :: c)) := by
      rw [Url.rawQuery, Url.before_append_of_not_mem hhash, Url.after_append_of_not_mem hquestion]
      rfl
    rw [Url.queryValues_eq, hquery, ← Url.queryValues_eq,
      Url.queryValues_raw_iff plainKey_communityKey]
    exact ⟨fun hplain => ⟨hhash, hplain⟩, And.right⟩

/-- A URL with `?` keeps its values; what is appended counts unless a fragment swallows it. -/
theorem queryValues_ampersand (hquestion : 63 ∈ url) :
    Url.queryValues (url ++ 38 :: (ascii "community=" ++ c)) communityKey =
      Url.queryValues url communityKey ++
        if 35 ∈ url then [] else Url.queryValues (communityParam ++ c) communityKey := by
  by_cases hhash : 35 ∈ url
  · have hquery : Url.rawQuery (url ++ 38 :: (ascii "community=" ++ c)) = Url.rawQuery url := by
      rw [Url.rawQuery, Url.before_append_of_mem hhash]
      rfl
    rw [if_pos hhash, List.append_nil, Url.queryValues_eq, hquery]
    rfl
  · have htail : Url.before 35 (38 :: (ascii "community=" ++ c)) =
        38 :: Url.before 35 (ascii "community=" ++ c) := List.takeWhile_cons_of_pos (by decide)
    have hparam : Url.rawQuery (communityParam ++ c) = Url.before 35 (ascii "community=" ++ c) := by
      have hcons : communityParam ++ c = 63 :: (ascii "community=" ++ c) := rfl
      have hcut : Url.before 35 (63 :: (ascii "community=" ++ c)) =
          63 :: Url.before 35 (ascii "community=" ++ c) := List.takeWhile_cons_of_pos (by decide)
      rw [Url.rawQuery, hcons, hcut, Url.after_cons_self]
    have hquery : Url.rawQuery (url ++ 38 :: (ascii "community=" ++ c)) =
        Url.rawQuery url ++ 38 :: Url.rawQuery (communityParam ++ c) := by
      rw [hparam, Url.rawQuery, Url.before_append_of_not_mem hhash, htail,
        Url.after_append_of_mem hquestion, Url.rawQuery, Url.before_eq_self hhash]
    rw [if_neg hhash, Url.queryValues_eq, hquery, Url.valuesIn_append]
    rfl

/-- Behind `&` the community is the only one in two cases: it counts and there was none, or it
does not count and was there. -/
theorem queryValues_ampersand_iff (hquestion : 63 ∈ url) :
    Url.queryValues (url ++ 38 :: (ascii "community=" ++ c)) communityKey = [c] ↔
      Url.queryValues url communityKey = [] ∧ 35 ∉ url ∧ Url.Plain c ∨
        Url.queryValues url communityKey = [c] ∧
          (35 ∈ url ∨ Url.queryValues (communityParam ++ c) communityKey = []) := by
  rw [queryValues_ampersand hquestion]
  by_cases hhash : 35 ∈ url
  · simp [hhash]
  · have hraw : Url.queryValues (communityParam ++ c) communityKey = [c] ↔ Url.Plain c :=
      Url.queryValues_raw_iff plainKey_communityKey
    rw [if_neg hhash, List.append_eq_singleton_iff, hraw]
    simp only [hhash, not_false_eq_true, true_and, false_or]

theorem contains_question_append (url c : Bytes) :
    Url.contains (url ++ 63 :: (ascii "community=" ++ c)) communityParam = true := by
  refine Url.contains_iff.mpr ⟨url, c, ?_⟩
  rw [List.append_assoc]
  rfl

theorem contains_ampersand (h : ¬ Url.contains url communityParam = true) :
    Url.contains (url ++ 38 :: (ascii "community=" ++ c)) communityParam = true ↔
      Url.contains c communityParam = true := by
  rw [Url.contains_iff] at h ⊢
  rw [Url.contains_iff]
  constructor
  · intro hinfix
    have hback := (infix_of_infix_append_cons hinfix (by decide)).resolve_left h
    exact Url.infix_of_not_mem (by decide) hback
  · intro hinfix
    exact hinfix.trans ((List.suffix_append _ _).trans
      ((List.suffix_cons _ _).trans (List.suffix_append _ _))).isInfix

/-- For which URLs and communities the two agree after `up`. -/
def AgreeRight (url community c : Bytes) : Prop :=
  if Url.contains url communityParam = true then
    Url.queryValues url communityKey = [community]
  else if 63 ∉ url then 35 ∉ url ∧ Url.Plain c
  else Url.contains c communityParam = true ∧
    (Url.queryValues url communityKey = [] ∧ 35 ∉ url ∧ Url.Plain c ∨
      Url.queryValues url communityKey = [c] ∧
        (35 ∈ url ∨ Url.queryValues (communityParam ++ c) communityKey = []))

/-- **URL and settings name the same community exactly in these cases.** A URL with the text
`?community=` has to have the right value already. A URL without a query gets it, if it has no
fragment and the value needs no escaping. A URL with another query gets it behind `&`, where
the next start does not see it, unless the community itself contains `?community=`.
GOLINE: cmd/edge/edge_up.go:150-203 -/
theorem community_agrees_iff (cfg : Config) (args : Args)
    (hurl : (merged cfg args).supernodeURL ≠ []) :
    Agrees (up cfg args) ↔
      AgreeRight (merged cfg args).supernodeURL (merged cfg args).community
        (effectiveCommunity (merged cfg args)) := by
  have hup := up_supernodeURL cfg args
  have hcomm := up_community cfg args
  by_cases h : Url.contains (merged cfg args).supernodeURL communityParam = true
  · rw [appendCommunity_of_contains h] at hup hcomm
    rw [agrees_iff (by rwa [hup]), hup, hcomm, AgreeRight, if_pos h]
    exact and_iff_left h
  · rw [appendCommunity_of_not_contains hurl h] at hup hcomm
    simp only at hup hcomm
    have hne : (up cfg args).supernodeURL ≠ [] := by
      rw [hup]
      exact List.append_ne_nil_of_left_ne_nil hurl _
    rw [agrees_iff hne, hup, hcomm, AgreeRight, if_neg h]
    by_cases hquestion : 63 ∈ (merged cfg args).supernodeURL
    · rw [if_pos hquestion, if_neg (not_not.mpr hquestion), contains_ampersand h,
        queryValues_ampersand_iff hquestion, and_comm]
    · rw [if_neg hquestion, if_pos hquestion, queryValues_question hquestion]
      exact and_iff_left (contains_question_append _ _)

end Community

namespace Sample

/-- Settings of which nothing is set. -/
def unset : Config := ⟨[], [], [], false, false⟩

/-- The arguments `-s url -c community`. -/
def flags (url community : String) : Args :=
  ⟨[], some (ascii community), some (ascii url), none, none⟩

/-- `wss://h/n2n`. -/
def withPath : SupernodeURL where
  secure := true
  authority := ⟨ascii "h", none, by decide, by decide, by simp⟩
  path := ascii "/n2n"
  query := []
  path_head := .inr rfl
  path_question := by decide
  query_head := .inl rfl

theorem hostToResolve_with_path :
    hostToResolve (up unset (flags "wss://h/n2n" "acme")) = ascii "h:443" := by
  have hurl : (merged unset (flags "wss://h/n2n" "acme")).supernodeURL = withPath.bytes := by
    decide +kernel
  have haddress : withPath.address = ascii "h:443" := by decide +kernel
  rw [← haddress]
  exact (hostToResolve_iff unset (flags "wss://h/n2n" "acme") withPath rfl hurl).mpr
    ⟨⟨by decide, .inr (by decide)⟩, .inr rfl⟩

/-- Without a path, the community is part of the address. -/
theorem hostToResolve_without_path :
    hostToResolve (up unset (flags "wss://h:443" "acme")) = ascii "h:443?community=acme" := by
  decide +kernel

theorem community_agrees_path : Agrees (up unset (flags "wss://h/n2n" "acme")) := by
  refine (community_agrees_iff unset (flags "wss://h/n2n" "acme") (by decide +kernel)).mpr ?_
  rw [AgreeRight, if_neg (by decide +kernel), if_pos (by decide +kernel)]
  exact ⟨by decide +kernel, by decide +kernel, by decide +kernel, by decide +kernel,
    by decide +kernel, by decide +kernel⟩

/-- The URL keeps a community that the settings do not have. Behind another parameter the
community is appended at every start. -/
theorem community_disagrees :
    (Url.queryValues (up unset (flags "wss://h/n2n?community=foo" "bar")).supernodeURL
        communityKey = [ascii "foo"] ∧
      (up unset (flags "wss://h/n2n?community=foo" "bar")).community = ascii "bar") ∧
    (up (up unset (flags "wss://h/n2n?x=1" "acme")) noArgs).supernodeURL =
      ascii "wss://h/n2n?x=1&community=acme&community=acme" := by
  decide +kernel

end Sample

end N2nGo.EdgeUp
