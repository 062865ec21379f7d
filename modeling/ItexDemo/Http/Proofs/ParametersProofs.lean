import Mathlib.Algebra.GroupWithZero.Nat
import Mathlib.Algebra.Order.BigOperators.Group.List
import Mathlib.Algebra.Order.Group.Nat
import ItexDemo.Http.Proofs.RouterProofs

/-!
# Proofs: the names of route parameters

A node has the name that the first rule through it gave to it (`nameAt_ofRules`). A lookup binds the
segments of a path under the names of the nodes that it goes through, whichever rule it ends at.
-/

namespace Http

variable {H : Type*}

namespace Node

/-- The name of the node that the keys `ks` lead to. -/
def nameAt (node : Node H) (ks : List Str) : Option Str := (node.walk ks).map name

/-- The names and values that a lookup of the segments stores. -/
def bindings (node : Node H) : List Str → List (Str × Str)
  | [] => []
  | s :: ss =>
    let key := if (AssocMap.find node.children s).isSome then s else paramKey
    match AssocMap.find node.children key with
    | none => []
    | some child => (if key = paramKey then [(child.name, s)] else []) ++ child.bindings ss

end Node

/-- The parameters of a lookup are its bindings. -/
theorem get_params {tokens : List Str} {node : Node H} {params params' : List (Str × Str)}
    {method : Method} {h : H} (hget : node.get tokens params method = some (h, params')) :
    params' = AssocMap.assignAll params (node.bindings (tokens.filter (· ≠ []))) := by
  induction tokens generalizing node params with
  | nil =>
    obtain ⟨h', -, heq⟩ := Option.map_eq_some_iff.mp hget
    exact (Prod.mk.inj heq).2.symm
  | cons token rest ih =>
    by_cases ht : token = []
    · subst ht
      have hfilter : (([] : Str) :: rest).filter (· ≠ []) = rest.filter (· ≠ []) := by simp
      rw [hfilter]
      exact ih (by simpa [Node.get] using hget)
    · have hfilter : (token :: rest).filter (· ≠ []) = token :: rest.filter (· ≠ []) := by
        simp [ht]
      rw [hfilter, Node.bindings]
      simp only [Node.get, if_neg ht] at hget
      set key := if (AssocMap.find node.children token).isSome = true then token else paramKey
      cases hchild : AssocMap.find node.children key with
      | none =>
        rw [hchild] at hget
        cases hget
      | some child =>
        rw [hchild] at hget
        rw [ih hget]
        unfold AssocMap.assignAll
        rw [List.foldl_append]
        split_ifs <;> rfl

theorem nameAt_cons (node : Node H) (k : Str) (ks : List Str) :
    node.nameAt (k :: ks) = (AssocMap.find node.children k).bind fun child => child.nameAt ks := by
  show ((AssocMap.find node.children k).bind fun child => child.walk ks).map Node.name = _
  cases AssocMap.find node.children k <;> rfl

/-- A binding is the segment at a parameter of the route, with the name of its node. -/
theorem mem_bindings_iff {node : Node H} {ss : List Str} {name value : Str} :
    (name, value) ∈ node.bindings ss ↔ ∃ n : Nat, (route node.has ss)[n]? = some paramKey ∧
      ss[n]? = some value ∧ node.nameAt ((route node.has ss).take (n + 1)) = some name := by
  induction ss generalizing node with
  | nil => simp [Node.bindings]
  | cons s ss ih =>
    have hhas : node.has [s] = (AssocMap.find node.children s).isSome := by
      unfold Node.has Node.walk
      cases AssocMap.find node.children s <;> rfl
    rw [Node.bindings, route, hhas]
    set key := if (AssocMap.find node.children s).isSome = true then s else paramKey
    cases hchild : AssocMap.find node.children key with
    | none =>
      constructor
      · exact fun h => absurd h List.not_mem_nil
      · rintro ⟨n, -, -, hname⟩
        rw [List.take_succ_cons, nameAt_cons, hchild] at hname
        cases hname
    | some child =>
      have hshift : (fun ks => node.has (key :: ks)) = child.has := by
        funext ks
        simp [Node.has, Node.walk, hchild]
      have hname : ∀ ks, node.nameAt (key :: ks) = child.nameAt ks := by
        intro ks
        rw [nameAt_cons, hchild, Option.bind_some]
      dsimp only
      rw [hshift, List.mem_append, ih]
      constructor
      · rintro (hfirst | ⟨n, hkey, hvalue, hn⟩)
        · split_ifs at hfirst with hkey
          · obtain ⟨rfl, rfl⟩ := Prod.mk.inj (List.mem_singleton.mp hfirst)
            exact ⟨0, congrArg some hkey, rfl, hname []⟩
          · exact absurd hfirst List.not_mem_nil
        · exact ⟨n + 1, hkey, hvalue, (hname _).trans hn⟩
      · rintro ⟨n, hkey, hvalue, hn⟩
        cases n with
        | zero =>
          left
          have hkey' : key = paramKey := Option.some.inj hkey
          have hn' : child.name = name := Option.some.inj ((hname []).symm.trans hn)
          have hs : s = value := Option.some.inj hvalue
          rw [if_pos hkey', hn', hs]
          exact List.mem_singleton_self _
        | succ n => exact .inr ⟨n, hkey, hvalue, (hname _).symm.trans hn⟩

/-! ## The names of the nodes -/

theorem nameAt_new (name : Str) (ks : List Str) :
    (Node.new name : Node H).nameAt ks = if ks = [] then some name else none := by
  cases ks <;> rfl

theorem name_set (tokens : List Str) (node : Node H) (method : Method) (handler : H) :
    (node.set tokens method handler).name = node.name := by
  induction tokens with
  | nil => rfl
  | cons token rest ih =>
    unfold Node.set
    split_ifs
    · exact ih
    · rfl

/-- A rule names the nodes that it makes, those on its path that were not there. -/
theorem nameAt_set (tokens : List Str) (node : Node H) (method : Method) (handler : H) {ks : List Str}
    (hne : ks ≠ []) :
    (node.set tokens method handler).nameAt ks = (node.nameAt ks).or
      (if ks <+: (tokens.filter (· ≠ [])).map childKey then
        (tokens.filter (· ≠ []))[ks.length - 1]?.map childName
      else none) := by
  induction tokens generalizing node ks with
  | nil =>
    cases ks with
    | nil => exact absurd rfl hne
    | cons k ks => simp [Node.nameAt, Node.set, Node.walk, Node.children]
  | cons token rest ih =>
    by_cases ht : token = []
    · subst ht
      simpa [Node.set] using ih node hne
    · have hfilter : (token :: rest).filter (· ≠ []) = token :: rest.filter (· ≠ []) := by
        simp [ht]
      rw [hfilter, List.map_cons]
      cases ks with
      | nil => exact absurd rfl hne
      | cons k ks =>
        have hwalk : (node.set (token :: rest) method handler).nameAt (k :: ks) =
            if k = childKey token then
              (((AssocMap.find node.children (childKey token)).getD
                (Node.new (childName token))).set rest method handler).nameAt ks
            else node.nameAt (k :: ks) := by
          unfold Node.nameAt
          rw [walk_set_cons ht]
          split_ifs <;> rfl
        rw [hwalk, List.length_cons, Nat.add_sub_cancel]
        simp only [List.cons_prefix_cons]
        by_cases hk : k = childKey token
        · subst hk
          rw [if_pos rfl, nameAt_cons]
          cases ks with
          | nil =>
            show some (Node.name _) = _
            rw [name_set]
            cases AssocMap.find node.children (childKey token) with
            | none => simp [Node.new, Node.name]
            | some child => rfl
          | cons k' ks =>
            rw [ih _ (List.cons_ne_nil _ _), List.length_cons, Nat.add_sub_cancel,
              List.getElem?_cons_succ]
            cases AssocMap.find node.children (childKey token) with
            | none => simp [nameAt_new]
            | some child => simp
        · rw [if_neg hk, if_neg fun h => hk h.1, Option.or_none]

/-- A node has the name that the first rule through it gave to it. -/
theorem nameAt_ofRules (rules : List (Rule H)) {ks : List Str} (hne : ks ≠ []) :
    (Router.ofRules rules).root_.nameAt ks =
      (firstThrough rules ks).bind fun q => (segments q.rule)[ks.length - 1]?.map childName := by
  induction rules using List.reverseRecOn with
  | nil =>
    show (Node.new [] : Node H).nameAt ks = _
    rw [nameAt_new, if_neg hne]
    rfl
  | append_singleton rules q ih =>
    rw [ofRules_append, Router.set, nameAt_set _ _ _ _ hne, ih, filter_splitUrlPath]
    unfold firstThrough
    rw [List.find?_append]
    cases hfirst : rules.find? fun q => ks.isPrefixOf (shape q.rule) with
    | some q' =>
      have hfound : ks.isPrefixOf (shape q'.rule) = true := by
        simpa using List.find?_some hfirst
      have hlt : ks.length - 1 < (segments q'.rule).length := by
        have hle := (List.isPrefixOf_iff_prefix.mp hfound).length_le
        have hpos := List.length_pos_iff.mpr hne
        rw [shape, List.length_map] at hle
        omega
      rw [Option.some_or, Option.bind_some, List.getElem?_eq_getElem hlt]
      rfl
    | none =>
      rw [Option.none_or, Option.bind_none, Option.none_or, List.find?_singleton]
      have hfound : ks.isPrefixOf (shape q.rule) = true ↔ ks <+: (segments q.rule).map childKey :=
        List.isPrefixOf_iff_prefix
      by_cases hprefix : ks <+: (segments q.rule).map childKey
      · rw [if_pos hprefix, if_pos (hfound.mpr hprefix), Option.bind_some]
      · rw [if_neg hprefix, if_neg fun h => hprefix (hfound.mp h)]
        rfl

/-! ## The parameters of a rule -/

theorem shape_eq_paramKey {rule : Str} {n : Nat} :
    (shape rule)[n]? = some paramKey ↔ ∃ name, (segments rule)[n]? = some (':' :: name) := by
  rw [shape, List.getElem?_map, Option.map_eq_some_iff]
  constructor
  · rintro ⟨token, htoken, hkey⟩
    cases token with
    | nil => cases childKey_eq_paramKey.mp hkey
    | cons c name =>
      obtain rfl : c = ':' := Option.some.inj (childKey_eq_paramKey.mp hkey)
      exact ⟨name, htoken⟩
  · rintro ⟨name, htoken⟩
    exact ⟨_, htoken, childKey_eq_paramKey.mpr rfl⟩

/-- The name of the node of the parameter number `n` of `r`. -/
theorem exists_nodeName {rules : List (Rule H)} {r : Rule H} (hr : r ∈ rules) {n : Nat}
    (hn : (shape r.rule)[n]? = some paramKey) :
    ∃ q name, firstThrough rules ((shape r.rule).take (n + 1)) = some q ∧
      (segments q.rule)[n]? = some (':' :: name) ∧
      (Router.ofRules rules).root_.nameAt ((shape r.rule).take (n + 1)) = some name := by
  have hlt : n < (shape r.rule).length := (List.getElem?_eq_some_iff.mp hn).1
  have hlen : ((shape r.rule).take (n + 1)).length = n + 1 := by
    rw [List.length_take]
    omega
  have hne : (shape r.rule).take (n + 1) ≠ [] := List.ne_nil_of_length_pos (by omega)
  have hsome : (firstThrough rules ((shape r.rule).take (n + 1))).isSome := by
    unfold firstThrough
    rw [List.find?_isSome]
    exact ⟨r, hr, List.isPrefixOf_iff_prefix.mpr (List.take_prefix _ _)⟩
  obtain ⟨q, hq⟩ := Option.isSome_iff_exists.mp hsome
  have hprefix : (shape r.rule).take (n + 1) <+: shape q.rule := by
    have hfound : ((shape r.rule).take (n + 1)).isPrefixOf (shape q.rule) = true := by
      simpa using List.find?_some hq
    exact List.isPrefixOf_iff_prefix.mp hfound
  have hqn : (shape q.rule)[n]? = some paramKey := by
    obtain ⟨rest, hrest⟩ := hprefix
    rw [← hrest, List.getElem?_append_left (by omega), List.getElem?_take_of_lt (by omega), hn]
  obtain ⟨name, hname⟩ := shape_eq_paramKey.mp hqn
  refine ⟨q, name, hq, hname, ?_⟩
  rw [nameAt_ofRules rules hne, hq, Option.bind_some, hlen, Nat.add_sub_cancel, hname]
  rfl

/-- Every parameter of `r` has the name of its node. -/
theorem namedFirst_iff {rules : List (Rule H)} {r : Rule H} (hr : r ∈ rules) :
    NamedFirst rules r ↔ ∀ (n : Nat) (name : Str), (segments r.rule)[n]? = some (':' :: name) →
      (Router.ofRules rules).root_.nameAt ((shape r.rule).take (n + 1)) = some name := by
  constructor
  · intro h n name hname
    have hn := shape_eq_paramKey.mpr ⟨name, hname⟩
    obtain ⟨q, name', hq, hname', hnode⟩ := exists_nodeName hr hn
    have heq := h n q hn hq
    rw [hname', hname, Option.some.injEq, List.cons.injEq] at heq
    rw [hnode, heq.2]
  · intro h n q hn hq
    obtain ⟨name, hname⟩ := shape_eq_paramKey.mp hn
    obtain ⟨q', name', hq', hname', hnode⟩ := exists_nodeName hr hn
    obtain rfl : q = q' := Option.some.inj (hq.symm.trans hq')
    rw [h n name hname, Option.some.injEq] at hnode
    rw [hname', hname, hnode]

/-! ## A selected rule -/

section Selected

variable {rules : List (Rule H)} {i : Nat} {r : Rule H} {path : Str}

theorem Selected.mem (h : Selected rules i r path) : r ∈ rules := List.mem_of_getElem? h.rule

/-- The route of a path is the shape of the selected rule. -/
theorem Selected.route (h : Selected rules i r path) :
    Http.route (Router.ofRules rules).root_.has (segments path) = shape r.rule :=
  ((shape_eq_lookupRoute h.mem path).mpr ⟨h.matching, h.unshadowed⟩).symm

/-- The lookup returns the handler of the selected rule, with the bindings of its route. -/
theorem Selected.get (h : Selected rules i r path) :
    ∃ params, (Router.ofRules rules).get path r.method = .ok (r.handler, params) ∧
      params = AssocMap.assignAll [] ((Router.ofRules rules).root_.bindings (segments path)) := by
  have hhandler : (Router.ofRules rules).root_.handlerAt (lookupRoute rules path) r.method =
      some r.handler := by
    rw [handlerAt_ofRules]
    exact ⟨i, r, h.rule, h.route.symm, rfl, rfl,
      fun j q hj hshape hmethod => h.latest j q hj (hshape.trans h.route) hmethod⟩
  rw [← get_handler] at hhandler
  obtain ⟨⟨handler, params⟩, hget, rfl⟩ := Option.map_eq_some_iff.mp hhandler
  refine ⟨params, ?_, ?_⟩
  · unfold Router.get
    rw [hget]
  · rw [get_params hget, filter_splitUrlPath]

/-- The bindings of the route: the names of the nodes, with the segments of the path. -/
theorem Selected.mem_bindings_iff (h : Selected rules i r path) {name value : Str} :
    (name, value) ∈ (Router.ofRules rules).root_.bindings (segments path) ↔
      ∃ n : Nat, (shape r.rule)[n]? = some paramKey ∧ (segments path)[n]? = some value ∧
        (Router.ofRules rules).root_.nameAt ((shape r.rule).take (n + 1)) = some name := by
  rw [Http.mem_bindings_iff, h.route]

/-- Under names of its own, a rule is given what it asks for. -/
theorem Selected.binds (h : Selected rules i r path) (hdistinct : DistinctParameters r.rule)
    (hnamed : NamedFirst rules r) :
    Binds r.rule path
      (AssocMap.assignAll [] ((Router.ofRules rules).root_.bindings (segments path))) := by
  have hmem : ∀ name value,
      (name, value) ∈ (Router.ofRules rules).root_.bindings (segments path) ↔
        ∃ n : Nat, (segments r.rule)[n]? = some (':' :: name) ∧ (segments path)[n]? = some value := by
    intro name value
    rw [h.mem_bindings_iff]
    constructor
    · rintro ⟨n, hn, hvalue, hnode⟩
      obtain ⟨name', hname'⟩ := shape_eq_paramKey.mp hn
      rw [(namedFirst_iff h.mem).mp hnamed n name' hname', Option.some.injEq] at hnode
      exact ⟨n, hnode ▸ hname', hvalue⟩
    · rintro ⟨n, hname, hvalue⟩
      exact ⟨n, shape_eq_paramKey.mpr ⟨name, hname⟩, hvalue,
        (namedFirst_iff h.mem).mp hnamed n name hname⟩
  intro name value
  rw [AssocMap.find_assignAll, AssocMap.find_nil, Option.or_none]
  constructor
  · intro hlast
    exact (hmem name value).mp (AssocMap.mem_of_last hlast)
  · rintro ⟨n, hname, hvalue⟩
    refine AssocMap.last_of_mem ((hmem name value).mpr ⟨n, hname, hvalue⟩) fun value' hmem' => ?_
    obtain ⟨n', hname', hvalue'⟩ := (hmem name value').mp hmem'
    rw [hdistinct n' n name hname' hname, hvalue] at hvalue'
    exact (Option.some.inj hvalue').symm

end Selected

/-! ## A path with different segments -/

theorem not_mem_of_mem_splitOn {c : Char} {path s : Str} (h : s ∈ path.splitOn c) : c ∉ s := by
  induction path generalizing s with
  | nil =>
    rw [List.splitOn_nil] at h
    rw [List.mem_singleton.mp h]
    exact List.not_mem_nil
  | cons b path ih =>
    rw [List.splitOn_cons_eq_if_modifyHead] at h
    split_ifs at h with hb
    · rcases List.mem_cons.mp h with rfl | h
      · exact List.not_mem_nil
      · exact ih h
    · cases hsplit : path.splitOn c with
      | nil => exact absurd hsplit (List.splitOn_ne_nil _ _)
      | cons s' ss =>
        rw [hsplit, List.modifyHead_cons] at h
        rw [hsplit] at ih
        rcases List.mem_cons.mp h with rfl | h
        · have hrest := ih List.mem_cons_self
          have hbc : c ≠ b := fun heq => hb (by simp [heq])
          simp [hrest, hbc]
        · exact ih (List.mem_cons_of_mem _ h)

theorem mem_segments {path s : Str} (h : s ∈ segments path) : s ≠ [] ∧ '/' ∉ s := by
  obtain ⟨hsplit, hne⟩ := List.mem_filter.mp h
  exact ⟨by simpa using hne, not_mem_of_mem_splitOn hsplit⟩

/-- Segments that are put together are taken apart again. -/
theorem segments_intercalate {ss : List Str} (h : ∀ s ∈ ss, s ≠ [] ∧ '/' ∉ s) :
    segments (['/'].intercalate ss) = ss := by
  unfold segments
  by_cases hne : ss = []
  · subst hne
    rfl
  · rw [List.splitOn_intercalate _ (fun s hs => (h s hs).2) hne, List.filter_eq_self]
    intro s hs
    simp [(h s hs).1]

/-- Longer than every key of the rules. -/
def keyBound (rules : List (Rule H)) : Nat :=
  ((rules.flatMap fun q => shape q.rule).map List.length).sum

theorem length_le_keyBound {rules : List (Rule H)} {q : Rule H} (hq : q ∈ rules) {k : Str}
    (hk : k ∈ shape q.rule) : k.length ≤ keyBound rules :=
  List.le_sum_of_mem (List.mem_map_of_mem (List.mem_flatMap.mpr ⟨q, hq, hk⟩))

/-- A segment that no rule has. -/
def fresh (rules : List (Rule H)) (n : Nat) : Str := List.replicate (keyBound rules + n + 1) 'a'

theorem length_fresh (rules : List (Rule H)) (n : Nat) :
    (fresh rules n).length = keyBound rules + n + 1 :=
  List.length_replicate

/-- The segments of a path that `r` matches, with a different one for every parameter. -/
def sampleSegments (rules : List (Rule H)) (r : Rule H) : List Str :=
  (shape r.rule).mapIdx fun n k => if k = paramKey then fresh rules n else k

theorem getElem?_sampleSegments (rules : List (Rule H)) (r : Rule H) (n : Nat) :
    (sampleSegments rules r)[n]? =
      (shape r.rule)[n]?.map fun k => if k = paramKey then fresh rules n else k := by
  rw [sampleSegments, List.getElem?_mapIdx]

theorem segments_sample (rules : List (Rule H)) (r : Rule H) :
    segments (['/'].intercalate (sampleSegments rules r)) = sampleSegments rules r := by
  refine segments_intercalate fun s hs => ?_
  obtain ⟨n, hn⟩ := List.getElem?_of_mem hs
  rw [getElem?_sampleSegments, Option.map_eq_some_iff] at hn
  obtain ⟨k, hk, rfl⟩ := hn
  split_ifs with hparam
  · refine ⟨List.ne_nil_of_length_pos (by rw [length_fresh]; omega), fun hmem => ?_⟩
    exact absurd (List.eq_of_mem_replicate hmem) (by decide)
  · rw [shape, List.getElem?_map, Option.map_eq_some_iff] at hk
    obtain ⟨token, htoken, rfl⟩ := hk
    have hliteral : childKey token = token := if_neg fun h => hparam (childKey_eq_paramKey.mpr h)
    rw [hliteral]
    exact mem_segments (List.mem_of_getElem? htoken)

/-- The path selects `r`, when no later rule replaces its handler. -/
theorem selected_sample {rules : List (Rule H)} {i : Nat} {r : Rule H} (hr : rules[i]? = some r)
    (hlatest : ∀ j q, rules[j]? = some q → shape q.rule = shape r.rule → q.method = r.method → j ≤ i) :
    Selected rules i r (['/'].intercalate (sampleSegments rules r)) where
  rule := hr
  matching := by
    rw [matches_iff, segments_sample]
    refine ⟨by rw [sampleSegments, List.length_mapIdx], fun n k s hk hs => ?_⟩
    rw [getElem?_sampleSegments, hk, Option.map_some, Option.some.injEq] at hs
    by_cases hparam : k = paramKey
    · exact .inl hparam
    · rw [if_neg hparam] at hs
      exact .inr hs
  unshadowed := by
    rintro q hq ⟨n, s, -, hparam, hget, hs, -⟩
    rw [segments_sample, getElem?_sampleSegments, hparam, Option.map_some, if_pos rfl,
      Option.some.injEq] at hs
    have hle := length_le_keyBound hq (List.mem_of_getElem? hget)
    rw [← hs, length_fresh] at hle
    omega
  latest := hlatest

/-- A rule whose parameters have different names is given its parameters under their names, on every
path that selects it, if and only if every parameter has the name that the first rule through its
node has for it. -/
theorem binds_own_names_iff {rules : List (Rule H)} {i : Nat} {r : Rule H} (hr : rules[i]? = some r)
    (hdistinct : DistinctParameters r.rule)
    (hlatest : ∀ j q, rules[j]? = some q → shape q.rule = shape r.rule → q.method = r.method → j ≤ i) :
    (∀ path, Selected rules i r path → ∃ params,
      (Router.ofRules rules).get path r.method = .ok (r.handler, params) ∧ Binds r.rule path params) ↔
      NamedFirst rules r := by
  constructor
  · intro h
    have hsel := selected_sample hr hlatest
    obtain ⟨params, hget, hbinds⟩ := h _ hsel
    obtain ⟨params', hget', hparams'⟩ := hsel.get
    obtain rfl : params = params' := by
      rw [hget] at hget'
      exact (Prod.mk.inj (Except.ok.inj hget')).2
    rw [namedFirst_iff hsel.mem]
    intro n name hname
    have hn := shape_eq_paramKey.mpr ⟨name, hname⟩
    have hseg : (segments (['/'].intercalate (sampleSegments rules r)))[n]? = some (fresh rules n) := by
      rw [segments_sample, getElem?_sampleSegments, hn, Option.map_some, if_pos rfl]
    have hfind := (hbinds name (fresh rules n)).mpr ⟨n, hname, hseg⟩
    rw [hparams', AssocMap.find_assignAll, AssocMap.find_nil, Option.or_none] at hfind
    obtain ⟨n', hn', hvalue, hnode⟩ := hsel.mem_bindings_iff.mp (AssocMap.mem_of_last hfind)
    -- the segment tells the position
    rw [segments_sample, getElem?_sampleSegments, hn', Option.map_some, if_pos rfl,
      Option.some.injEq] at hvalue
    have hlen := congrArg List.length hvalue
    rw [length_fresh, length_fresh] at hlen
    obtain rfl : n' = n := by omega
    exact hnode
  · intro hnamed path hsel
    obtain ⟨params, hget, hparams⟩ := hsel.get
    exact ⟨params, hget, hparams ▸ hsel.binds hdistinct hnamed⟩

section Examples

/-- The rule `/:y/b` behind one with a single parameter. -/
def behind (first : Str) : List (Rule Nat) := [⟨first, .get, 1⟩, ⟨"/:y/b".toList, .get, 2⟩]

theorem shape_second : shape "/:y/b".toList = [paramKey, "b".toList] := by decide

theorem latest_second (first : Str) : ∀ j q, (behind first)[j]? = some q →
    shape q.rule = shape "/:y/b".toList → q.method = .get → j ≤ 1 := by
  intro j q hj _ _
  have hlt : j < 2 := (List.getElem?_eq_some_iff.mp hj).1
  omega

theorem distinct_second : DistinctParameters "/:y/b".toList := by
  intro m n name hm hn
  have hm' := shape_eq_paramKey.mpr ⟨name, hm⟩
  have hn' := shape_eq_paramKey.mpr ⟨name, hn⟩
  rw [shape_second] at hm' hn'
  match m, n with
  | 0, 0 => rfl
  | 0, 1 => exact absurd hn' (by decide)
  | 1, _ => exact absurd hm' (by decide)
  | 0, n + 2 => cases hn'
  | m + 2, _ => cases hm'

/-- The rule `/:y/b` is found for `/v/b`, whatever the parameter in front of it is called. -/
theorem selected_second {first : Str} (hfirst : shape first = [paramKey]) :
    Selected (behind first) 1 ⟨"/:y/b".toList, .get, 2⟩ "/v/b".toList where
  rule := rfl
  matching := .cons (Or.inl rfl) (.cons (Or.inr rfl) .nil)
  unshadowed := by
    rintro q hq ⟨n, s, -, hparam, hget, -, hne⟩
    have hn : n = 0 := by
      have hshape : [paramKey, "b".toList][n]? = some paramKey := shape_second ▸ hparam
      match n with
      | 0 => rfl
      | 1 => exact absurd hshape (by decide)
      | n + 2 => cases hshape
    subst hn
    rcases List.mem_cons.mp hq with rfl | hq
    · rw [hfirst] at hget
      exact hne (Option.some.inj hget).symm
    · rw [List.mem_singleton.mp hq, shape_second] at hget
      exact hne (Option.some.inj hget).symm
  latest := latest_second first

/-- Two rules with the same name for their common parameter. -/
theorem binds_own_names_shared : ∃ params : List (Str × Str),
    (Router.ofRules (behind "/:y".toList)).get "/v/b".toList .get = .ok (2, params) ∧
      Binds "/:y/b".toList "/v/b".toList params := by
  have hrule : (behind "/:y".toList)[1]? = some ⟨"/:y/b".toList, .get, 2⟩ := rfl
  refine (binds_own_names_iff hrule distinct_second (latest_second _)).mpr ?_ _
    (selected_second (by decide))
  intro n q hn hq
  rw [shape_second] at hn
  match n with
  | 0 =>
    have hfirst : firstThrough (behind "/:y".toList) [paramKey] = some ⟨"/:y".toList, .get, 1⟩ := rfl
    have htake : (shape "/:y/b".toList).take 1 = [paramKey] := by
      rw [shape_second]
      rfl
    obtain rfl : ⟨"/:y".toList, .get, 1⟩ = q :=
      Option.some.inj ((hfirst.symm.trans (by rw [htake])).trans hq)
    decide
  | 1 => exact absurd hn (by decide)
  | n + 2 => cases hn

/-- The parameter of the second rule is given to its handler under the name that the first rule has
for it. -/
theorem parameter_under_other_name :
    ¬∀ (rules : List (Rule Nat)) (i : Nat) (r : Rule Nat) (path : Str) (params : List (Str × Str)),
      (∀ q ∈ rules, DistinctParameters q.rule) → Selected rules i r path →
        (Router.ofRules rules).get path r.method = .ok (r.handler, params) →
          Binds r.rule path params := by
  intro h
  have hbinds := h (behind "/:x".toList) 1 ⟨"/:y/b".toList, .get, 2⟩ "/v/b".toList
    [("x".toList, "v".toList)] ?_ (selected_second (by decide)) rfl
  · have hfind := (hbinds "y".toList "v".toList).mpr ⟨0, by decide, by decide⟩
    exact absurd hfind (by decide)
  · intro q hq
    rcases List.mem_cons.mp hq with rfl | hq
    · intro m n name hm hn
      have hsegments : segments "/:x".toList = [":x".toList] := by decide
      rw [hsegments] at hm hn
      match m, n with
      | 0, 0 => rfl
      | 0, n + 1 => cases hn
      | m + 1, _ => cases hm
    · rw [List.mem_singleton.mp hq]
      exact distinct_second

end Examples

end Http
