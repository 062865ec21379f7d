import Mathlib.Data.List.Forall2
import Mathlib.Data.List.Induction
import ItexDemo.Http.Router

/-!
# Proofs: which rule `Router::get` selects

A node of the trie is named by the keys that lead to it. Registering a rule changes the handler at
one such path only, and adds the prefixes of that path (`handlerAt_set`, `has_set`). Looking a path
up follows one sequence of keys, `route`: at every segment it takes the literal child if there is
one. So the lookup can only miss a matching rule when another rule leads it away.
-/

namespace Http

variable {H : Type*}

/-! ## Tokens and segments -/

theorem compressTokens_cons (token : Str) {tokens : List Str} (h : tokens ≠ []) :
    compressTokens (token :: tokens) =
      token :: (tokens.dropLast.filter (· ≠ []) ++ tokens.getLast?.toList) := by
  cases tokens with
  | nil => exact absurd rfl h
  | cons _ _ => rfl

theorem filter_compressTokens (tokens : List Str) :
    (compressTokens tokens).filter (· ≠ []) = tokens.filter (· ≠ []) := by
  rcases tokens with _ | ⟨token, tokens⟩
  · rfl
  rcases List.eq_nil_or_concat tokens with rfl | ⟨init, last, rfl⟩
  · rfl
  · have hne : init ++ [last] ≠ [] := by simp
    rw [List.concat_eq_append, compressTokens_cons token hne, List.dropLast_concat, List.getLast?_concat]
    simp [List.filter_cons, List.filter_append, List.filter_filter]

theorem filter_splitUrlPath (path : Str) : (splitUrlPath path).filter (· ≠ []) = segments path :=
  filter_compressTokens _

theorem childKey_eq_paramKey {token : Str} : childKey token = paramKey ↔ token.head? = some ':' := by
  unfold childKey
  split_ifs with h
  · simp [h]
  · constructor
    · intro ht
      rw [ht] at h
      exact absurd rfl h
    · intro ht
      exact absurd ht h

theorem segmentMatches_iff {r s : Str} : SegmentMatches r s ↔ childKey r = paramKey ∨ childKey r = s := by
  unfold SegmentMatches
  rw [childKey_eq_paramKey]
  by_cases h : r.head? = some ':'
  · simp [h]
  · simp [childKey, h]

/-- A rule matches a path when the keys of its shape do, position by position. -/
theorem matches_iff {rule path : Str} : Matches rule path ↔
    (shape rule).length = (segments path).length ∧
    ∀ (n : Nat) (k s : Str), (shape rule)[n]? = some k → (segments path)[n]? = some s →
      k = paramKey ∨ k = s := by
  unfold Matches shape
  rw [List.forall₂_iff_get, List.length_map]
  refine and_congr_right fun hlen => ⟨fun h n k s hk hs => ?_, fun h n h1 h2 => ?_⟩
  · rw [List.getElem?_map, Option.map_eq_some_iff] at hk
    obtain ⟨r, hr, rfl⟩ := hk
    obtain ⟨h1, rfl⟩ := List.getElem?_eq_some_iff.mp hr
    obtain ⟨h2, rfl⟩ := List.getElem?_eq_some_iff.mp hs
    exact segmentMatches_iff.mp (h n h1 h2)
  · refine segmentMatches_iff.mpr (h n _ _ ?_ (List.getElem?_eq_getElem h2))
    simp [List.getElem?_eq_getElem h1]

/-! ## Following keys through the trie -/

namespace Node

/-- The node that the keys `ks` lead to. -/
def walk : Node H → List Str → Option (Node H)
  | node, [] => some node
  | node, k :: ks => (AssocMap.find node.children k).bind fun child => child.walk ks

/-- Some node is reached by the keys `ks`. -/
def has (node : Node H) (ks : List Str) : Bool := (node.walk ks).isSome

/-- The handler for `method` at the node that `ks` leads to. -/
def handlerAt (node : Node H) (ks : List Str) (method : Method) : Option H :=
  (node.walk ks).bind fun n => AssocMap.find n.handlers method.toSize

end Node

/-- The keys that a lookup follows for the segments `ss`, when `ex` tells which nodes exist. -/
def route (ex : List Str → Bool) : List Str → List Str
  | [] => []
  | s :: ss =>
    let k := if ex [s] then s else paramKey
    k :: route (fun ks => ex (k :: ks)) ss

/-- The lookup ends at the node that `route` leads to. -/
theorem get_eq_handlerAt (tokens : List Str) (node : Node H) (params : List (Str × Str))
    (method : Method) :
    (node.get tokens params method).map Prod.fst =
      node.handlerAt (route node.has (tokens.filter (· ≠ []))) method := by
  induction tokens generalizing node params with
  | nil =>
    simp only [Node.get, List.filter_nil, route, Node.handlerAt, Node.walk, Option.map_map,
      Option.bind_some]
    cases AssocMap.find node.handlers method.toSize <;> rfl
  | cons token rest ih =>
    by_cases ht : token = []
    · subst ht
      simpa [Node.get] using ih node params
    · have hfilter : (token :: rest).filter (· ≠ []) = token :: rest.filter (· ≠ []) := by
        simp [ht]
      rw [hfilter]
      have hhas : node.has [token] = (AssocMap.find node.children token).isSome := by
        unfold Node.has Node.walk
        cases AssocMap.find node.children token <;> rfl
      simp only [Node.get, if_neg ht, route, hhas]
      set key := if (AssocMap.find node.children token).isSome = true then token else paramKey
      cases hchild : AssocMap.find node.children key with
      | none => simp [Node.handlerAt, Node.walk, hchild]
      | some child =>
        have hshift : (fun ks => node.has (key :: ks)) = child.has := by
          funext ks
          simp [Node.has, Node.walk, hchild]
        simp only [ih, hshift, Node.handlerAt, Node.walk, hchild, Option.bind_some]

/-! ## Registering a rule -/

theorem walk_set_cons {node : Node H} {token : Str} (ht : token ≠ []) (rest : List Str)
    (method : Method) (handler : H) (k : Str) (ks : List Str) :
    (node.set (token :: rest) method handler).walk (k :: ks) =
      if k = childKey token then
        (((AssocMap.find node.children (childKey token)).getD
          (Node.new (childName token))).set rest method handler).walk ks
      else node.walk (k :: ks) := by
  simp only [Node.set, if_neg ht, Node.walk, Node.children, AssocMap.find_assign]
  split_ifs <;> rfl

theorem handlerAt_new (name : Str) (ks : List Str) (method : Method) :
    (Node.new name : Node H).handlerAt ks method = none := by
  cases ks <;> rfl

theorem has_new (name : Str) (ks : List Str) :
    (Node.new name : Node H).has ks = true ↔ ks = [] := by
  cases ks with
  | nil => simp [Node.has, Node.walk]
  | cons k ks => simp [Node.has, Node.walk, Node.new, Node.children]

/-- Registering a rule changes the handler at its own path and method only. -/
theorem handlerAt_set (tokens : List Str) (node : Node H) (method : Method) (handler : H)
    (ks : List Str) (m : Method) :
    (node.set tokens method handler).handlerAt ks m =
      if ks = (tokens.filter (· ≠ [])).map childKey ∧ m = method then some handler
      else node.handlerAt ks m := by
  induction tokens generalizing node ks with
  | nil =>
    cases ks with
    | nil =>
      simp only [Node.handlerAt, Node.set, Node.walk, Option.bind_some, Node.handlers,
        AssocMap.find_assign]
      by_cases hm : m = method
      · simp [hm]
      · have : m.toSize ≠ method.toSize := fun h => hm (Method.toSize_injective h)
        simp [hm, this]
    | cons k ks => simp [Node.handlerAt, Node.set, Node.walk, Node.children]
  | cons token rest ih =>
    by_cases ht : token = []
    · subst ht
      simpa [Node.set] using ih node ks
    · have hkeys : ((token :: rest).filter (· ≠ [])).map childKey =
          childKey token :: (rest.filter (· ≠ [])).map childKey := by
        simp [ht]
      rw [hkeys]
      cases ks with
      | nil => simp [Node.handlerAt, Node.set, Node.walk, ht, Node.handlers]
      | cons k ks =>
        unfold Node.handlerAt
        rw [walk_set_cons ht]
        by_cases hk : k = childKey token
        · subst hk
          have hih := ih ((AssocMap.find node.children (childKey token)).getD
            (Node.new (childName token))) ks
          unfold Node.handlerAt at hih
          rw [if_pos rfl, hih]
          simp only [List.cons.injEq, true_and, Node.walk]
          cases AssocMap.find node.children (childKey token) with
          | none =>
            have hn := handlerAt_new (H := H) (childName token) ks m
            unfold Node.handlerAt at hn
            simp [hn]
          | some child => simp
        · rw [if_neg hk]
          simp [hk]

/-- Registering a rule adds the prefixes of its path. -/
theorem has_set (tokens : List Str) (node : Node H) (method : Method) (handler : H)
    (ks : List Str) :
    (node.set tokens method handler).has ks = true ↔
      node.has ks = true ∨ ks <+: (tokens.filter (· ≠ [])).map childKey := by
  induction tokens generalizing node ks with
  | nil =>
    cases ks with
    | nil => simp [Node.has, Node.walk]
    | cons k ks => simp [Node.has, Node.set, Node.walk, Node.children]
  | cons token rest ih =>
    by_cases ht : token = []
    · subst ht
      simpa [Node.set] using ih node ks
    · have hkeys : ((token :: rest).filter (· ≠ [])).map childKey =
          childKey token :: (rest.filter (· ≠ [])).map childKey := by
        simp [ht]
      rw [hkeys]
      cases ks with
      | nil => simp [Node.has, Node.walk]
      | cons k ks =>
        unfold Node.has
        rw [walk_set_cons ht]
        by_cases hk : k = childKey token
        · subst hk
          have hih := ih ((AssocMap.find node.children (childKey token)).getD
            (Node.new (childName token))) ks
          unfold Node.has at hih
          rw [if_pos rfl, hih, List.cons_prefix_cons]
          simp only [true_and, Node.walk]
          cases AssocMap.find node.children (childKey token) with
          | none =>
            have hn := has_new (H := H) (childName token) ks
            unfold Node.has at hn
            rw [Option.getD_none, hn]
            constructor
            · rintro (rfl | h)
              · exact Or.inr List.nil_prefix
              · exact Or.inr h
            · rintro (h | h)
              · simp at h
              · exact Or.inr h
          | some child => simp
        · rw [if_neg hk, List.cons_prefix_cons]
          simp [hk]

/-! ## A sequence of rules -/

theorem ofRules_append (rules : List (Rule H)) (q : Rule H) :
    Router.ofRules (rules ++ [q]) = (Router.ofRules rules).set q.rule q.method q.handler := by
  simp [Router.ofRules, List.foldl_append]

/-- The nodes of the trie are the prefixes of the registered shapes. -/
theorem has_ofRules (rules : List (Rule H)) (ks : List Str) :
    (Router.ofRules rules).root_.has ks = true ↔ ks = [] ∨ ∃ q ∈ rules, ks <+: shape q.rule := by
  induction rules using List.reverseRecOn with
  | nil => simp [Router.ofRules, Router.new, has_new]
  | append_singleton rules q ih =>
    rw [ofRules_append, Router.set, has_set, ih, filter_splitUrlPath]
    simp only [List.mem_append, List.mem_singleton, shape]
    constructor
    · rintro ((h | ⟨q', hq', h⟩) | h)
      · exact Or.inl h
      · exact Or.inr ⟨q', Or.inl hq', h⟩
      · exact Or.inr ⟨q, Or.inr rfl, h⟩
    · rintro (h | ⟨q', hq' | rfl, h⟩)
      · exact Or.inl (Or.inl h)
      · exact Or.inl (Or.inr ⟨q', hq', h⟩)
      · exact Or.inr h

/-- The handler at a path is the one of the last rule registered with this shape and method. -/
theorem handlerAt_ofRules (rules : List (Rule H)) (ks : List Str) (m : Method) (h : H) :
    (Router.ofRules rules).root_.handlerAt ks m = some h ↔
      ∃ (i : Nat) (r : Rule H), rules[i]? = some r ∧ shape r.rule = ks ∧ r.method = m ∧ r.handler = h ∧
        ∀ (j : Nat) (q : Rule H), rules[j]? = some q → shape q.rule = ks → q.method = m → j ≤ i := by
  induction rules using List.reverseRecOn with
  | nil => simp [Router.ofRules, Router.new, handlerAt_new]
  | append_singleton rules q ih =>
    have hlast : (rules ++ [q])[rules.length]? = some q := by simp
    have hbelow : ∀ (j : Nat) (q' : Rule H), (rules ++ [q])[j]? = some q' →
        (rules[j]? = some q' ∧ j < rules.length) ∨ (j = rules.length ∧ q' = q) := by
      intro j q' hj
      obtain ⟨hlt, -⟩ := List.getElem?_eq_some_iff.mp hj
      rw [List.length_append, List.length_singleton] at hlt
      by_cases hjl : j < rules.length
      · rw [List.getElem?_append_left hjl] at hj
        exact Or.inl ⟨hj, hjl⟩
      · have heq : j = rules.length := by omega
        subst heq
        rw [hlast] at hj
        exact Or.inr ⟨rfl, (Option.some.inj hj).symm⟩
    rw [ofRules_append, Router.set, handlerAt_set, filter_splitUrlPath]
    by_cases hq : ks = (segments q.rule).map childKey ∧ m = q.method
    · rw [if_pos hq, Option.some.injEq]
      constructor
      · intro hh
        refine ⟨rules.length, q, hlast, hq.1.symm, hq.2.symm, hh, fun j q' hj _ _ => ?_⟩
        rcases hbelow j q' hj with ⟨-, hlt⟩ | ⟨heq, -⟩ <;> omega
      · rintro ⟨i, r, hi, -, -, hh, hmax⟩
        have hle := hmax rules.length q hlast hq.1.symm hq.2.symm
        rcases hbelow i r hi with ⟨-, hlt⟩ | ⟨-, rfl⟩
        · omega
        · exact hh
    · rw [if_neg hq, ih]
      constructor
      · rintro ⟨i, r, hi, hs, hm, hh, hmax⟩
        obtain ⟨hlt, -⟩ := List.getElem?_eq_some_iff.mp hi
        refine ⟨i, r, by rw [List.getElem?_append_left hlt]; exact hi, hs, hm, hh,
          fun j q' hj hs' hm' => ?_⟩
        rcases hbelow j q' hj with ⟨hj', -⟩ | ⟨-, rfl⟩
        · exact hmax j q' hj' hs' hm'
        · exact absurd ⟨hs'.symm, hm'.symm⟩ hq
      · rintro ⟨i, r, hi, hs, hm, hh, hmax⟩
        rcases hbelow i r hi with ⟨hi', hlt⟩ | ⟨-, rfl⟩
        · refine ⟨i, r, hi', hs, hm, hh, fun j q' hj hs' hm' => ?_⟩
          obtain ⟨hjlt, -⟩ := List.getElem?_eq_some_iff.mp hj
          exact hmax j q' (by rw [List.getElem?_append_left hjlt]; exact hj) hs' hm'
        · exact absurd ⟨hs.symm, hm.symm⟩ hq

theorem handlerAt_ofRules_isSome (rules : List (Rule H)) (ks : List Str) (m : Method) :
    ((Router.ofRules rules).root_.handlerAt ks m).isSome = true ↔
      ∃ q ∈ rules, shape q.rule = ks ∧ q.method = m := by
  induction rules using List.reverseRecOn with
  | nil => simp [Router.ofRules, Router.new, handlerAt_new]
  | append_singleton rules q ih =>
    rw [ofRules_append, Router.set, handlerAt_set, filter_splitUrlPath]
    by_cases hq : ks = (segments q.rule).map childKey ∧ m = q.method
    · rw [if_pos hq]
      simp only [Option.isSome_some, true_iff]
      exact ⟨q, by simp, hq.1.symm, hq.2.symm⟩
    · rw [if_neg hq, ih]
      constructor
      · rintro ⟨r, hr, hs, hm⟩
        exact ⟨r, List.mem_append_left _ hr, hs, hm⟩
      · rintro ⟨r, hr, hs, hm⟩
        rcases List.mem_append.mp hr with hr | hr
        · exact ⟨r, hr, hs, hm⟩
        · rw [List.mem_singleton] at hr
          subst hr
          exact absurd ⟨hs.symm, hm.symm⟩ hq

/-! ## The route of a path -/

theorem route_length (ex : List Str → Bool) (ss : List Str) : (route ex ss).length = ss.length := by
  induction ss generalizing ex with
  | nil => rfl
  | cons s ss ih => simp [route, ih]

theorem route_getElem? (ex : List Str → Bool) (ss : List Str) (n : Nat) :
    (route ex ss)[n]? =
      ss[n]?.map fun s => if ex ((route ex ss).take n ++ [s]) then s else paramKey := by
  induction ss generalizing ex n with
  | nil => simp [route]
  | cons s ss ih =>
    cases n with
    | zero => rfl
    | succ n => exact ih _ n

/-- The keys of a route are determined position by position. -/
theorem eq_route_iff {ex : List Str → Bool} {ks ss : List Str} : ks = route ex ss ↔
    ks.length = ss.length ∧ ∀ (n : Nat) (k s : Str), ks[n]? = some k → ss[n]? = some s →
      k = if ex (ks.take n ++ [s]) then s else paramKey := by
  constructor
  · rintro rfl
    refine ⟨route_length ex ss, fun n k s hk hs => ?_⟩
    rw [route_getElem?, hs] at hk
    exact (Option.some.inj hk).symm
  · rintro ⟨hlen, hkeys⟩
    -- the first `n` keys agree, so the existence tests do as well
    have htake : ∀ n, ks.take n = (route ex ss).take n := by
      intro n
      induction n with
      | zero => simp
      | succ n ih =>
        rw [List.take_add_one, List.take_add_one, ih, route_getElem?, ← ih]
        congr 2
        cases hs : ss[n]? with
        | none =>
          rw [List.getElem?_eq_none_iff] at hs
          rw [List.getElem?_eq_none (by omega)]
          rfl
        | some s =>
          have hn : n < ks.length := hlen ▸ (List.getElem?_eq_some_iff.mp hs).1
          rw [List.getElem?_eq_getElem hn, hkeys n _ s (List.getElem?_eq_getElem hn) hs]
          rfl
    have h := htake ks.length
    rwa [List.take_length, List.take_of_length_le (by rw [route_length]; omega)] at h

/-- The keys that `Router::get` follows on a path. -/
def lookupRoute (rules : List (Rule H)) (path : Str) : List Str :=
  route (Router.ofRules rules).root_.has (segments path)

theorem has_snoc_iff {rules : List (Rule H)} {ks : List Str} {n : Nat} {s : Str}
    (hn : n < ks.length) : (Router.ofRules rules).root_.has (ks.take n ++ [s]) = true ↔
      ∃ q ∈ rules, (shape q.rule).take n = ks.take n ∧ (shape q.rule)[n]? = some s := by
  have hlen : (ks.take n).length = n := by simp; omega
  rw [has_ofRules]
  constructor
  · rintro (h | ⟨q, hq, rest, h⟩)
    · simp at h
    · refine ⟨q, hq, ?_, ?_⟩
      · rw [← h, List.append_assoc, List.take_append_of_le_length (by omega),
          List.take_of_length_le (by omega)]
      · rw [← h, List.append_assoc, List.getElem?_append_right (by omega), hlen]
        simp
  · rintro ⟨q, hq, htake, hget⟩
    refine Or.inr ⟨q, hq, ?_⟩
    have h : (shape q.rule).take (n + 1) = ks.take n ++ [s] := by
      rw [List.take_add_one, htake, hget]
      rfl
    rw [← h]
    exact List.take_prefix _ _

/-- A registered rule is on the route of a path when it matches and no rule shadows it. -/
theorem shape_eq_lookupRoute {rules : List (Rule H)} {r : Rule H} (hr : r ∈ rules) (path : Str) :
    shape r.rule = lookupRoute rules path ↔
      Matches r.rule path ∧ ∀ q ∈ rules, ¬Shadows q r path := by
  unfold lookupRoute
  rw [eq_route_iff, matches_iff]
  constructor
  · rintro ⟨hlen, hkeys⟩
    refine ⟨⟨hlen, fun n k s hk hs => ?_⟩, ?_⟩
    · have h := hkeys n k s hk hs
      split_ifs at h
      · exact Or.inr h
      · exact Or.inl h
    · rintro q hq ⟨n, s, htake, hparam, hget, hs, hne⟩
      have hn := (List.getElem?_eq_some_iff.mp hparam).1
      have h := hkeys n paramKey s hparam hs
      rw [if_pos ((has_snoc_iff hn).mpr ⟨q, hq, htake, hget⟩)] at h
      exact hne h.symm
  · rintro ⟨⟨hlen, hmatch⟩, hshadow⟩
    refine ⟨hlen, fun n k s hk hs => ?_⟩
    have hn := (List.getElem?_eq_some_iff.mp hk).1
    split_ifs with hhas
    · obtain ⟨q, hq, htake, hget⟩ := (has_snoc_iff hn).mp hhas
      rcases hmatch n k s hk hs with rfl | h
      · by_contra hne
        exact hshadow q hq ⟨n, s, htake, hk, hget, hs, Ne.symm hne⟩
      · exact h
    · rcases hmatch n k s hk hs with h | rfl
      · exact h
      · exact absurd ((has_snoc_iff hn).mpr ⟨r, hr, rfl, hk⟩) hhas

/-! ## `Router::get` -/

/-- The lookup succeeds. -/
def Routable (rules : List (Rule H)) (path : Str) (m : Method) : Prop :=
  ∃ result, (Router.ofRules rules).get path m = .ok result

theorem get_handler (rules : List (Rule H)) (path : Str) (m : Method) :
    ((Router.ofRules rules).root_.get (splitUrlPath path) [] m).map Prod.fst =
      (Router.ofRules rules).root_.handlerAt (lookupRoute rules path) m := by
  rw [get_eq_handlerAt, filter_splitUrlPath]
  rfl

theorem get_ok_handler {rules : List (Rule H)} {path : Str} {m : Method} {h : H}
    {params : List (Str × Str)} (hget : (Router.ofRules rules).get path m = .ok (h, params)) :
    (Router.ofRules rules).root_.handlerAt (lookupRoute rules path) m = some h := by
  unfold Router.get at hget
  rw [← get_handler]
  cases hroot : (Router.ofRules rules).root_.get (splitUrlPath path) [] m with
  | none =>
    rw [hroot] at hget
    cases hget
  | some result =>
    rw [hroot] at hget
    cases hget
    rfl

theorem routable_iff {rules : List (Rule H)} {path : Str} {m : Method} : Routable rules path m ↔
    ∃ r ∈ rules, r.method = m ∧ Matches r.rule path ∧ ∀ q ∈ rules, ¬Shadows q r path := by
  have hsome : Routable rules path m ↔
      ((Router.ofRules rules).root_.handlerAt (lookupRoute rules path) m).isSome = true := by
    unfold Routable Router.get
    rw [← get_handler, Option.isSome_map]
    cases (Router.ofRules rules).root_.get (splitUrlPath path) [] m <;> simp
  rw [hsome, handlerAt_ofRules_isSome]
  constructor
  · rintro ⟨r, hr, hs, hm⟩
    exact ⟨r, hr, hm, (shape_eq_lookupRoute hr path).mp hs⟩
  · rintro ⟨r, hr, hm, h⟩
    exact ⟨r, hr, (shape_eq_lookupRoute hr path).mpr h, hm⟩

theorem exists_first_difference {as bs : List Str} (hlen : as.length = bs.length) (hne : as ≠ bs) :
    ∃ n a b, as.take n = bs.take n ∧ as[n]? = some a ∧ bs[n]? = some b ∧ a ≠ b := by
  induction as generalizing bs with
  | nil =>
    cases bs with
    | nil => exact absurd rfl hne
    | cons b bs => simp at hlen
  | cons a as ih =>
    cases bs with
    | nil => simp at hlen
    | cons b bs =>
      by_cases hab : a = b
      · subst hab
        obtain ⟨n, x, y, htake, hx, hy, hxy⟩ :=
          ih (Nat.succ.inj hlen) (fun h => hne (by rw [h]))
        exact ⟨n + 1, x, y, by rw [List.take_succ_cons, List.take_succ_cons, htake], hx, hy, hxy⟩
      · exact ⟨0, a, b, rfl, rfl, rfl, hab⟩

/-- Of two matching rules of different shape, the one that is not shadowed is preferred. -/
theorem preferred_of_not_shadows {r q : Rule H} {path : Str} (hr : Matches r.rule path)
    (hq : Matches q.rule path) (hshape : shape q.rule ≠ shape r.rule)
    (hshadow : ¬Shadows q r path) : Preferred r q := by
  obtain ⟨hrlen, hrkeys⟩ := matches_iff.mp hr
  obtain ⟨hqlen, hqkeys⟩ := matches_iff.mp hq
  obtain ⟨n, a, b, htake, ha, hb, hab⟩ :=
    exists_first_difference (hrlen.trans hqlen.symm) (Ne.symm hshape)
  have hn : n < (segments path).length := hrlen ▸ (List.getElem?_eq_some_iff.mp ha).1
  have hs := List.getElem?_eq_getElem hn
  rcases hrkeys n a _ ha hs with rfl | rfl
  · rcases hqkeys n b _ hb hs with rfl | rfl
    · exact absurd rfl hab
    · exact absurd ⟨n, _, htake.symm, ha, hb, hs, Ne.symm hab⟩ hshadow
  · rcases hqkeys n b _ hb hs with rfl | rfl
    · exact ⟨n, _, htake, ha, hab, hb⟩
    · exact absurd rfl hab

/-- The handler is that of a rule that no other matching rule is preferred to, and the last one
registered for its shape. -/
theorem selected_rule {rules : List (Rule H)} {path : Str} {m : Method} {h : H}
    {params : List (Str × Str)} (hget : (Router.ofRules rules).get path m = .ok (h, params)) :
    ∃ (i : Nat) (r : Rule H), rules[i]? = some r ∧ r.handler = h ∧ r.method = m ∧
      Matches r.rule path ∧ ∀ (j : Nat) (q : Rule H), rules[j]? = some q → q.method = m →
        Matches q.rule path → (shape q.rule = shape r.rule ∧ j ≤ i) ∨ Preferred r q := by
  obtain ⟨i, r, hi, hs, hm, hh, hlast⟩ := (handlerAt_ofRules rules _ m h).mp (get_ok_handler hget)
  obtain ⟨hmatch, hshadow⟩ := (shape_eq_lookupRoute (List.mem_of_getElem? hi) path).mp hs
  refine ⟨i, r, hi, hh, hm, hmatch, fun j q hj hqm hq => ?_⟩
  by_cases hshape : shape q.rule = shape r.rule
  · exact Or.inl ⟨hshape, hlast j q hj (hshape.trans hs) hqm⟩
  · exact Or.inr (preferred_of_not_shadows hmatch hq hshape (hshadow q (List.mem_of_getElem? hj)))

/-- A path is lost by a further rule only when that rule shadows a matching one. -/
theorem shadows_of_lost {rules : List (Rule H)} {q : Rule H} {path : Str} {m : Method}
    (hbefore : Routable rules path m) (hafter : ¬Routable (rules ++ [q]) path m) :
    ∃ r ∈ rules, r.method = m ∧ Matches r.rule path ∧ Shadows q r path := by
  obtain ⟨r, hr, hm, hmatch, hshadow⟩ := routable_iff.mp hbefore
  refine ⟨r, hr, hm, hmatch, ?_⟩
  by_contra hq
  refine hafter (routable_iff.mpr ⟨r, List.mem_append_left _ hr, hm, hmatch, fun q' hq' => ?_⟩)
  rcases List.mem_append.mp hq' with hq' | hq'
  · exact hshadow q' hq'
  · rw [List.mem_singleton] at hq'
    exact hq' ▸ hq

/-- The lookup of `Router::get`, for every sequence of registered rules. A path is routable when a
rule for the method matches and no rule shadows it; the handler is the last one registered for the
shape that is preferred to the shapes of the other matching rules; and a further rule takes a path
away only by shadowing a rule that matches it. -/
theorem get_selects_unshadowed (rules : List (Rule H)) (path : Str) (m : Method) :
    ((∃ result, (Router.ofRules rules).get path m = .ok result) ↔
      ∃ r ∈ rules, r.method = m ∧ Matches r.rule path ∧ ∀ q ∈ rules, ¬Shadows q r path) ∧
    (∀ h params, (Router.ofRules rules).get path m = .ok (h, params) →
      ∃ (i : Nat) (r : Rule H), rules[i]? = some r ∧ r.handler = h ∧ r.method = m ∧
        Matches r.rule path ∧ ∀ (j : Nat) (q : Rule H), rules[j]? = some q → q.method = m →
          Matches q.rule path → (shape q.rule = shape r.rule ∧ j ≤ i) ∨ Preferred r q) ∧
    ∀ q, Routable rules path m → ¬Routable (rules ++ [q]) path m →
      ∃ r ∈ rules, r.method = m ∧ Matches r.rule path ∧ Shadows q r path :=
  ⟨routable_iff, fun _ _ hget => selected_rule hget, fun _ => shadows_of_lost⟩

/-- A rule that matches is not found once `/a/b` gives the trie a literal child for its first
segment: the lookup commits to that child, which has no child for `c`. -/
theorem matching_rule_made_unroutable :
    Routable [⟨"/:x/c".toList, .get, 2⟩] "/a/c".toList .get ∧
    Matches "/:x/c".toList "/a/c".toList ∧
    ¬Routable [⟨"/:x/c".toList, .get, 2⟩, ⟨"/a/b".toList, .get, 1⟩] "/a/c".toList .get := by
  refine ⟨⟨(2, [("x".toList, "a".toList)]), rfl⟩, ?_, ?_⟩
  · exact .cons (Or.inl rfl) (.cons (Or.inr rfl) .nil)
  · rintro ⟨result, h⟩
    cases h

end Http
