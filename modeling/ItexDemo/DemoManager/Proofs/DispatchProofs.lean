import ItexDemo.DemoManager.Service
import ItexDemo.Http.Proofs.RouterProofs

/-!
# Proofs: the API of the demo manager

The three rules make a trie without shadowing: at every node there are either literals or a parameter,
so a path leads to one rule at most.
-/

namespace Http.Node

variable {H : Type*} {name : Str} {hs : List (Nat × H)} {params : List (Str × Str)} {method : Method}
  {token : Str} {rest : List Str}

/-- The child that a token leads to. -/
def keyFor (node : Node H) (token : Str) : Str :=
  if (AssocMap.find node.children token).isSome then token else paramKey

theorem get_cons {node : Node H} (ht : token ≠ []) :
    node.get (token :: rest) params method =
      (AssocMap.find node.children (node.keyFor token)).bind fun child => child.get rest
        (if node.keyFor token = paramKey then AssocMap.assign params child.name token else params)
        method := by
  rw [Node.get, if_neg ht]
  unfold keyFor
  dsimp only
  cases AssocMap.find node.children
      (if (AssocMap.find node.children token).isSome then token else paramKey) with
  | none => rfl
  | some child => rfl

/-- Empty tokens are skipped. -/
theorem get_filter (tokens : List Str) (node : Node H) (params : List (Str × Str)) (method : Method) :
    node.get (tokens.filter (· ≠ [])) params method = node.get tokens params method := by
  induction tokens generalizing node params with
  | nil => rfl
  | cons token rest ih =>
    by_cases ht : token = []
    · subst ht
      rw [List.filter_cons_of_neg (by simp), ih]
      conv_rhs => rw [Node.get, if_pos rfl]
    · rw [List.filter_cons_of_pos (by simpa using ht), get_cons ht, get_cons ht]
      exact congrArg _ (funext fun child => ih child _)

theorem get_leaf (ht : token ≠ []) : (mk name [] hs).get (token :: rest) params method = none := by
  rw [get_cons ht]
  rfl

/-- A node whose only child is for parameters. -/
theorem get_param {child : Node H} (ht : token ≠ []) :
    (mk name [(paramKey, child)] hs).get (token :: rest) params method =
      child.get rest (AssocMap.assign params child.name token) method := by
  have hkey : (mk name [(paramKey, child)] hs).keyFor token = paramKey := by
    unfold keyFor
    simp only [Node.children, AssocMap.find]
    by_cases htoken : paramKey = token
    · rw [← htoken, ite_self]
    · rw [if_neg htoken]
      rfl
  rw [get_cons ht, hkey]
  simp only [Node.children, AssocMap.find, if_true, Option.bind_some]

/-- A node whose only child is a literal. -/
theorem get_literal {child : Node H} {key : Str} (hkey : key ≠ paramKey) (ht : token ≠ []) :
    (mk name [(key, child)] hs).get (token :: rest) params method =
      if token = key then child.get rest params method else none := by
  rw [get_cons ht]
  unfold keyFor
  by_cases htoken : token = key
  · subst htoken
    simp [Node.children, AssocMap.find, hkey]
  · simp [Node.children, AssocMap.find, htoken, hkey, Ne.symm htoken]

/-- A node with two literals. -/
theorem get_literals {child child' : Node H} {key key' : Str} (hkey : key ≠ paramKey)
    (hkey' : key' ≠ paramKey) (hne : key ≠ key') (ht : token ≠ []) :
    (mk name [(key, child), (key', child')] hs).get (token :: rest) params method =
      if token = key then child.get rest params method
      else if token = key' then child'.get rest params method else none := by
  rw [get_cons ht]
  unfold keyFor
  by_cases htoken : token = key
  · subst htoken
    simp [Node.children, AssocMap.find, hkey]
  · by_cases htoken' : token = key'
    · subst htoken'
      simp [Node.children, AssocMap.find, hkey', hne, Ne.symm hne]
    · simp [Node.children, AssocMap.find, htoken, htoken', hkey, hkey', Ne.symm htoken, Ne.symm htoken']

end Http.Node

namespace DemoManager

open Http

theorem router_root : router.root_ =
    Node.mk [] [("itex-demo".toList, .mk "itex-demo".toList
      [("securities".toList, .mk "securities".toList
        [(paramKey, .mk "id".toList
          [("orderbook".toList, .mk "orderbook".toList [] [(Method.post.toSize, .addOrderbook)])] [])] []),
       ("workset.png".toList, .mk "workset.png".toList
        [(paramKey, .mk "limit".toList
          [(paramKey, .mk "offset".toList [] [(Method.get.toSize, .getWorksetPng)])] [])]
        [(Method.get.toSize, .getWorksetPng)])] [])] [] := rfl

/-- The handlers of the last node. -/
theorem get_end {name : Str} {method rule : Method} {action : Action} {params : List (Str × Str)}
    {children : List (Str × Node Action)} :
    (Node.mk name children [(rule.toSize, action)]).get [] params method =
      if method = rule then some (action, params) else none := by
  rw [Node.get]
  simp only [Node.handlers, AssocMap.find]
  by_cases hm : method = rule
  · rw [if_pos hm, if_pos (by rw [hm])]
    rfl
  · rw [if_neg hm, if_neg fun h => hm (Method.toSize_injective h).symm]
    rfl

theorem get_router {ss : List Str} (hss : ∀ s ∈ ss, s ≠ []) (method : Method) :
    router.root_.get ss [] method = dispatch ss method := by
  have hroot : "itex-demo".toList ≠ paramKey := by decide
  have hsecurities : "securities".toList ≠ paramKey := by decide
  have hworkset : "workset.png".toList ≠ paramKey := by decide
  have horderbook : "orderbook".toList ≠ paramKey := by decide
  have hne : "securities".toList ≠ "workset.png".toList := by decide
  rw [router_root]
  rcases ss with _ | ⟨a, _ | ⟨b, _ | ⟨c, _ | ⟨d, _ | ⟨e, rest⟩⟩⟩⟩⟩
  · rfl
  · rw [Node.get_literal hroot (hss a (by simp))]
    split <;> rfl
  · rw [Node.get_literal hroot (hss a (by simp)),
      Node.get_literals hsecurities hworkset hne (hss b (by simp)), get_end]
    by_cases ha : a = "itex-demo".toList
    · by_cases hb : b = "securities".toList
      · simp only [dispatch, ha, hb, if_true, hne, false_and, and_false, if_false]
        rfl
      · by_cases hb' : b = "workset.png".toList
        · simp only [dispatch, ha, hb', hne.symm, if_true, if_false, true_and]
        · simp only [dispatch, ha, hb, hb', if_true, if_false, false_and, and_false]
    · simp only [dispatch, ha, if_false, false_and]
  · rw [Node.get_literal hroot (hss a (by simp)),
      Node.get_literals hsecurities hworkset hne (hss b (by simp)), Node.get_param (hss c (by simp)),
      Node.get_param (hss c (by simp))]
    simp only [dispatch]
    split
    · split
      · rfl
      · split <;> rfl
    · rfl
  · rw [Node.get_literal hroot (hss a (by simp)),
      Node.get_literals hsecurities hworkset hne (hss b (by simp)), Node.get_param (hss c (by simp)),
      Node.get_param (hss c (by simp)), Node.get_literal horderbook (hss d (by simp)),
      Node.get_param (hss d (by simp)), get_end, get_end]
    by_cases ha : a = "itex-demo".toList
    · by_cases hb : b = "securities".toList
      · by_cases hd : d = "orderbook".toList
        · simp only [dispatch, ha, hb, hd, if_true, true_and, hne, false_and, if_false,
            AssocMap.assign, Node.name]
        · simp only [dispatch, ha, hb, hd, if_true, true_and, hne, false_and, if_false]
      · by_cases hb' : b = "workset.png".toList
        · simp only [dispatch, ha, hb', hne.symm, if_true, if_false, true_and, false_and,
            AssocMap.assign, Node.name]
          rfl
        · simp only [dispatch, ha, hb, hb', if_true, if_false, true_and, false_and]
    · simp only [dispatch, ha, if_false, false_and]
  · rw [Node.get_literal hroot (hss a (by simp)),
      Node.get_literals hsecurities hworkset hne (hss b (by simp)), Node.get_param (hss c (by simp)),
      Node.get_param (hss c (by simp)), Node.get_literal horderbook (hss d (by simp)),
      Node.get_param (hss d (by simp)), Node.get_leaf (hss e (by simp)), Node.get_leaf (hss e (by simp))]
    simp only [dispatch, ite_self]

/-- The text of the `RouterException`. -/
def noRoute (path : Str) (method : Method) : RouterException :=
  ⟨"HTTP: Could not find route for URL [" ++ String.ofList path ++ "] by HTTP method [" ++
    toString method.toSize ++ "]"⟩

theorem router_get (path : Str) (method : Method) :
    router.get path method = match dispatch (segments path) method with
      | some found => .ok found
      | none => .error (noRoute path method) := by
  have hss : ∀ s ∈ segments path, s ≠ [] := by
    intro s hs
    simpa using (List.mem_filter.mp hs).2
  have hget : router.root_.get (splitUrlPath path) [] method = dispatch (segments path) method := by
    rw [← Node.get_filter, filter_splitUrlPath, get_router hss]
  rw [Router.get, hget]
  cases dispatch (segments path) method with
  | none => rfl
  | some found => rfl

theorem urlParameter_self (name : String) (value : Str) (params : List (Str × Str)) :
    urlParameter ((name.toList, value) :: params) name = value := by
  rw [urlParameter, AssocMap.find, if_pos rfl, Option.getD_some]

/-- What the three routes are asked with. -/
inductive Asked (req : ApiRequest) : Prop where
  | orderbook (id : Str) (hmethod : req.method = .post)
      (hpath : segments req.path =
        ["itex-demo".toList, "securities".toList, id, "orderbook".toList]) : Asked req
  | workset (hmethod : req.method = .get)
      (hpath : segments req.path = ["itex-demo".toList, "workset.png".toList]) : Asked req
  | history (limit offset : Str) (hmethod : req.method = .get)
      (hpath : segments req.path = ["itex-demo".toList, "workset.png".toList, limit, offset]) :
      Asked req

theorem asked_of_dispatch {req : ApiRequest} {found : Action × List (Str × Str)}
    (h : dispatch (segments req.path) req.method = some found) : Asked req := by
  unfold dispatch at h
  split at h
  · next root workset hpath =>
    split_ifs at h with hroute
    obtain ⟨rfl, rfl, hmethod⟩ := hroute
    exact .workset hmethod hpath
  · next root resource third fourth hpath =>
    split_ifs at h with hroute hroute'
    · obtain ⟨rfl, rfl, rfl, hmethod⟩ := hroute
      exact .orderbook third hmethod hpath
    · obtain ⟨rfl, rfl, hmethod⟩ := hroute'
      exact .history third fourth hmethod hpath
  · cases h

/-- **The API.** Every request is answered by the function of its route with the segments of its own
path as parameters, and a request that is none of the three with the text of the exception: books are
read from local addresses only, for the number in the path, and a picture of the history for the two
numbers in the path. -/
theorem api_answers {D : Type*} (parse : Str → Option (List D × List D)) (req : ApiRequest)
    (timestamp : D) :
    (∀ id, req.method = .post → segments req.path =
        ["itex-demo".toList, "securities".toList, id, "orderbook".toList] →
      routeRequest parse req timestamp =
        if isLocalNetAddress req.address then
          match Decimal.stoull id with
          | .error e => some (.throw e)
          | .ok security_id => (parse req.body).bind fun arrays => (HttpServerHandler.readBook
              (UInt64.ofNat security_id) timestamp arrays.1 arrays.2).map .book
        else some (.respond (.forbidden req.address req.port))) ∧
    (req.method = .get → segments req.path = ["itex-demo".toList, "workset.png".toList] →
      routeRequest parse req timestamp = some (.draw none)) ∧
    (∀ limit offset, req.method = .get → segments req.path =
        ["itex-demo".toList, "workset.png".toList, limit, offset] →
      routeRequest parse req timestamp = match Decimal.stoull limit, Decimal.stoull offset with
        | .ok l, .ok o => some (.draw (some (l, o)))
        | .error e, _ => some (.throw e)
        | _, .error e => some (.throw e)) ∧
    (¬Asked req →
      routeRequest parse req timestamp =
        some (.respond (.notFound (noRoute req.path req.method)))) := by
  have hne : "workset.png".toList ≠ "securities".toList := by decide
  unfold routeRequest
  rw [router_get]
  refine ⟨?_, ?_, ?_, ?_⟩
  · intro id hmethod hpath
    have hdispatch : dispatch (segments req.path) req.method =
        some (.addOrderbook, [("id".toList, id)]) := by
      rw [hpath, hmethod, dispatch, if_pos ⟨rfl, rfl, rfl, rfl⟩]
    rw [hdispatch]
    dsimp only
    rewrite [readOrderbook, urlParameter_self]
    rfl
  · intro hmethod hpath
    have hdispatch : dispatch (segments req.path) req.method = some (.getWorksetPng, []) := by
      rw [hpath, hmethod, dispatch, if_pos ⟨rfl, rfl, rfl⟩]
    rw [hdispatch]
    rfl
  · intro limit offset hmethod hpath
    have hdispatch : dispatch (segments req.path) req.method =
        some (.getWorksetPng, [("limit".toList, limit), ("offset".toList, offset)]) := by
      rw [hpath, hmethod, dispatch, if_neg fun h => hne h.2.1, if_pos ⟨rfl, rfl, rfl⟩]
    have hoffset : urlParameter [("limit".toList, limit), ("offset".toList, offset)] "offset" =
        offset := by
      have hlimit : "limit".toList ≠ "offset".toList := by decide
      rw [urlParameter, AssocMap.find, if_neg hlimit, AssocMap.find, if_pos rfl, Option.getD_some]
    have hset : ((AssocMap.find [("limit".toList, limit), ("offset".toList, offset)]
        "limit".toList).isSome && (AssocMap.find [("limit".toList, limit), ("offset".toList, offset)]
          "offset".toList).isSome) = true := rfl
    rw [hdispatch]
    dsimp only
    rewrite [readWindow, if_pos hset, urlParameter_self, hoffset]
    cases Decimal.stoull limit with
    | error e => rfl
    | ok l =>
      cases Decimal.stoull offset with
      | error e => rfl
      | ok o => rfl
  · intro hno
    have hdispatch : dispatch (segments req.path) req.method = none := by
      rw [Option.eq_none_iff_forall_ne_some]
      intro found hfound
      exact hno (asked_of_dispatch hfound)
    rw [hdispatch]

/-- A book from the same host. -/
def localBook : ApiRequest where
  method := .post
  path := "//itex-demo/securities/7/orderbook".toList
  address := "127.0.0.1".toList
  port := 40000
  body := []

theorem api_answers_local_book :
    routeRequest (fun _ => some ([10, 11], [1, -1])) localBook (0 : Int) =
      match Decimal.stoull "7".toList with
      | .error e => some (.throw e)
      | .ok security_id => (HttpServerHandler.readBook (UInt64.ofNat security_id) (0 : Int) [10, 11]
          [1, -1]).map .book := by
  have hpath : segments localBook.path =
      ["itex-demo".toList, "securities".toList, "7".toList, "orderbook".toList] := rfl
  rw [(api_answers (fun _ => some ([10, 11], [1, -1])) localBook (0 : Int)).1 "7".toList rfl hpath]
  rfl

end DemoManager
