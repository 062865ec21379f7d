import ItexDemo.Lib.AssocMap
import ItexDemo.Http.Constants

/-!
# `http::Router`

The router keeps a trie over the segments of the registered rules. All segments that start with
`':'` share the child `":"`, which is named after the parameter that created it.
-/

namespace Http

/-- `Router::Node`, with children and handlers as association lists. -/
inductive Node (H : Type*) where
  | mk (name_ : Str) (children_ : List (Str × Node H)) (handlers_ : List (Nat × H))

namespace Node

variable {H : Type*}

/-- `Node(std::string name)`. -/
def new (name : Str) : Node H := mk name [] []

/-- `name()`. -/
def name : Node H → Str
  | mk n _ _ => n

/-- `children()`. -/
def children : Node H → List (Str × Node H)
  | mk _ c _ => c

/-- `handlers()`. -/
def handlers : Node H → List (Nat × H)
  | mk _ _ h => h

end Node

/-- The key of the child that all parameters share. -/
def paramKey : Str := [':']

/-- The key under which `Router::set` stores the child of a non-empty token. -/
def childKey (token : Str) : Str := if token.head? = some ':' then paramKey else token

/-- The name that `Router::set` gives to the child of a non-empty token. -/
def childName (token : Str) : Str := if token.head? = some ':' then token.tail else token

namespace Node

variable {H : Type*}

/-- The loop of `Router::set` from `node` on. -/
def set (node : Node H) (tokens : List Str) (method : Method) (handler : H) : Node H :=
  match tokens with
  | [] => mk node.name node.children (AssocMap.assign node.handlers method.toSize handler)
  | token :: rest =>
    if token = [] then node.set rest method handler
    else
      let child := (AssocMap.find node.children (childKey token)).getD (new (childName token))
      mk node.name
        (AssocMap.assign node.children (childKey token) (child.set rest method handler))
        node.handlers

/-- The loop of `Router::get` from `node` on; `none` stands for `std::out_of_range`. -/
def get (node : Node H) (tokens : List Str) (params : List (Str × Str)) (method : Method) :
    Option (H × List (Str × Str)) :=
  match tokens with
  | [] => (AssocMap.find node.handlers method.toSize).map fun h => (h, params)
  | token :: rest =>
    if token = [] then node.get rest params method
    else
      -- a token without a child of its own is treated as a parameter
      let key := if (AssocMap.find node.children token).isSome then token else paramKey
      match AssocMap.find node.children key with
      | none => none
      | some child =>
        let params' := if key = paramKey then AssocMap.assign params child.name token else params
        child.get rest params' method

end Node

/-- The result of `boost::split` with `token_compress_on`, from the tokens without it: adjacent
delimiters are merged, so only the first and the last token can be empty. -/
def compressTokens : List Str → List Str
  | [] => []
  | [token] => [token]
  | token :: tokens => token :: (tokens.dropLast.filter (· ≠ []) ++ tokens.getLast?.toList)

/-- `Router::split_url_path`. -/
def splitUrlPath (urlPath : Str) : List Str := compressTokens (urlPath.splitOn '/')

/-- The exception of `Router::get`; `http::Exception` puts `HTTP: ` before its text. -/
structure RouterException where
  what : String
  deriving DecidableEq, Repr

/-- `Router`. -/
structure Router (H : Type*) where
  root_ : Node H

namespace Router

variable {H : Type*}

/-- `Router()`. -/
def new : Router H := { root_ := Node.new [] }

/-- `Router::set`. -/
def set (r : Router H) (urlPathRule : Str) (method : Method) (handler : H) : Router H :=
  { root_ := r.root_.set (splitUrlPath urlPathRule) method handler }

/-- `Router::get`. -/
def get (r : Router H) (urlPath : Str) (method : Method) :
    Except RouterException (H × List (Str × Str)) :=
  match r.root_.get (splitUrlPath urlPath) [] method with
  | some result => .ok result
  | none => .error ⟨"HTTP: Could not find route for URL [" ++ String.ofList urlPath ++
      "] by HTTP method [" ++ toString method.toSize ++ "]"⟩

end Router

/-! ## The rule language -/

/-- A call of `Router::set`. -/
structure Rule (H : Type*) where
  rule : Str
  method : Method
  handler : H

/-- The router after a sequence of `set` calls. -/
def Router.ofRules {H : Type*} (rules : List (Rule H)) : Router H :=
  rules.foldl (fun r q => r.set q.rule q.method q.handler) Router.new

/-- The non-empty `'/'`-separated segments. -/
def segments (path : Str) : List Str := (path.splitOn '/').filter (· ≠ [])

/-- A rule segment matches a path segment: it is a parameter, or equal to it. -/
def SegmentMatches (ruleSegment pathSegment : Str) : Prop :=
  ruleSegment.head? = some ':' ∨ ruleSegment = pathSegment

/-- A rule matches a path. -/
def Matches (rule path : Str) : Prop := List.Forall₂ SegmentMatches (segments rule) (segments path)

/-- The shape of a rule: its literal segments, with `":"` for every parameter. -/
def shape (rule : Str) : List Str := (segments rule).map childKey

/-- `q` shadows `r` on `path`: at some segment `r` has a parameter where `q`, of the same shape
before it, has the segment of the path as a literal. -/
def Shadows {H : Type*} (q r : Rule H) (path : Str) : Prop :=
  ∃ n s, (shape q.rule).take n = (shape r.rule).take n ∧ (shape r.rule)[n]? = some paramKey ∧
    (shape q.rule)[n]? = some s ∧ (segments path)[n]? = some s ∧ s ≠ paramKey

/-- At the leftmost segment where their shapes differ, `r` has a literal and `q` a parameter. -/
def Preferred {H : Type*} (r q : Rule H) : Prop :=
  ∃ n s, (shape r.rule).take n = (shape q.rule).take n ∧ (shape r.rule)[n]? = some s ∧
    s ≠ paramKey ∧ (shape q.rule)[n]? = some paramKey

/-- The handler of `r`, the rule number `i`, is the one that is found for `path` and its method: `r`
matches and is not shadowed, and no later rule replaces its handler. -/
structure Selected {H : Type*} (rules : List (Rule H)) (i : Nat) (r : Rule H) (path : Str) : Prop where
  rule : rules[i]? = some r
  matching : Matches r.rule path
  unshadowed : ∀ q ∈ rules, ¬Shadows q r path
  latest : ∀ j q, rules[j]? = some q → shape q.rule = shape r.rule → q.method = r.method → j ≤ i

/-- The parameters of a rule have different names. -/
def DistinctParameters (rule : Str) : Prop :=
  ∀ (m n : Nat) (name : Str), (segments rule)[m]? = some (':' :: name) → (segments rule)[n]? = some (':' :: name) →
    m = n

/-- Every `':name'` of the rule has the segment of the path at its position as value, and no other
name has a value. -/
def Binds (rule path : Str) (params : List (Str × Str)) : Prop :=
  ∀ name value, AssocMap.find params name = some value ↔
    ∃ n : Nat, (segments rule)[n]? = some (':' :: name) ∧ (segments path)[n]? = some value

/-- The first rule whose shape begins with these keys, which made the node that they lead to. -/
def firstThrough {H : Type*} (rules : List (Rule H)) (ks : List Str) : Option (Rule H) :=
  rules.find? fun q => ks.isPrefixOf (shape q.rule)

/-- Every parameter of `r` has the name that the first rule through its node has for it. -/
def NamedFirst {H : Type*} (rules : List (Rule H)) (r : Rule H) : Prop :=
  ∀ (n : Nat) (q : Rule H), (shape r.rule)[n]? = some paramKey →
    firstThrough rules ((shape r.rule).take (n + 1)) = some q →
      (segments q.rule)[n]? = (segments r.rule)[n]?

end Http
