import Mathlib.Data.List.Perm.Subperm
import ItexDemo.Http.Proofs.RouterProofs
import ItexDemo.Http.RouterNodes

/-!
# Proofs: routers do not share nodes

A trie is in the heap when its nodes are at addresses of their own (`Rep`), its footprint. What is done
to a router changes the objects of its footprint and makes new ones (`Changes`), so that the tries of
the other routers stay where they are.
-/

namespace Http

open Transition

variable {H : Type*}

/-! ## Tries in the heap -/

mutual

/-- The trie is at this address, with the nodes of the footprint `fp`. -/
inductive Rep (heap : NodeHeap H) : Nat → Node H → List Nat → Prop where
  | node {a : Nat} {name : Str} {ptrs : List (Str × Nat)} {children : List (Str × Node H)}
      {handlers : List (Nat × H)} {fp : List Nat} (hread : heap[a]? = some ⟨name, ptrs, handlers⟩)
      (hkeys : (ptrs.map Prod.fst).Nodup) (hchildren : RepChildren heap ptrs children fp)
      (hfresh : a ∉ fp) : Rep heap a (.mk name children handlers) (a :: fp)

/-- The tries of the children, without nodes in common. -/
inductive RepChildren (heap : NodeHeap H) :
    List (Str × Nat) → List (Str × Node H) → List Nat → Prop where
  | nil : RepChildren heap [] [] []
  | cons {key : Str} {p : Nat} {child : Node H} {ptrs : List (Str × Nat)}
      {children : List (Str × Node H)} {fp fps : List Nat} (hchild : Rep heap p child fp)
      (hrest : RepChildren heap ptrs children fps) (hdisjoint : ∀ x ∈ fp, x ∉ fps) :
      RepChildren heap ((key, p) :: ptrs) ((key, child) :: children) (fp ++ fps)

end

section Rep

variable {heap heap' : NodeHeap H} {a : Nat} {t : Node H} {ptrs : List (Str × Nat)}
  {children : List (Str × Node H)} {fp : List Nat}

mutual

/-- A trie stays where its nodes stay. -/
theorem Rep.frame {heap heap' : NodeHeap H} : ∀ {a : Nat} {t : Node H} {fp : List Nat},
    Rep heap a t fp → (∀ x ∈ fp, heap'[x]? = heap[x]?) → Rep heap' a t fp
  | _, _, _, .node hread hkeys hchildren hfresh, h =>
    .node ((h _ List.mem_cons_self).trans hread) hkeys
      (hchildren.frame fun x hx => h x (List.mem_cons_of_mem _ hx)) hfresh

theorem RepChildren.frame {heap heap' : NodeHeap H} : ∀ {ptrs : List (Str × Nat)}
    {children : List (Str × Node H)} {fp : List Nat}, RepChildren heap ptrs children fp →
      (∀ x ∈ fp, heap'[x]? = heap[x]?) → RepChildren heap' ptrs children fp
  | _, _, _, .nil, _ => .nil
  | _, _, _, .cons hchild hrest hdisjoint, h =>
    .cons (hchild.frame fun x hx => h x (List.mem_append_left _ hx))
      (hrest.frame fun x hx => h x (List.mem_append_right _ hx)) hdisjoint

end

mutual

/-- The nodes of a trie have been made. -/
theorem Rep.lt {heap : NodeHeap H} : ∀ {a : Nat} {t : Node H} {fp : List Nat},
    Rep heap a t fp → ∀ x ∈ fp, x < heap.length
  | _, _, _, .node hread _ hchildren _, x, hx => by
    rcases List.mem_cons.mp hx with rfl | hx
    · exact (List.getElem?_eq_some_iff.mp hread).1
    · exact hchildren.lt x hx

theorem RepChildren.lt {heap : NodeHeap H} : ∀ {ptrs : List (Str × Nat)}
    {children : List (Str × Node H)} {fp : List Nat}, RepChildren heap ptrs children fp →
      ∀ x ∈ fp, x < heap.length
  | _, _, _, .nil, x, hx => absurd hx List.not_mem_nil
  | _, _, _, .cons hchild hrest _, x, hx => by
    rcases List.mem_append.mp hx with hx | hx
    · exact hchild.lt x hx
    · exact hrest.lt x hx

end

mutual

/-- No node is in a trie twice. -/
theorem Rep.nodup {heap : NodeHeap H} : ∀ {a : Nat} {t : Node H} {fp : List Nat},
    Rep heap a t fp → fp.Nodup
  | _, _, _, .node _ _ hchildren hfresh => List.nodup_cons.mpr ⟨hfresh, hchildren.nodup⟩

theorem RepChildren.nodup {heap : NodeHeap H} : ∀ {ptrs : List (Str × Nat)}
    {children : List (Str × Node H)} {fp : List Nat}, RepChildren heap ptrs children fp → fp.Nodup
  | _, _, _, .nil => List.nodup_nil
  | _, _, _, .cons hchild hrest hdisjoint =>
    List.nodup_append.mpr ⟨hchild.nodup, hrest.nodup,
      fun x hx _ hy hxy => hdisjoint x hx (hxy ▸ hy)⟩

end

theorem Rep.mem (h : Rep heap a t fp) : a ∈ fp := by
  cases h
  exact List.mem_cons_self

theorem RepChildren.keys (h : RepChildren heap ptrs children fp) :
    children.map Prod.fst = ptrs.map Prod.fst := by
  induction ptrs generalizing children fp with
  | nil =>
    cases h
    rfl
  | cons ptr ptrs ih =>
    cases h with
    | cons hchild hrest hdisjoint => rw [List.map_cons, List.map_cons, ih hrest]

theorem RepChildren.find_none (h : RepChildren heap ptrs children fp) {key : Str}
    (hnone : AssocMap.find ptrs key = none) : AssocMap.find children key = none := by
  induction ptrs generalizing children fp with
  | nil =>
    cases h
    rfl
  | cons ptr ptrs ih =>
    cases h with
    | cons hchild hrest hdisjoint =>
      rw [AssocMap.find] at hnone ⊢
      split_ifs at hnone with hk
      rw [if_neg hk]
      exact ih hrest hnone

/-- A child of the trie, which can be replaced by one whose nodes are its own or new. -/
theorem RepChildren.focus (h : RepChildren heap ptrs children fp) {key : Str} {p : Nat}
    (hfind : AssocMap.find ptrs key = some p) :
    ∃ child fpc, AssocMap.find children key = some child ∧ Rep heap p child fpc ∧
      (∀ x ∈ fpc, x ∈ fp) ∧
      ∀ (heap' : NodeHeap H) (child' : Node H) (fpc' : List Nat), Rep heap' p child' fpc' →
        (∀ x ∈ fp, x ∉ fpc → heap'[x]? = heap[x]?) → (∀ x ∈ fpc', x ∈ fp → x ∈ fpc) →
          ∃ fp', RepChildren heap' ptrs (AssocMap.assign children key child') fp' ∧
            ∀ x ∈ fp', x ∈ fp ∨ x ∈ fpc' := by
  induction ptrs generalizing children fp with
  | nil => cases hfind
  | cons ptr ptrs ih =>
    cases h with
    | @cons key' p' child ptrs children fp₁ fp₂ hchild hrest hdisjoint =>
      rw [AssocMap.find] at hfind
      split_ifs at hfind with hk
      · cases hfind
        refine ⟨child, fp₁, by rw [AssocMap.find, if_pos hk], hchild,
          fun x hx => List.mem_append_left _ hx, fun heap' child' fpc' hchild' hframe hown => ?_⟩
        rw [AssocMap.assign, if_pos hk]
        subst hk
        refine ⟨fpc' ++ fp₂, .cons hchild' (hrest.frame fun x hx => ?_) fun x hx hx₂ => ?_,
          fun x hx => ?_⟩
        · exact hframe x (List.mem_append_right _ hx) fun hx₁ => hdisjoint x hx₁ hx
        · exact hdisjoint x (hown x hx (List.mem_append_right _ hx₂)) hx₂
        · rcases List.mem_append.mp hx with hx | hx
          · exact .inr hx
          · exact .inl (List.mem_append_right _ hx)
      · obtain ⟨child₀, fpc, hfind₀, hchild₀, hsub, hreplace⟩ := ih hrest hfind
        refine ⟨child₀, fpc, by rw [AssocMap.find, if_neg hk, hfind₀], hchild₀,
          fun x hx => List.mem_append_right _ (hsub x hx), fun heap' child' fpc' hchild' hframe hown => ?_⟩
        obtain ⟨fp', hrest', hfp'⟩ := hreplace heap' child' fpc' hchild'
          (fun x hx => hframe x (List.mem_append_right _ hx))
          fun x hx hx₂ => hown x hx (List.mem_append_right _ hx₂)
        rw [AssocMap.assign, if_neg hk]
        refine ⟨fp₁ ++ fp', .cons (hchild.frame fun x hx => ?_) hrest' fun x hx hx' => ?_,
          fun x hx => ?_⟩
        · exact hframe x (List.mem_append_left _ hx) fun hxc => hdisjoint x hx (hsub x hxc)
        · rcases hfp' x hx' with hx₂ | hxc
          · exact hdisjoint x hx hx₂
          · exact hdisjoint x hx (hsub x (hown x hxc (List.mem_append_left _ hx)))
        · rcases List.mem_append.mp hx with hx | hx
          · exact .inl (List.mem_append_left _ hx)
          · exact (hfp' x hx).imp_left (List.mem_append_right _)

/-- One more child. -/
theorem RepChildren.snoc (h : RepChildren heap ptrs children fp) {key : Str} {p : Nat}
    {child : Node H} {fpc : List Nat} (hchild : Rep heap p child fpc) (hdisjoint : ∀ x ∈ fp, x ∉ fpc) :
    RepChildren heap (ptrs ++ [(key, p)]) (children ++ [(key, child)]) (fp ++ fpc) := by
  induction ptrs generalizing children fp with
  | nil =>
    cases h
    have hone : RepChildren heap [(key, p)] [(key, child)] (fpc ++ []) :=
      .cons hchild .nil fun x _ => List.not_mem_nil
    rwa [List.append_nil] at hone
  | cons ptr ptrs ih =>
    cases h with
    | cons hfirst hrest hdisjoint' =>
      rw [List.append_assoc]
      refine .cons hfirst (ih hrest fun x hx => hdisjoint x (List.mem_append_right _ hx)) ?_
      intro x hx hx'
      rcases List.mem_append.mp hx' with hx' | hx'
      · exact hdisjoint' x hx hx'
      · exact hdisjoint x (List.mem_append_left _ hx) hx'

end Rep

/-! ## Looking a path up -/

/-- The lookup in the heap is the lookup in the trie. -/
theorem Rep.get {heap : NodeHeap H} {a : Nat} {t : Node H} {fp : List Nat} (h : Rep heap a t fp)
    (tokens : List Str) (params : List (Str × Str)) (method : Method) :
    heap.get a tokens params method = t.get tokens params method := by
  induction tokens generalizing a t fp params with
  | nil =>
    cases h with
    | node hread hkeys hchildren hfresh =>
      rw [NodeHeap.get, hread]
      rfl
  | cons token rest ih =>
    by_cases ht : token = []
    · rw [NodeHeap.get, Node.get, if_pos ht, if_pos ht]
      exact ih h params
    · cases h with
      | @node a name ptrs children handlers fp hread hkeys hchildren hfresh =>
        have hsome : ∀ key, (AssocMap.find children key).isSome = (AssocMap.find ptrs key).isSome := by
          intro key
          rw [Bool.eq_iff_iff, AssocMap.find_isSome, AssocMap.find_isSome, hchildren.keys]
        rw [NodeHeap.get, Node.get, if_neg ht, if_neg ht, hread, Option.bind_some]
        simp only [Node.children, hsome]
        set key := if (AssocMap.find ptrs token).isSome = true then token else paramKey
        cases hfind : AssocMap.find ptrs key with
        | none => rw [hchildren.find_none hfind]
        | some p =>
          obtain ⟨child, fpc, hchild, hrep, -, -⟩ := hchildren.focus hfind
          rw [hchild]
          have hname : heap[p]?.map NodeObject.name_ = some child.name := by
            cases hrep with
            | node hread' => rw [hread']; rfl
          obtain ⟨c, hc, hcname⟩ := Option.map_eq_some_iff.mp hname
          simp only [hc, Option.bind_some, hcname]
          exact ih hrep _

/-! ## Registering a rule -/

/-- Only objects of the footprint `fp` are changed, and the footprint `fp'` after it has new nodes
besides. -/
structure Changes (heap heap' : NodeHeap H) (fp fp' : List Nat) : Prop where
  length_le : heap.length ≤ heap'.length
  others : ∀ x, x < heap.length → x ∉ fp → heap'[x]? = heap[x]?
  fresh : ∀ x ∈ fp', x ∈ fp ∨ heap.length ≤ x

theorem Changes.trans {heap heap₁ heap₂ : NodeHeap H} {fp fp₁ fp₂ : List Nat}
    (h₁ : Changes heap heap₁ fp fp₁) (h₂ : Changes heap₁ heap₂ fp₁ fp₂) :
    Changes heap heap₂ fp fp₂ where
  length_le := Nat.le_trans h₁.length_le h₂.length_le
  others := fun x hx hxfp => by
    have hx₁ : x ∉ fp₁ := by
      intro hmem
      rcases h₁.fresh x hmem with hold | hge
      · exact hxfp hold
      · exact absurd hx (Nat.not_lt.mpr hge)
    rw [h₂.others x (Nat.lt_of_lt_of_le hx h₁.length_le) hx₁, h₁.others x hx hxfp]
  fresh := fun x hx => by
    rcases h₂.fresh x hx with hmem | hge
    · exact h₁.fresh x hmem
    · exact .inr (Nat.le_trans h₁.length_le hge)

/-- The first node of a footprint is changed. -/
theorem Changes.self (heap : NodeHeap H) (a : Nat) (n : NodeObject H) (fp : List Nat) :
    Changes heap (List.set heap a n) (a :: fp) (a :: fp) where
  length_le := Nat.le_of_eq List.length_set.symm
  others := fun x _ hx => by
    refine List.getElem?_set_ne ?_
    rintro rfl
    exact hx List.mem_cons_self
  fresh := fun _ hx => .inl hx

theorem Rep.set {heap : NodeHeap H} {a : Nat} {t : Node H} {fp : List Nat} (h : Rep heap a t fp)
    (tokens : List Str) (method : Method) (handler : H) :
    ∃ heap' fp', heap.set a tokens method handler = some heap' ∧
      Rep heap' a (t.set tokens method handler) fp' ∧ Changes heap heap' fp fp' := by
  induction tokens generalizing heap a t fp with
  | nil =>
    cases h with
    | @node a name ptrs children handlers fp hread hkeys hchildren hfresh =>
      have hlt := (List.getElem?_eq_some_iff.mp hread).1
      refine ⟨_, a :: fp, by rw [NodeHeap.set, hread]; rfl,
        .node (List.getElem?_set_self hlt) hkeys (hchildren.frame fun x hx => ?_) hfresh,
        .self heap a _ fp⟩
      refine List.getElem?_set_ne ?_
      rintro rfl
      exact hfresh hx
  | cons token rest ih =>
    by_cases ht : token = []
    · rw [NodeHeap.set, Node.set, if_pos ht, if_pos ht]
      exact ih h
    · cases h with
      | @node a name ptrs children handlers fp hread hkeys hchildren hfresh =>
        have hlt := (List.getElem?_eq_some_iff.mp hread).1
        rw [NodeHeap.set, Node.set, if_neg ht, if_neg ht, hread, Option.bind_some]
        cases hfind : AssocMap.find ptrs (childKey token) with
        | some p =>
          obtain ⟨child, fpc, hchild, hrep, hsub, hreplace⟩ := hchildren.focus hfind
          obtain ⟨heap', fpc', hset, hrep', hchanges⟩ := ih hrep
          have hacell : a ∉ fpc := fun ha => hfresh (hsub a ha)
          obtain ⟨fp', hchildren', hfp'⟩ := hreplace heap' _ fpc' hrep'
            (fun x hx hxc => hchanges.others x (hchildren.lt x hx) hxc) fun x hx hxfp => by
              rcases hchanges.fresh x hx with hxc | hge
              · exact hxc
              · exact absurd (hchildren.lt x hxfp) (Nat.not_lt.mpr hge)
          have hread' : heap'[a]? = some ⟨name, ptrs, handlers⟩ :=
            (hchanges.others a hlt hacell).trans hread
          refine ⟨heap', a :: fp', hset, ?_, hchanges.length_le, fun x hx hxfp => ?_, fun x hx => ?_⟩
          · simp only [Node.name, Node.children, Node.handlers, hchild, Option.getD_some]
            refine .node hread' hkeys hchildren' fun ha => ?_
            rcases hfp' a ha with ha | ha
            · exact hfresh ha
            · rcases hchanges.fresh a ha with ha | hge
              · exact hacell ha
              · exact absurd hlt (Nat.not_lt.mpr hge)
          · exact hchanges.others x hx fun hxc => hxfp (List.mem_cons_of_mem _ (hsub x hxc))
          · rcases List.mem_cons.mp hx with rfl | hx
            · exact .inl List.mem_cons_self
            · rcases hfp' x hx with hx | hx
              · exact .inl (List.mem_cons_of_mem _ hx)
              · exact (hchanges.fresh x hx).imp_left
                  fun hxc => List.mem_cons_of_mem _ (hsub x hxc)
        | none =>
          -- the new child is the object behind all others
          set heap₁ : NodeHeap H := List.set heap a
            ⟨name, AssocMap.emplace ptrs (childKey token) heap.length, handlers⟩ ++
              [.new (childName token)] with hheap₁
          have hlen₁ : heap₁.length = heap.length + 1 := by
            rw [hheap₁, List.length_append, List.length_set, List.length_singleton]
          have hold : ∀ x, x < heap.length → x ≠ a → heap₁[x]? = heap[x]? := by
            intro x hx hxa
            rw [hheap₁, List.getElem?_append_left (by rwa [List.length_set]),
              List.getElem?_set_ne hxa.symm]
          have hnode : heap₁[a]? =
              some ⟨name, AssocMap.emplace ptrs (childKey token) heap.length, handlers⟩ := by
            rw [hheap₁, List.getElem?_append_left (by rwa [List.length_set]),
              List.getElem?_set_self hlt]
          have hnew : heap₁[heap.length]? = some (.new (childName token)) := by
            rw [hheap₁, List.getElem?_append_right (Nat.le_of_eq List.length_set), List.length_set,
              Nat.sub_self]
            rfl
          have hrepnew : Rep heap₁ heap.length (Node.new (childName token) : Node H) [heap.length] :=
            .node hnew List.nodup_nil .nil List.not_mem_nil
          obtain ⟨heap', fpc', hset, hrep', hchanges⟩ := ih hrepnew
          rw [AssocMap.emplace_of_none hfind] at hnode
          have hnotnew : ∀ x, x < heap.length → x ∉ [heap.length] := by
            intro x hx hmem
            exact Nat.ne_of_lt hx (List.mem_singleton.mp hmem)
          have hfreshc : ∀ x ∈ fpc', heap.length ≤ x := by
            intro x hx
            rcases hchanges.fresh x hx with hmem | hge
            · exact Nat.le_of_eq (List.mem_singleton.mp hmem).symm
            · omega
          have hread' : heap'[a]? = some ⟨name, ptrs ++ [(childKey token, heap.length)], handlers⟩ :=
            (hchanges.others a (by omega) (hnotnew a hlt)).trans hnode
          have hchildren' : RepChildren heap' ptrs children fp := hchildren.frame fun x hx => by
            have hxlt := hchildren.lt x hx
            have hxa : x ≠ a := by
              rintro rfl
              exact hfresh hx
            rw [hchanges.others x (by omega) (hnotnew x hxlt), hold x hxlt hxa]
          have hnone := hchildren.find_none hfind
          refine ⟨heap', a :: (fp ++ fpc'), hset, ?_, ⟨by have := hchanges.length_le; omega,
            fun x hx hxfp => ?_, fun x hx => ?_⟩⟩
          · simp only [Node.name, Node.children, Node.handlers, hnone, Option.getD_none]
            rw [AssocMap.assign_of_none hnone]
            refine .node hread' ?_ (hchildren'.snoc hrep' fun x hx hxc => ?_) fun ha => ?_
            · have hnodup := AssocMap.nodup_emplace hkeys (childKey token) heap.length
              rwa [AssocMap.emplace_of_none hfind] at hnodup
            · exact absurd (hchildren.lt x hx) (Nat.not_lt.mpr (hfreshc x hxc))
            · rcases List.mem_append.mp ha with ha | ha
              · exact hfresh ha
              · exact absurd hlt (Nat.not_lt.mpr (hfreshc a ha))
          · have hxa : x ≠ a := by
              rintro rfl
              exact hxfp List.mem_cons_self
            rw [hchanges.others x (by omega) (hnotnew x hx), hold x hx hxa]
          · rcases List.mem_cons.mp hx with rfl | hx
            · exact .inl List.mem_cons_self
            · rcases List.mem_append.mp hx with hx | hx
              · exact .inl (List.mem_cons_of_mem _ hx)
              · exact .inr (hfreshc x hx)

/-! ## Copying -/

namespace Node

/-- Children that are stored unless there is one with their key. -/
def emplaceAll (children others : List (Str × Node H)) : List (Str × Node H) :=
  others.foldl (fun m c => AssocMap.emplace m c.1 c.2) children

/-- What `operator=` makes of a node: the children that it has stay. -/
def assign (node other : Node H) : Node H :=
  mk other.name (emplaceAll node.children other.children) other.handlers

end Node

/-- Children with different keys are all stored, in order, behind those with other keys. -/
theorem emplaceAll_of_nodup {children others : List (Str × Node H)}
    (h : ((children ++ others).map Prod.fst).Nodup) :
    Node.emplaceAll children others = children ++ others := by
  induction others generalizing children with
  | nil => exact (List.append_nil _).symm
  | cons other others ih =>
    obtain ⟨key, other⟩ := other
    have hnone : AssocMap.find children key = none := by
      refine AssocMap.find_eq_none fun p hp heq => ?_
      rw [List.map_append, List.nodup_append] at h
      exact h.2.2 p.1 (List.mem_map_of_mem hp) key (by simp) heq
    have hcons : Node.emplaceAll children ((key, other) :: others) =
        Node.emplaceAll (AssocMap.emplace children key other) others := rfl
    rw [hcons, AssocMap.emplace_of_none hnone, ih (by simpa using h)]
    simp

/-- The trie of a new node to which another one is assigned. -/
theorem assign_new {other : Node H} (h : (other.children.map Prod.fst).Nodup) (name : Str) :
    (Node.new name).assign other = other := by
  have hall : Node.emplaceAll [] other.children = other.children := emplaceAll_of_nodup h
  cases other
  exact congrArg (fun c => Node.mk _ c _) hall

theorem Rep.keys {heap : NodeHeap H} {a : Nat} {t : Node H} {fp : List Nat} (h : Rep heap a t fp) :
    (t.children.map Prod.fst).Nodup := by
  cases h with
  | node hread hkeys hchildren hfresh => exact hchildren.keys ▸ hkeys

/-- A child that is stored unless there is one with its key. -/
theorem RepChildren.emplace {heap : NodeHeap H} {ptrs : List (Str × Nat)}
    {children : List (Str × Node H)} {fp fpc : List Nat} (h : RepChildren heap ptrs children fp)
    (key : Str) {p : Nat} {child : Node H} (hchild : Rep heap p child fpc)
    (hdisjoint : ∀ x ∈ fp, x ∉ fpc) :
    ∃ fp', RepChildren heap (AssocMap.emplace ptrs key p) (AssocMap.emplace children key child) fp' ∧
      ∀ x ∈ fp', x ∈ fp ∨ x ∈ fpc := by
  cases hfind : AssocMap.find ptrs key with
  | some q =>
    obtain ⟨child', fpc', hchild', -⟩ := h.focus hfind
    rw [AssocMap.emplace_of_some hfind, AssocMap.emplace_of_some hchild']
    exact ⟨fp, h, fun x hx => .inl hx⟩
  | none =>
    rw [AssocMap.emplace_of_none hfind, AssocMap.emplace_of_none (h.find_none hfind)]
    exact ⟨fp ++ fpc, h.snoc hchild hdisjoint, fun x hx => List.mem_append.mp hx⟩

/-- A function that assigns the tries of at most `depth` nodes. -/
def Assigns (copy : NodeHeap H → Nat → Nat → Option (NodeHeap H)) (depth : Nat) : Prop :=
  ∀ (heap : NodeHeap H) (a b : Nat) (t u : Node H) (fp fpb : List Nat), Rep heap a t fp →
    Rep heap b u fpb → (∀ x ∈ fp, x ∉ fpb) → fpb.length ≤ depth →
      ∃ heap' fp', copy heap a b = some heap' ∧ Rep heap' a (t.assign u) fp' ∧
        Changes heap heap' fp fp'

/-- The loop over the children of `other`, into the node `a`. -/
theorem copyChildren_rep {copy : NodeHeap H → Nat → Nat → Option (NodeHeap H)} {depth : Nat}
    (hcopy : Assigns copy depth) {heap : NodeHeap H} {others : List (Str × Nat)}
    {otherChildren : List (Str × Node H)} {fpo : List Nat}
    (ho : RepChildren heap others otherChildren fpo) (hdepth : fpo.length ≤ depth) {a : Nat}
    {name : Str} {ptrs : List (Str × Nat)} {children : List (Str × Node H)}
    {handlers : List (Nat × H)} {fp : List Nat} (hread : heap[a]? = some ⟨name, ptrs, handlers⟩)
    (hkeys : (ptrs.map Prod.fst).Nodup) (hchildren : RepChildren heap ptrs children fp)
    (hfresh : a ∉ fp) (ha : a ∉ fpo) (hdisjoint : ∀ x ∈ fp, x ∉ fpo) :
    ∃ heap' ptrs' fp', NodeHeap.copyChildren copy a others heap = some heap' ∧
      heap'[a]? = some ⟨name, ptrs', handlers⟩ ∧ (ptrs'.map Prod.fst).Nodup ∧
      RepChildren heap' ptrs' (Node.emplaceAll children otherChildren) fp' ∧ a ∉ fp' ∧
      Changes heap heap' (a :: fp) (a :: fp') := by
  induction others generalizing heap otherChildren fpo ptrs children fp with
  | nil =>
    cases ho
    exact ⟨heap, ptrs, fp, rfl, hread, hkeys, hchildren, hfresh,
      ⟨Nat.le_refl _, fun _ _ _ => rfl, fun x hx => .inl hx⟩⟩
  | cons other others ih =>
    cases ho with
    | @cons key p child _ otherChildren fpc fpo hchild hrest hapart =>
      have halt := (List.getElem?_eq_some_iff.mp hread).1
      have hold : ∀ x, x < heap.length → (heap ++ [NodeObject.new []])[x]? = heap[x]? :=
        fun x hx => List.getElem?_append_left hx
      have hnew : Rep (heap ++ [NodeObject.new []]) heap.length (Node.new [] : Node H) [heap.length] :=
        .node List.getElem?_concat_length List.nodup_nil .nil List.not_mem_nil
      have hnotnew : ∀ x, x < heap.length → x ∉ [heap.length] := by
        intro x hx hmem
        exact Nat.ne_of_lt hx (List.mem_singleton.mp hmem)
      obtain ⟨heap₂, fp₂, hcopied, hrep₂, hchanges₂⟩ := hcopy _ heap.length p _ child [heap.length]
        fpc hnew (hchild.frame fun x hx => hold x (hchild.lt x hx))
        (fun x hx hmem => hnotnew x (hchild.lt x hmem) hx)
        (by rw [List.length_append] at hdepth; omega)
      rw [assign_new hchild.keys] at hrep₂
      have hlen₂ : heap.length < heap₂.length := by
        have hle := hchanges₂.length_le
        rw [List.length_append, List.length_singleton] at hle
        exact hle
      have hold₂ : ∀ x, x < heap.length → heap₂[x]? = heap[x]? := by
        intro x hx
        rw [hchanges₂.others x (by rw [List.length_append]; omega) (hnotnew x hx), hold x hx]
      have hfp₂ : ∀ x ∈ fp₂, heap.length ≤ x := by
        intro x hx
        rcases hchanges₂.fresh x hx with hmem | hge
        · exact Nat.le_of_eq (List.mem_singleton.mp hmem).symm
        · rw [List.length_append] at hge
          omega
      -- the copy is stored in the node
      set heap₃ : NodeHeap H :=
        List.set heap₂ a ⟨name, AssocMap.emplace ptrs key heap.length, handlers⟩ with hheap₃
      have hlen₃ : heap₃.length = heap₂.length := List.length_set
      have hne₃ : ∀ x, x ≠ a → heap₃[x]? = heap₂[x]? := fun x hx => List.getElem?_set_ne hx.symm
      have hread₃ : heap₃[a]? = some ⟨name, AssocMap.emplace ptrs key heap.length, handlers⟩ :=
        List.getElem?_set_self (by omega)
      have hstay : ∀ x, x < heap.length → x ≠ a → heap₃[x]? = heap[x]? :=
        fun x hx hxa => (hne₃ x hxa).trans (hold₂ x hx)
      have hchildren₃ : RepChildren heap₃ ptrs children fp := hchildren.frame fun x hx =>
        hstay x (hchildren.lt x hx) fun heq => hfresh (heq ▸ hx)
      have hrest₃ : RepChildren heap₃ others otherChildren fpo := hrest.frame fun x hx =>
        hstay x (hrest.lt x hx) fun heq => ha (heq ▸ List.mem_append_right _ hx)
      have hrep₃ : Rep heap₃ heap.length child fp₂ := hrep₂.frame fun x hx =>
        hne₃ x fun heq => absurd halt (Nat.not_lt.mpr (heq ▸ hfp₂ x hx))
      obtain ⟨fp₃, hemplaced, hfp₃⟩ := hchildren₃.emplace key hrep₃ fun x hx hx₂ =>
        absurd (hchildren.lt x hx) (Nat.not_lt.mpr (hfp₂ x hx₂))
      have hchanges₃ : Changes heap heap₃ (a :: fp) (a :: fp₃) := by
        refine ⟨by omega, fun x hx hxfp => hstay x hx fun heq => hxfp (heq ▸ List.mem_cons_self),
          fun x hx => ?_⟩
        rcases List.mem_cons.mp hx with rfl | hx
        · exact .inl List.mem_cons_self
        · exact (hfp₃ x hx).imp (List.mem_cons_of_mem _) (hfp₂ x)
      obtain ⟨heap', ptrs', fp', hloop, hread', hkeys', hchildren', hfresh', hchanges'⟩ :=
        ih hrest₃ (by rw [List.length_append] at hdepth; omega) hread₃
          (AssocMap.nodup_emplace hkeys _ _) hemplaced
          (fun hmem => (hfp₃ a hmem).elim hfresh fun hx => absurd halt (Nat.not_lt.mpr (hfp₂ a hx)))
          (fun hmem => ha (List.mem_append_right _ hmem))
          fun x hx hxo => (hfp₃ x hx).elim (fun hx => hdisjoint x hx (List.mem_append_right _ hxo))
            fun hx => absurd (hrest.lt x hxo) (Nat.not_lt.mpr (hfp₂ x hx))
      refine ⟨heap', ptrs', fp', ?_, hread', hkeys', hchildren', hfresh', hchanges₃.trans hchanges'⟩
      rw [NodeHeap.copyChildren, hcopied, Option.bind_some, hold₂ a halt, hread, Option.bind_some]
      exact hloop

/-- `operator=` keeps the tries of others, and makes of its node what `Node.assign` says. -/
theorem assigns_assign (depth : Nat) :
    Assigns (NodeHeap.assign depth : NodeHeap H → Nat → Nat → Option (NodeHeap H)) depth := by
  induction depth with
  | zero =>
    intro heap a b t u fp fpb _ hb _ hdepth
    have hpos := List.length_pos_of_mem hb.mem
    omega
  | succ depth ih =>
    intro heap a b t u fp fpb ht hu hdisjoint hdepth
    cases ht with
    | @node _ name ptrs children handlers fp hread hkeys hchildren hfresh =>
      cases hu with
      | @node _ nameb ptrsb childrenb handlersb fpb hreadb hkeysb hchildrenb hfreshb =>
        have hab : a ∉ b :: fpb := hdisjoint a List.mem_cons_self
        have hafpb : a ∉ fpb := fun hmem => hab (List.mem_cons_of_mem _ hmem)
        have halt := (List.getElem?_eq_some_iff.mp hread).1
        have hne : ∀ (h : NodeHeap H) n x, x ≠ a → (List.set h a n)[x]? = h[x]? :=
          fun h n x hx => List.getElem?_set_ne hx.symm
        have hchildrenb₁ : RepChildren (List.set heap a ⟨nameb, ptrs, handlers⟩) ptrsb childrenb fpb :=
          hchildrenb.frame fun x hx => hne heap _ x fun heq => hafpb (heq ▸ hx)
        obtain ⟨heap₂, ptrs', fp', hloop, hread₂, hkeys₂, hchildren₂, hfresh₂, hchanges₂⟩ :=
          copyChildren_rep ih hchildrenb₁
            (by rw [List.length_cons] at hdepth; omega) (List.getElem?_set_self halt) hkeys
            (hchildren.frame fun x hx => hne heap _ x fun heq => hfresh (heq ▸ hx)) hfresh hafpb
            fun x hx hxb => hdisjoint x (List.mem_cons_of_mem _ hx) (List.mem_cons_of_mem _ hxb)
        have halt₂ := (List.getElem?_eq_some_iff.mp hread₂).1
        refine ⟨List.set heap₂ a ⟨nameb, ptrs', handlersb⟩, a :: fp', ?_, ?_,
          ((Changes.self heap a _ fp).trans hchanges₂).trans (.self heap₂ a _ fp')⟩
        · rw [NodeHeap.assign, hreadb, Option.bind_some, hread, Option.bind_some, hloop,
            Option.bind_some, hread₂]
          rfl
        · exact .node (List.getElem?_set_self halt₂) hkeys₂
            (hchildren₂.frame fun x hx => hne heap₂ _ x fun heq => hfresh₂ (heq ▸ hx)) hfresh₂

/-! ## Looking a path up after a copy -/

theorem find_emplaceAll (children others : List (Str × Node H)) (key : Str) :
    AssocMap.find (Node.emplaceAll children others) key =
      (AssocMap.find children key).or (AssocMap.find others key) := by
  induction others generalizing children with
  | nil => exact Option.or_none.symm
  | cons other others ih =>
    obtain ⟨k, other⟩ := other
    have hcons : Node.emplaceAll children ((k, other) :: others) =
        Node.emplaceAll (AssocMap.emplace children k other) others := rfl
    rw [hcons, ih, AssocMap.find]
    cases hfind : AssocMap.find children k with
    | some c =>
      rw [AssocMap.emplace_of_some hfind]
      split_ifs with hk
      · rw [← hk, hfind]
        rfl
      · rfl
    | none =>
      rw [AssocMap.emplace_of_none hfind, AssocMap.find_append]
      by_cases hk : k = key
      · subst hk
        simp [hfind, AssocMap.find]
      · simp [hk, AssocMap.find]

/-- A lookup in a node that was assigned to goes on in the old trie when its first segment leads to a
child that was there, and else in the one that was assigned. -/
theorem get_assign (t u : Node H) (tokens : List Str) (params : List (Str × Str)) (method : Method) :
    (t.assign u).get tokens params method =
      if ∃ s, (tokens.filter (· ≠ [])).head? = some s ∧ ((AssocMap.find t.children s).isSome ∨
          (¬(AssocMap.find u.children s).isSome ∧ (AssocMap.find t.children paramKey).isSome))
      then t.get tokens params method else u.get tokens params method := by
  induction tokens with
  | nil =>
    rw [if_neg (by simp)]
    rfl
  | cons token rest ih =>
    by_cases ht : token = []
    · subst ht
      have hfilter : (([] : Str) :: rest).filter (· ≠ []) = rest.filter (· ≠ []) := by simp
      simp only [Node.get, if_pos, hfilter]
      exact ih
    · have hfilter : (token :: rest).filter (· ≠ []) = token :: rest.filter (· ≠ []) := by
        simp [ht]
      have hchildren : (t.assign u).children = Node.emplaceAll t.children u.children := rfl
      rw [hfilter, List.head?_cons]
      simp only [Node.get, if_neg ht, hchildren, find_emplaceAll, Option.some.injEq,
        exists_eq_left']
      cases hts : AssocMap.find t.children token with
      | some c => simp [hts]
      | none =>
        cases hus : AssocMap.find u.children token with
        | some c => simp [hts, hus]
        | none =>
          cases htp : AssocMap.find t.children paramKey with
          | some c => simp [htp]
          | none => simp [htp]

/-! ## Routers -/

namespace Routers

/-- The routers have these tries, with no nodes in common. -/
structure Apart (w : Routers H) (trie : Nat → Node H) (fp : Nat → List Nat) : Prop where
  rep : ∀ r ∈ w.routers, Rep w.heap r (trie r) (fp r)
  disjoint : ∀ r ∈ w.routers, ∀ s ∈ w.routers, r ≠ s → ∀ x ∈ fp r, x ∉ fp s

section Apart

variable {w : Routers H} {trie : Nat → Node H} {fp : Nat → List Nat} {r s : Nat}

theorem Apart.get (h : Apart w trie fp) (hr : r ∈ w.routers) (path : Str) (method : Method) :
    w.get r path method = Router.get ⟨trie r⟩ path method := by
  have hget := (h.rep r hr).get (splitUrlPath path) [] method
  unfold Routers.get Router.get
  cases hfound : (trie r).get (splitUrlPath path) [] method with
  | none => simp only [hget, hfound]
  | some result => simp only [hget, hfound]

theorem Apart.hasChild (h : Apart w trie fp) (hr : r ∈ w.routers) (key : Str) :
    w.hasChild r key = (AssocMap.find (trie r).children key).isSome := by
  have hrep := h.rep r hr
  generalize trie r = t at hrep
  generalize fp r = f at hrep
  cases hrep with
  | @node a name ptrs children handlers fp hread hkeys hchildren hfresh =>
    unfold Routers.hasChild
    rw [hread, Option.any_some, Bool.eq_iff_iff, AssocMap.find_isSome, AssocMap.find_isSome]
    exact (congrArg (key ∈ ·) hchildren.keys.symm).to_iff

/-- One router is changed. -/
theorem Apart.change (h : Apart w trie fp) (hr : r ∈ w.routers) {heap : NodeHeap H} {t : Node H}
    {f : List Nat} (hrep : Rep heap r t f) (hchanges : Changes w.heap heap (fp r) f) :
    Apart { w with heap := heap } (Function.update trie r t) (Function.update fp r f) := by
  have hapart : ∀ s ∈ w.routers, s ≠ r → ∀ x ∈ f, x ∉ fp s := by
    intro s hs hsr x hx hxs
    rcases hchanges.fresh x hx with hold | hge
    · exact h.disjoint r hr s hs hsr.symm x hold hxs
    · exact absurd ((h.rep s hs).lt x hxs) (Nat.not_lt.mpr hge)
  constructor
  · intro s hs
    by_cases hsr : s = r
    · subst hsr
      rw [Function.update_self, Function.update_self]
      exact hrep
    · rw [Function.update_of_ne hsr, Function.update_of_ne hsr]
      exact (h.rep s hs).frame fun x hx =>
        hchanges.others x ((h.rep s hs).lt x hx) (h.disjoint s hs r hr hsr x hx)
  · intro s hs s' hs' hne x hx hx'
    by_cases hsr : s = r
    · subst hsr
      rw [Function.update_self] at hx
      rw [Function.update_of_ne hne.symm] at hx'
      exact hapart s' hs' hne.symm x hx hx'
    · rw [Function.update_of_ne hsr] at hx
      by_cases hsr' : s' = r
      · subst hsr'
        rw [Function.update_self] at hx'
        exact hapart s hs hsr x hx' hx
      · rw [Function.update_of_ne hsr'] at hx'
        exact h.disjoint s hs s' hs' hne x hx hx'

theorem Apart.lt (h : Apart w trie fp) (hr : r ∈ w.routers) : r < w.heap.length :=
  (h.rep r hr).lt r (h.rep r hr).mem

theorem Apart.construct (h : Apart w trie fp) :
    Apart w.construct (Function.update trie w.heap.length (.new []))
      (Function.update fp w.heap.length [w.heap.length]) := by
  have hne : ∀ s ∈ w.routers, s ≠ w.heap.length := fun s hs => Nat.ne_of_lt (h.lt hs)
  have hcases : ∀ s ∈ w.construct.routers, s ∈ w.routers ∨ s = w.heap.length := fun s hs =>
    (List.mem_append.mp hs).imp_right List.mem_singleton.mp
  constructor
  · intro s hs
    rcases hcases s hs with hs | rfl
    · rw [Function.update_of_ne (hne s hs), Function.update_of_ne (hne s hs)]
      exact (h.rep s hs).frame fun x hx => List.getElem?_append_left ((h.rep s hs).lt x hx)
    · rw [Function.update_self, Function.update_self]
      exact .node List.getElem?_concat_length List.nodup_nil .nil List.not_mem_nil
  · intro s hs s' hs' hss x hx hx'
    rcases hcases s hs with hs | rfl
    · rw [Function.update_of_ne (hne s hs)] at hx
      rcases hcases s' hs' with hs' | rfl
      · rw [Function.update_of_ne (hne s' hs')] at hx'
        exact h.disjoint s hs s' hs' hss x hx hx'
      · rw [Function.update_self] at hx'
        exact Nat.ne_of_lt ((h.rep s hs).lt x hx) (List.mem_singleton.mp hx')
    · rw [Function.update_self] at hx
      rcases hcases s' hs' with hs' | rfl
      · rw [Function.update_of_ne (hne s' hs')] at hx'
        exact Nat.ne_of_lt ((h.rep s' hs').lt x hx') (List.mem_singleton.mp hx)
      · exact hss rfl

theorem Apart.set (h : Apart w trie fp) (hr : r ∈ w.routers) (rule : Str) (method : Method)
    (handler : H) :
    ∃ heap f, w.set r rule method handler = some { w with heap := heap } ∧
      Apart { w with heap := heap }
        (Function.update trie r ((trie r).set (splitUrlPath rule) method handler))
        (Function.update fp r f) := by
  obtain ⟨heap, f, hset, hrep, hchanges⟩ := (h.rep r hr).set (splitUrlPath rule) method handler
  refine ⟨heap, f, ?_, h.change hr hrep hchanges⟩
  rw [Routers.set, hset]
  rfl

theorem Apart.copyAssign (h : Apart w trie fp) (hr : r ∈ w.routers) (hs : s ∈ w.routers)
    (hne : r ≠ s) :
    ∃ heap f, w.copyAssign r s = some { w with heap := heap } ∧
      Apart { w with heap := heap } (Function.update trie r ((trie r).assign (trie s)))
        (Function.update fp r f) := by
  have hdepth : (fp s).length ≤ w.heap.length := by
    have hsub : fp s ⊆ List.range w.heap.length := fun x hx =>
      List.mem_range.mpr ((h.rep s hs).lt x hx)
    have hle := (List.subperm_of_subset (h.rep s hs).nodup hsub).length_le
    rwa [List.length_range] at hle
  obtain ⟨heap, f, hassign, hrep, hchanges⟩ := assigns_assign w.heap.length w.heap r s _ _ _ _
    (h.rep r hr) (h.rep s hs) (h.disjoint r hr s hs hne) hdepth
  refine ⟨heap, f, ?_, h.change hr hrep hchanges⟩
  rw [Routers.copyAssign, hassign]
  rfl

end Apart

/-- A new router that is made from another one. -/
theorem Apart.copyNew {w : Routers H} {trie : Nat → Node H} {fp : Nat → List Nat}
    (h : Apart w trie fp) {b : Nat} (hb : b ∈ w.routers) :
    ∃ heap trie' fp', w.construct.copyAssign w.heap.length b =
        some { w.construct with heap := heap } ∧
      Apart { w.construct with heap := heap } trie' fp' ∧
      trie' w.heap.length = (Node.new []).assign (trie b) ∧ trie' b = trie b := by
  have hlt := h.lt hb
  obtain ⟨heap, f, hassign, hapart⟩ := h.construct.copyAssign (r := w.heap.length) (s := b)
    (List.mem_append_right _ (List.mem_singleton_self _)) (List.mem_append_left _ hb)
    (Nat.ne_of_gt hlt)
  refine ⟨heap, _, _, hassign, hapart, ?_, ?_⟩
  · rw [Function.update_self, Function.update_self, Function.update_of_ne (Nat.ne_of_lt hlt)]
  · rw [Function.update_of_ne (Nat.ne_of_lt hlt), Function.update_of_ne (Nat.ne_of_lt hlt)]

/-- In every run the routers stay apart. -/
theorem exists_apart {w : Routers H} (h : Reachable (System.ofStep Routers.new Routers.step) w) :
    ∃ trie fp, Apart w trie fp := by
  refine h.invariant_ofStep (I := fun w => ∃ trie fp, Apart w trie fp) ?_ ?_
  · exact ⟨fun _ => .new [], fun _ => [], ⟨fun r hr => absurd hr List.not_mem_nil,
      fun r hr => absurd hr List.not_mem_nil⟩⟩
  · rintro w op w' ⟨trie, fp, hapart⟩ hstep
    cases op with
    | construct =>
      cases hstep
      exact ⟨_, _, hapart.construct⟩
    | set r rule method handler =>
      dsimp only [step] at hstep
      split_ifs at hstep with hr
      obtain ⟨heap, f, hset, hapart'⟩ := hapart.set hr rule method handler
      rw [hset] at hstep
      cases hstep
      exact ⟨_, _, hapart'⟩
    | copyConstruct r =>
      dsimp only [step] at hstep
      split_ifs at hstep with hr
      obtain ⟨heap, trie', fp', hcopy, hapart', -, -⟩ := hapart.copyNew hr
      rw [copyConstruct, hcopy] at hstep
      cases hstep
      exact ⟨_, _, hapart'⟩
    | moveConstruct r =>
      dsimp only [step] at hstep
      split_ifs at hstep with hr
      obtain ⟨heap, trie', fp', hcopy, hapart', -, -⟩ := hapart.copyNew hr
      rw [moveConstruct, hcopy] at hstep
      cases hstep
      exact ⟨_, _, hapart'⟩
    | copyAssign r s =>
      dsimp only [step] at hstep
      split_ifs at hstep with hrs
      obtain ⟨heap, f, hassign, hapart'⟩ := hapart.copyAssign hrs.1 hrs.2.1 hrs.2.2
      rw [hassign] at hstep
      cases hstep
      exact ⟨_, _, hapart'⟩

/-- A router that was assigned to differs from the other one only on paths that lead to a child which
it had before. -/
theorem Apart.get_copyAssign {w : Routers H} {trie : Nat → Node H} {fp : Nat → List Nat}
    (h : Apart w trie fp) {a b : Nat} (ha : a ∈ w.routers) (hb : b ∈ w.routers) (path : Str)
    (method : Method) [Decidable (w.LeadsToOldChild a b path)] :
    Router.get ⟨(trie a).assign (trie b)⟩ path method =
      if w.LeadsToOldChild a b path then w.get a path method else w.get b path method := by
  have hleads : w.LeadsToOldChild a b path ↔
      ∃ s, ((splitUrlPath path).filter (· ≠ [])).head? = some s ∧
        ((AssocMap.find (trie a).children s).isSome ∨
          (¬(AssocMap.find (trie b).children s).isSome ∧
            (AssocMap.find (trie a).children paramKey).isSome)) := by
    unfold LeadsToOldChild
    simp only [h.hasChild ha, h.hasChild hb, filter_splitUrlPath]
  rw [h.get ha, h.get hb, Router.get, get_assign]
  by_cases hold : w.LeadsToOldChild a b path
  · rw [if_pos hold, if_pos (hleads.mp hold)]
    rfl
  · rw [if_neg hold, if_neg fun hs => hold (hleads.mpr hs)]
    rfl

/-- A router that was made from another one has the same lookups. -/
theorem Apart.get_copyNew {w : Routers H} {trie : Nat → Node H} {fp : Nat → List Nat}
    (h : Apart w trie fp) {b : Nat} (hb : b ∈ w.routers) :
    ∃ w', w.construct.copyAssign w.heap.length b = some w' ∧ w.heap.length ∈ w'.routers ∧
      ∀ path method, w'.get w.heap.length path method = w'.get b path method := by
  obtain ⟨heap, trie', fp', hcopy, hapart, hnew, hold⟩ := h.copyNew hb
  have hmem : w.heap.length ∈ w.construct.routers :=
    List.mem_append_right _ (List.mem_singleton_self _)
  refine ⟨_, hcopy, hmem, fun path method => ?_⟩
  rw [hapart.get hmem, hapart.get (List.mem_append_left _ hb), hnew, hold, Router.get, get_assign]
  have hnone : ∀ key, AssocMap.find (Node.new [] : Node H).children key = none := fun _ => rfl
  simp only [hnone, Option.isSome_none, Bool.false_eq_true, and_false, or_self, exists_false, if_false]
  rfl

/-- A router that is made from another one has its lookups, and a later `set` on one of them does not
change the lookups of the other. After `a = b` they have the same lookups when they had them before on
all paths that lead to an old child of `a`. -/
theorem copies_exact_iff {w : Routers H}
    (h : Reachable (System.ofStep Routers.new Routers.step) w) :
    (∀ b ∈ w.routers,
      (∃ w', w.copyConstruct b = some w' ∧ w.heap.length ∈ w'.routers ∧
        ∀ path method, w'.get w.heap.length path method = w'.get b path method) ∧
      ∃ w', w.moveConstruct b = some w' ∧ w.heap.length ∈ w'.routers ∧
        ∀ path method, w'.get w.heap.length path method = w'.get b path method) ∧
    (∀ a ∈ w.routers, ∀ b ∈ w.routers, a ≠ b → ∃ w', w.copyAssign a b = some w' ∧
      ((∀ path method, w'.get a path method = w'.get b path method) ↔
        ∀ path method, w.LeadsToOldChild a b path → w.get a path method = w.get b path method)) ∧
    ∀ a ∈ w.routers, ∀ rule method handler, ∃ w', w.set a rule method handler = some w' ∧
      ∀ b ∈ w.routers, b ≠ a → ∀ path method, w'.get b path method = w.get b path method := by
  obtain ⟨trie, fp, hapart⟩ := exists_apart h
  refine ⟨fun b hb => ⟨hapart.get_copyNew hb, hapart.get_copyNew hb⟩, fun a ha b hb hne => ?_,
    fun a ha rule method handler => ?_⟩
  · classical
    obtain ⟨heap, f, hassign, hapart'⟩ := hapart.copyAssign ha hb hne
    have hget : ∀ path method,
        Routers.get { w with heap := heap } a path method =
          if w.LeadsToOldChild a b path then w.get a path method else w.get b path method := by
      intro path method
      rw [hapart'.get ha, Function.update_self]
      exact hapart.get_copyAssign ha hb path method
    have hother : ∀ path method,
        Routers.get { w with heap := heap } b path method = w.get b path method := by
      intro path method
      rw [hapart'.get hb, hapart.get hb, Function.update_of_ne hne.symm]
    refine ⟨_, hassign, forall₂_congr fun path method => ?_⟩
    rw [hget, hother]
    by_cases hold : w.LeadsToOldChild a b path
    · rw [if_pos hold]
      exact ⟨fun heq _ => heq, fun heq => heq hold⟩
    · rw [if_neg hold]
      exact ⟨fun _ hold' => absurd hold' hold, fun _ => rfl⟩
  · obtain ⟨heap, f, hset, hapart'⟩ := hapart.set ha rule method handler
    refine ⟨_, hset, fun b hb hne path method => ?_⟩
    rw [hapart'.get hb, hapart.get hb, Function.update_of_ne hne]

section Examples

/-- Two routers, with the rules `/x` and `/y`. -/
def twoRouters : Routers Nat where
  heap := [⟨[], [("x".toList, 2)], []⟩, ⟨[], [("y".toList, 3)], []⟩,
    ⟨"x".toList, [], [(Method.get.toSize, 1)]⟩, ⟨"y".toList, [], [(Method.get.toSize, 2)]⟩]
  routers := [0, 1]

theorem reachable_twoRouters : Reachable (System.ofStep Routers.new Routers.step) twoRouters :=
  reachable_of_run
    [.construct, .construct, .set 0 "/x".toList .get 1, .set 1 "/y".toList .get 2] rfl

theorem mem_twoRouters : 0 ∈ twoRouters.routers ∧ 1 ∈ twoRouters.routers := by decide

/-- A copy of the first router, and one more rule for it. -/
theorem copies_exact_two :
    (∃ w', twoRouters.copyConstruct 0 = some w' ∧
      ∀ path method, w'.get 4 path method = w'.get 0 path method) ∧
    ∃ w', twoRouters.set 0 "/:z".toList .put 3 = some w' ∧
      ∀ path method, w'.get 1 path method = twoRouters.get 1 path method := by
  obtain ⟨hcopies, -, hset⟩ := copies_exact_iff reachable_twoRouters
  obtain ⟨⟨w', hcopy, -, hget⟩, -⟩ := hcopies 0 mem_twoRouters.1
  obtain ⟨w'', hset, hother⟩ := hset 0 mem_twoRouters.1 "/:z".toList .put 3
  exact ⟨⟨w', hcopy, hget⟩, w'', hset, hother 1 mem_twoRouters.2 (by decide)⟩

/-- After an assignment the first router still finds its old rule, which the second one does not
have. -/
theorem copy_keeps_old_child : ¬∀ w : Routers Nat,
    Reachable (System.ofStep Routers.new Routers.step) w → ∀ a ∈ w.routers, ∀ b ∈ w.routers, a ≠ b →
      ∃ w', w.copyAssign a b = some w' ∧
        ∀ path method, w'.get a path method = w'.get b path method := by
  intro h
  obtain ⟨w', hassign, hget⟩ := h twoRouters reachable_twoRouters 0 mem_twoRouters.1 1
    mem_twoRouters.2 (by decide)
  cases hassign
  have hfound := congrArg Except.toOption (hget "/x".toList .get)
  exact absurd hfound (by decide)

end Examples

end Routers

end Http
