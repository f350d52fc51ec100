import Mathlib
import Stencil.Proofs.Layout.Inlining

/-!
# The bodies around a site

The stack of a site holds the tags of all the calls that are going on. Siblings need not be written
in the bodies of these calls: the children of a call are laid out where the body has a slot, while
the call is going on, but they stand in the body, or the tree, that the call itself stands in.

* `Entrance` — a body that is entered by inlining an element with some tag;
* `Nested` — a chain of bodies, each entered by inlining an element of the one before;
* `Scene` — a site with the chain of bodies that its siblings are written in;
* `Moves` — how a layout goes on from scene to scene.

Forgetting the bodies makes moves calls (`Moves.calls`), and each site that a tree leads to is that
of some scene (`exists_scene`). In a scene that a tree leads to, the bodies are nested and their
tags are on the stack (`soundScene_of_reaches`).

The stack tells calls apart by their tags, and one component can have many of those. The main
theorem is `entered_le_entrances`: along a chain of nested bodies no component is entered more often
than there are ways to enter it.
-/

namespace Stencil

open Relation (ReflTransGen)

/-- A body that is entered in the place of an element with this tag. -/
structure Entrance where
  tag : String
  component : Component

section

variable (t : Table) (n : Node)

/-- The tags of the elements that stand in the innermost of these bodies, or in the tree itself if
there are none. -/
def tagsWithin : List Entrance → List String
  | [] => n.tags
  | e :: _ => Node.tagsOfList e.component.body

/-- The innermost body is entered in the place of an element of the body around it, and so on out to
the tree. -/
inductive Nested : List Entrance → Prop
  | tree : Nested []
  | body {e : Entrance} {outer : List Entrance} : Nested outer → e.tag ∈ tagsWithin n outer →
    t.resolve? e.tag = some e.component → Nested (e :: outer)

/-- A site, and where its siblings and the children that wait for a slot are written. -/
structure Scene where
  site : Site
  /-- The bodies around the siblings, the innermost first. -/
  bodies : List Entrance
  /-- The bodies around the children that a slot can take, for each call. -/
  origins : List (List Entrance)

/-- The scene of a whole tree. -/
def Node.scene (n : Node) : Scene :=
  ⟨n.site, [], []⟩

/-- The layout of the first scene goes on to the second one. -/
inductive Moves : Scene → Scene → Prop
  /-- To other siblings of the same body. -/
  | inside {s s' bodies origins} : Calls t s s' → s'.stack = s.stack → s'.slots = s.slots →
    Moves ⟨s, bodies, origins⟩ ⟨s', bodies, origins⟩
  /-- To the body of a component. The children of the call stay where they are written. -/
  | enter {stack slots tag attributes cs ns c bodies origins} : t.resolve? tag = some c →
    tag ∉ stack →
    Moves ⟨⟨stack, slots, .element tag attributes cs :: ns⟩, bodies, origins⟩
      ⟨⟨tag :: stack, cs :: slots, c.body⟩, ⟨tag, c⟩ :: bodies, bodies :: origins⟩
  /-- To the children of a call, which is still going on. -/
  | fill {stack slot outer code ns bodies origin origins} : isChildrenSlot code = true →
    Moves ⟨⟨stack, slot :: outer, .interpolation code :: ns⟩, bodies, origin :: origins⟩
      ⟨⟨stack, outer, slot⟩, origin, origins⟩

end

variable {t : Table} {n : Node}

/-! ### Scenes and sites -/

/-- A move between scenes is a call between their sites. -/
theorem Moves.calls {s s' : Scene} (h : Moves t s s') : Calls t s.site s'.site := by
  cases h with
  | inside hcall => exact hcall
  | enter hresolve hnot => exact .inlined hresolve hnot
  | fill hslot => exact .slot hslot

/-- Where the children of each call are known, a call is a move. -/
theorem Calls.exists_moves {s : Scene} {site : Site} (h : Calls t s.site site)
    (horigins : s.origins.length = s.site.slots.length) :
    ∃ s', Moves t s s' ∧ s'.site = site ∧ s'.origins.length = site.slots.length := by
  obtain ⟨here, bodies, origins⟩ := s
  -- Only a call and a slot change the bodies; all other calls stay inside the innermost one.
  cases h with
  | inlined hresolve hnot => exact ⟨_, .enter hresolve hnot, rfl, congrArg (· + 1) horigins⟩
  | slot hslot =>
    -- There is an origin for each of the slots, so the children come with their bodies.
    cases origins with
    | nil => cases horigins
    | cons origin origins => exact ⟨_, .fill hslot, rfl, Nat.succ.inj horigins⟩
  | rest => exact ⟨_, .inside .rest rfl rfl, rfl, horigins⟩
  | root => exact ⟨_, .inside .root rfl rfl, rfl, horigins⟩
  | fragment => exact ⟨_, .inside .fragment rfl rfl, rfl, horigins⟩
  | mixin => exact ⟨_, .inside .mixin rfl rfl, rfl, horigins⟩
  | iteration => exact ⟨_, .inside .iteration rfl rfl, rfl, horigins⟩
  | consequent => exact ⟨_, .inside .consequent rfl rfl, rfl, horigins⟩
  | alternate => exact ⟨_, .inside .alternate rfl rfl, rfl, horigins⟩
  | plain hplain => exact ⟨_, .inside (.plain hplain) rfl rfl, rfl, horigins⟩

/-- **Every site that a tree leads to is the site of a scene that it leads to.** -/
theorem exists_scene {site : Site} (h : ReflTransGen (Calls t) n.site site) :
    ∃ s, ReflTransGen (Moves t) n.scene s ∧ s.site = site := by
  -- The induction along the way also keeps that there is an origin for each slot.
  have hscene : ∃ s, ReflTransGen (Moves t) n.scene s ∧ s.site = site ∧
      s.origins.length = site.slots.length := by
    induction h with
    | refl => exact ⟨n.scene, .refl, rfl, rfl⟩
    | tail _ hcall ih =>
      obtain ⟨s, hs, rfl, horigins⟩ := ih
      obtain ⟨s', hmove, hsite, horigins'⟩ := hcall.exists_moves horigins
      exact ⟨s', hs.tail hmove, hsite, horigins'⟩
  obtain ⟨s, hs, hsite, -⟩ := hscene
  exact ⟨s, hs, hsite⟩

/-- So scenes that are reached have sites that are reached. -/
theorem reaches_site {s : Scene} (h : ReflTransGen (Moves t) n.scene s) :
    ReflTransGen (Calls t) n.site s.site :=
  ReflTransGen.lift Scene.site (fun _ _ => Moves.calls) _ _ h

/-! ### Where siblings are written -/

section

variable (t n)

/-- Siblings are written in these bodies, and all the calls of the bodies are going on. -/
structure Written (stack : List String) (bodies : List Entrance) (nodes : List Node) : Prop where
  nested : Nested t n bodies
  tags : Node.tagsOfList nodes ⊆ tagsWithin n bodies
  going : (bodies.map Entrance.tag).Sublist stack

/-- The bodies of a scene are those that its siblings are written in, and so are the bodies of what
waits for a slot. -/
structure Scene.Sound (s : Scene) : Prop where
  siblings : Written t n s.site.stack s.bodies s.site.nodes
  slots : List.Forall₂ (Written t n s.site.stack) s.origins s.site.slots
  resolved : ∀ tag ∈ s.site.stack, (t.resolve? tag).isSome = true

end

/-- What is written stays written with one more tag on the stack. -/
theorem Written.push {stack : List String} {bodies : List Entrance} {nodes : List Node}
    (h : Written t n stack bodies nodes) (tag : String) :
    Written t n (tag :: stack) bodies nodes :=
  { h with going := h.going.cons tag }

/-- Siblings of the same calls are parts of the siblings before. -/
theorem Calls.tagsOfList_subset {s s' : Site} (h : Calls t s s') (hstack : s'.stack = s.stack)
    (hslots : s'.slots = s.slots) : Node.tagsOfList s'.nodes ⊆ Node.tagsOfList s.nodes := by
  -- A call and a slot change the stack or the slots, and everything else goes to parts of the
  -- siblings.
  cases h with
  | inlined => exact absurd hstack (List.cons_ne_self _ _)
  | slot => exact absurd hslots.symm (List.cons_ne_self _ _)
  | rest => exact List.subset_append_right _ _
  | root => exact List.subset_append_left _ _
  | fragment => exact List.subset_append_left _ _
  | mixin => exact List.subset_append_left _ _
  | iteration => exact List.subset_append_left _ _
  | plain => exact List.Subset.trans (List.subset_cons_self _ _) (List.subset_append_left _ _)
  | consequent =>
    simp only [Node.tagsOfList, Node.tags, Node.tagsOfOption, List.append_nil, List.append_assoc]
    exact List.subset_append_left _ _
  | alternate =>
    simp only [Node.tagsOfList, Node.tags, Node.tagsOfOption, List.append_nil]
    exact List.Subset.trans (List.subset_append_right _ _) (List.subset_append_left _ _)

/-- **A move keeps the bodies right.** -/
theorem Scene.Sound.moves {s s' : Scene} (h : s.Sound t n) (hmove : Moves t s s') :
    s'.Sound t n := by
  obtain ⟨hsiblings, hslots, hresolved⟩ := h
  cases hmove with
  | @inside s s' bodies origins hcall hstack heq =>
    -- Nothing changes but the siblings, and what they hold stood in the same bodies before.
    have htags := hcall.tagsOfList_subset hstack heq
    dsimp only at hsiblings hslots hresolved
    rw [← hstack] at hsiblings hslots hresolved
    rw [← heq] at hslots
    exact ⟨{ hsiblings with tags := List.Subset.trans htags hsiblings.tags }, hslots, hresolved⟩
  | @enter stack slots tag attributes cs ns c bodies origins hresolve hnot =>
    have htag : tag ∈ tagsWithin n bodies :=
      hsiblings.tags (List.mem_append_left _ List.mem_cons_self)
    have hchildren : Node.tagsOfList cs ⊆ tagsWithin n bodies := fun _ hx =>
      hsiblings.tags (List.mem_append_left _ (List.mem_cons_of_mem _ hx))
    refine ⟨⟨hsiblings.nested.body htag hresolve, List.Subset.refl _,
      hsiblings.going.cons_cons tag⟩, ?_, ?_⟩
    · -- The children of the call are written where the call is.
      refine .cons ?_ (hslots.imp fun _ _ hwritten => hwritten.push tag)
      exact Written.push { hsiblings with tags := hchildren } tag
    · exact List.forall_mem_cons.2 ⟨Option.isSome_iff_exists.2 ⟨c, hresolve⟩, hresolved⟩
  | fill hslot =>
    obtain ⟨hslot, houter⟩ := List.forall₂_cons.1 hslots
    exact ⟨hslot, houter, hresolved⟩

/-- Every scene that is reached from a tree is sound. -/
theorem soundScene_of_reaches {s : Scene} (h : ReflTransGen (Moves t) n.scene s) :
    s.Sound t n := by
  induction h with
  | refl =>
    have htags : Node.tagsOfList n.scene.site.nodes ⊆ tagsWithin n [] := by
      simp only [Node.scene, Node.site, Node.tagsOfList, List.append_nil]
      exact List.Subset.refl _
    exact ⟨⟨.tree, htags, List.Sublist.slnil⟩, .nil, List.forall_mem_nil _⟩
  | tail _ hmove ih => exact ih.moves hmove

/-- The bodies around siblings are entered by tags that are pairwise distinct. -/
theorem nodup_tags_bodies {s : Scene} (h : ReflTransGen (Moves t) n.scene s) :
    (s.bodies.map Entrance.tag).Nodup :=
  (soundScene_of_reaches h).siblings.going.nodup (stackFits_of_reaches (reaches_site h)).nodup

/-! ### How often a component is entered -/

/-- Both are the component of one name in one file. -/
def Component.same (a b : Component) : Bool :=
  samePath a.file b.file && a.signature.name == b.signature.name

/-- The components whose bodies are around the siblings, the outermost first, where the tree is made
of the component `c`. -/
def Scene.entered (c : Component) (s : Scene) : List Component :=
  c :: (s.bodies.map Entrance.component).reverse

/-- The number of ways to enter the component `d` when the tree is made of the component `c`: as the
tree itself, and by each tag that stands for it. -/
def Table.entrances (t : Table) (c d : Component) : Nat :=
  (if d.same c then 1 else 0)
    + ((Node.tagsOfList c.body ++ t.tags).eraseDups.filter fun tag =>
        (t.resolve? tag).any d.same).length

/-- Every entrance into a nested body is through a tag that resolves to its component. -/
theorem Nested.mem {bodies : List Entrance} (h : Nested t n bodies) :
    ∀ e ∈ bodies, t.resolve? e.tag = some e.component ∧ e.tag ∈ n.tags ++ t.tags := by
  induction h with
  | tree => exact nofun
  | @body e outer houter htag hresolve ih =>
    refine List.forall_mem_cons.2 ⟨⟨hresolve, ?_⟩, ih⟩
    -- The element stands in the tree itself or in the body of a component of the table.
    cases houter with
    | tree => exact List.mem_append_left _ htag
    | body _ _ houter => exact List.mem_append_right _ (Table.tags_body_subset houter htag)

/-- Bodies of one component are entered by different tags that all stand for it. -/
theorem countP_bodies_le {s : Scene} (h : ReflTransGen (Moves t) n.scene s) (d : Component) :
    (s.bodies.map Entrance.component).countP d.same
      ≤ ((n.tags ++ t.tags).eraseDups.filter fun tag => (t.resolve? tag).any d.same).length := by
  -- The tags of these bodies are all different, and each of them stands for the component.
  have hnodup : ((s.bodies.filter fun e => d.same e.component).map Entrance.tag).Nodup :=
    (List.filter_sublist.map _).nodup (nodup_tags_bodies h)
  have hsubset : (s.bodies.filter fun e => d.same e.component).map Entrance.tag
      ⊆ (n.tags ++ t.tags).eraseDups.filter fun tag => (t.resolve? tag).any d.same := by
    intro tag htag
    obtain ⟨e, he, rfl⟩ := List.mem_map.1 htag
    obtain ⟨he, hsame⟩ := List.mem_filter.1 he
    obtain ⟨hresolve, hmem⟩ := (soundScene_of_reaches h).siblings.nested.mem e he
    refine List.mem_filter.2 ⟨List.mem_eraseDups.2 hmem, ?_⟩
    rw [hresolve]
    exact hsame
  calc (s.bodies.map Entrance.component).countP d.same
      = ((s.bodies.filter fun e => d.same e.component).map Entrance.tag).length := by
        rw [List.countP_map, List.countP_eq_length_filter, List.length_map]
        rfl
    _ ≤ _ := List.Nodup.length_le_of_subset hnodup hsubset

/-- **No component is entered more often than there are ways to enter it**, along any chain of
nested bodies on the way from a tree that is made of a component: once as the tree itself, and once
by each tag that stands for it. So a component with a single way in is never entered again inside
itself. -/
theorem entered_le_entrances (t : Table) (c : Component) {s : Scene}
    (h : ReflTransGen (Moves t) (Node.root [c.node]).scene s) :
    Nested t (.root [c.node]) s.bodies ∧
      ∀ d, (s.entered c).countP d.same ≤ t.entrances c d := by
  refine ⟨(soundScene_of_reaches h).siblings.nested, fun d => ?_⟩
  have htags : (Node.root [c.node]).tags = Node.tagsOfList c.body := by
    simp only [Component.node, Node.tags, Node.tagsOfList, List.append_nil]
  have hbodies := countP_bodies_le h d
  rw [htags] at hbodies
  -- A component is entered once from the root, and else through a tag of a body that is open.
  unfold Scene.entered Table.entrances
  rw [List.countP_cons, List.countP_reverse]
  omega

/-- A page with a card in it, which has an icon in it: each of the three is entered once. -/
theorem entered_le_entrances_page :
    let component (name : String) (body : List Node) : Component :=
      ⟨⟨name, [], Dict.empty⟩, body, false, none⟩
    let icon := component "Icon" [.element "i" [] []]
    let card := component "Card" [.element "Icon" [] []]
    let page := component "Page" [.element "Card" [] []]
    let t : Table := { components := Dict.ofList [("Card", card), ("Icon", icon), ("Page", page)] }
    let s : Scene := ⟨⟨["Icon", "Card"], [[], []], icon.body⟩, [⟨"Icon", icon⟩, ⟨"Card", card⟩],
      [[⟨"Card", card⟩], []]⟩
    ReflTransGen (Moves t) (Node.root [page.node]).scene s ∧ Nested t (.root [page.node]) s.bodies ∧
      ∀ d ∈ [page, card, icon], (s.entered page).countP d.same ≤ 1 := by
  intro component icon card page t s
  have hcard : t.resolve? "Card" = some card := by cbv
  have hicon : t.resolve? "Icon" = some icon := by cbv
  have hs : ReflTransGen (Moves t) (Node.root [page.node]).scene s :=
    .head (.inside .root rfl rfl) <| .head (.inside .mixin rfl rfl) <|
      .head (.enter hcard (by decide)) <| .head (.enter hicon (by decide)) .refl
  have hentrances : ∀ d ∈ [page, card, icon], t.entrances page d = 1 := by decide +kernel
  obtain ⟨hnested, hle⟩ := entered_le_entrances t page hs
  exact ⟨hs, hnested, fun d hd => hentrances d hd ▸ hle d⟩

/-- **A component with two names** is entered inside itself: the tree has a leaf, and the leaf has a
branch, as it calls the tree. -/
theorem tree_in_tree_entered :
    let path : Path := ⟨"/app/Tree.jsx"⟩
    let tree : Component := ⟨{ name := "Tree" }, [.element "ul" [] [.element "Leaf" [] []]], true,
      some path⟩
    let leaf : Component := ⟨{ name := "Leaf" }, [.element "Branch" [] []], false, some path⟩
    let page : Component := ⟨{ name := "Page" }, [.element "Tree" [] []], true,
      some ⟨"/app/main.jsx"⟩⟩
    let t : Table :=
      { components := Dict.ofList [("Leaf", leaf), ("Page", page), ("Tree", tree)]
        dependencies := Dict.ofList [("Branch", { source := "./Tree", path := some path })] }
    let s : Scene := ⟨⟨["Branch", "Leaf", "Tree"], [[], [], []], tree.body⟩,
      [⟨"Branch", tree⟩, ⟨"Leaf", leaf⟩, ⟨"Tree", tree⟩],
      [[⟨"Leaf", leaf⟩, ⟨"Tree", tree⟩], [⟨"Tree", tree⟩], []]⟩
    ReflTransGen (Moves t) (Node.root [page.node]).scene s ∧
      Nested t (.root [page.node]) s.bodies ∧ (s.entered page).countP tree.same = 2 := by
  intro path tree leaf page t s
  have htree : t.resolve? "Tree" = some tree := by cbv
  have hleaf : t.resolve? "Leaf" = some leaf := by cbv
  have hbranch : t.resolve? "Branch" = some tree := by cbv
  have hul : t.resolve? "ul" = none := by cbv
  have hs : ReflTransGen (Moves t) (Node.root [page.node]).scene s :=
    .head (.inside .root rfl rfl) <| .head (.inside .mixin rfl rfl) <|
      .head (.enter htree (by decide)) <| .head (.inside (.plain (.inl hul)) rfl rfl) <|
      .head (.enter hleaf (by decide)) <| .head (.enter hbranch (by decide)) .refl
  exact ⟨hs, (soundScene_of_reaches hs).siblings.nested, by decide +kernel⟩

end Stencil
